import Codegg.Projection.Dto

/-!
# Projection events

The mutations a reducer applies to a session snapshot and the envelope that carries one
of them. The payload of a diagnostics update of the project stream, a failed turn's
category and usage, and a completed turn's provider allowance are left out: no consumer of
a session snapshot reads them.
-/
namespace Codegg.Projection

inductive ProjectionStreamScope
  | project
  | session
  | workspace
  | daemon
  deriving DecidableEq

inductive ProjectionEvent
  | sessionActivated (summary : SessionSummaryProjection)
  | turnStarted (turn : TurnProjection)
  | messageAppended (message : MessageProjection)
  | reasoningAppended (messageId delta : String)
  | toolStarted (tool : ToolProjection)
  | toolCompleted (toolId : String) (output : ToolOutputProjection) (success : Bool)
      (durationMs : ℕ) (completedAt : ℤ)
  | toolFailed (toolId error : String) (completedAt : ℤ)
  | permissionPending (permission : PermissionProjection)
  | permissionResolved (permissionId : String) (status : PermissionStatus) (resolvedAt : ℤ)
  | questionPending (question : QuestionProjection)
  | lspDiagnosticsUpdated
  | questionResolved (questionId : String) (status : PermissionStatus) (resolvedAt : ℤ)
  | turnCompleted (turnId stopReason : String) (completedAt : ℤ)
      (inputTokens outputTokens cachedTokens reasoningTokens contextLimit : Option ℕ)
  | turnFailed (turnId message : String) (failedAt : ℤ)
  | subagentStarted (node : AgentTreeNodeProjection)
  | subagentProgress (childInstanceId : String) (taskId : ℕ) (message : String) (time : ℤ)
  | subagentCompleted (childInstanceId : String) (taskId : ℕ) (resultSummary : String)
      (completedAt : ℤ)
  | subagentFailed (childInstanceId : String) (taskId : ℕ) (error : String) (failedAt : ℤ)
  | agentRunUpserted (run : AgentRunSummary)
  | agentRunProgress (runId : String) (status : Option String) (progress : String) (time : ℤ)
  | agentRunTerminal (runId status terminalSummary : String)
      (resultCommit validationSummary : Option String) (attentionRequired : Bool)
      (completedAt : ℤ)
  | agentRunControlUpdated (runId controlStatus : String) (cancellationRequested : Bool)
      (time : ℤ)
  | agentRunTranscriptAdvanced (runId : String) (ordinal : ℤ) (recordingStopped : Bool)
      (time : ℤ)
  | worktreeUpserted (worktree : WorktreeSummaryProjection)
  | agentRunGroupUpserted (group : AgentRunGroupSummaryProjection)
  | convergenceUpserted (convergence : ConvergenceSummaryProjection)
  | fileChanged (change : FileChangeProjection) (time : ℤ)
  | runStarted (run : RunProjection)
  | runProgress (runId message : String) (time : ℤ)
  | runArtifactCreated (artifact : ArtifactHandleProjection)
  | runCompleted (runId status summary : String) (completedAt : ℤ)
  | runDenied (runId reason : String) (time : ℤ)
  | jobUpserted (job : JobProjection)
  | jobRemoved (jobId : String)
  | toolProgramSubmitted (programId jobId : String) (submittedAt : ℤ)
  | toolProgramTerminal (programId jobId status summary : String) (completedAt : ℤ)
  | toolProgramAdmitted (programId jobId : String) (admittedAt : ℤ)
  | toolProgramStarted (programId jobId : String) (attemptId : Option String) (startedAt : ℤ)
  | toolProgramProgress (programId jobId message : String) (callsCompleted : ℕ) (time : ℤ)
  | toolProgramWaitingForCall (programId jobId callId toolName : String) (time : ℤ)
  | toolProgramWaitingForJob (programId jobId dependsOnJobId : String) (time : ℤ)
  | toolProgramRetryBackoff (programId jobId : String) (attempt backoffMs : ℕ) (reason : String)
      (time : ℤ)
  | tokenUsageUpdated (inputTokens outputTokens : Option ℕ)
  | modelSelected (model : String) (time : ℤ)
  | agentSelected (agent : String) (time : ℤ)
  | shellRunUpserted (run : ShellRunProjection) (time : ℤ)
  | toolContractsUpdated (contracts : List ToolContractProjection) (time : ℤ)
  | pluginCatalogueUpdated (entries : List PluginCatalogueEntryProjection) (time : ℤ)
  | workPlanUpdated (plan : WorkPlanProjection) (time : ℤ)
  | testRunStarted (command : String) (time : ℤ)
  | testRunCompleted (status summary : String) (time : ℤ)
  | diagnostic (code message : String)
  | resyncRequired (fromEventSeq currentSeq : UInt64)
  | unknown (variantName notice : String)

structure ProjectionEnvelope where
  protocolVersion : ℕ
  eventSeq : ℕ
  timestampMs : ℤ
  sessionId : Option String
  turnId : Option String
  scope : ProjectionStreamScope
  payload : ProjectionEvent

/-- The explicit signal that the projection has to be rebuilt. -/
def ProjectionEvent.isResyncRequired : ProjectionEvent → Bool
  | .resyncRequired _ _ => true
  | _ => false

end Codegg.Projection
