import Codegg.Library.BoundedList
import Codegg.Library.TextLines
import Codegg.Projection.Dto

/-!
# The session snapshot and its bounded collections

A snapshot is the projection of one session at a sequence number. Each collection has its
own insertion: most replace the element with the same identity or append, dropping the
oldest element of a full collection; some merge with what they find.
-/
namespace Codegg.Projection

open Codegg.Library

structure ProjectionDiagnostic where
  code : String
  message : String
  atMs : ℤ
  sessionId : Option String := none
  turnId : Option String := none

structure SessionProjectionSnapshot where
  protocolVersion : ℕ
  eventSeq : ℕ
  generatedAtMs : ℤ
  primarySessionId : String
  projectId : String
  workspaceId : String
  primarySession : SessionSummaryProjection
  secondarySessions : List SessionSummaryProjection
  workspace : WorkspaceSummaryProjection
  activeTurn : Option TurnProjection
  subagents : List AgentTreeNodeProjection
  /-- newest first -/
  recentTurns : List TurnProjection
  runs : List RunProjection
  shellRuns : List ShellRunProjection
  toolContracts : List ToolContractProjection
  pluginCatalogue : List PluginCatalogueEntryProjection
  workPlan : Option WorkPlanProjection
  testState : Option TestStateProjection
  jobs : List JobProjection
  toolPrograms : List ToolProgramSummary
  agentRuns : List AgentRunSummary
  worktrees : List WorktreeSummaryProjection
  runGroups : List AgentRunGroupSummaryProjection
  convergences : List ConvergenceSummaryProjection
  transcriptWatermarks : List AgentRunTranscriptWatermarkProjection
  diagnostics : List ProjectionDiagnostic

/-- `s.trim().to_ascii_lowercase()`. -/
def trimmedLower (s : String) : String :=
  String.ofList ((((s.toList.dropWhile isWhitespace).reverse.dropWhile isWhitespace).reverse).map
    Char.toLower)

def terminalJobState (state : String) : Bool :=
  ["completed", "succeeded", "failed", "cancelled", "timed_out", "interrupted", "expired"].contains
    (trimmedLower state)

def jobStateRank (state : String) : ℕ :=
  let state := trimmedLower state
  if ["created", "scheduled"].contains state then 0
  else if ["queued", "blocked"].contains state then 1
  else if ["started", "running"].contains state then 2
  else if ["completed", "succeeded", "failed", "cancelled", "timed_out", "interrupted",
    "expired"].contains state then 3
  else 1

namespace JobProjection

/-- The two name different attempts. -/
def differentAttempt (slot job : JobProjection) : Bool :=
  match slot.activeAttemptId, job.activeAttemptId with
  | some old, some new => old != new
  | _, _ => false

def staleAttempt (slot job : JobProjection) : Bool :=
  differentAttempt slot job && job.updatedAt < slot.updatedAt

def newerAttempt (slot job : JobProjection) : Bool :=
  differentAttempt slot job && !staleAttempt slot job

def staleLifecycleHint (slot job : JobProjection) : Bool :=
  !newerAttempt slot job && jobStateRank job.state < jobStateRank slot.state

/-- The update comes too late for the recorded job and is dropped. -/
def ignores (slot job : JobProjection) : Bool :=
  (staleAttempt slot job ||
      (newerAttempt slot job && terminalJobState job.state && !terminalJobState slot.state)) ||
    (terminalJobState slot.state && !terminalJobState job.state && !newerAttempt slot job)

/-- What the update leaves empty keeps its recorded value. -/
def merge (slot job : JobProjection) : JobProjection :=
  let activeAttemptId :=
    if staleLifecycleHint slot job then slot.activeAttemptId else job.activeAttemptId
  { job with
    state := if staleLifecycleHint slot job then slot.state else job.state
    workspaceId := if job.workspaceId.isEmpty then slot.workspaceId else job.workspaceId
    kind := if job.kind.isEmpty then slot.kind else job.kind
    summary := if job.summary.isEmpty then slot.summary else job.summary
    sessionId := job.sessionId.or slot.sessionId
    turnId := job.turnId.or slot.turnId
    activeAttemptId := activeAttemptId.or slot.activeAttemptId
    errorClass := job.errorClass.or slot.errorClass }

end JobProjection

namespace SessionProjectionSnapshot

variable (s : SessionProjectionSnapshot)

/-- A snapshot whose collections are empty. -/
def empty (sessionId projectId workspaceId : String) : SessionProjectionSnapshot where
  protocolVersion := 1
  eventSeq := 0
  generatedAtMs := 0
  primarySessionId := sessionId
  projectId := projectId
  workspaceId := workspaceId
  primarySession := {
    sessionId := sessionId
    projectId := projectId
    workspaceId := workspaceId
    title := ""
    status := "idle"
    selectedModel := none
    selectedAgent := none
    hasActiveTurn := false
    pendingPermissionCount := 0
    pendingQuestionCount := 0
    inputTokens := none
    outputTokens := none
    activeSubagents := 0
    timeCreatedAt := none
    timeUpdatedAt := none
    recentSummary := none }
  secondarySessions := []
  workspace := {
    workspaceId := workspaceId
    canonicalRoot := ""
    displayName := ""
    createdAt := 0
    lastOpenedAt := 0
    archivedAt := none
    activeSessions := 0
    servicesActive := false
    activeLeases := 0
    configRevision := 0
    health := {} }
  activeTurn := none
  subagents := []
  recentTurns := []
  runs := []
  shellRuns := []
  toolContracts := []
  pluginCatalogue := []
  workPlan := none
  testState := none
  jobs := []
  toolPrograms := []
  agentRuns := []
  worktrees := []
  runGroups := []
  convergences := []
  transcriptWatermarks := []
  diagnostics := []

/-- A repeated start keeps the lineage of the running instance; a terminal instance only
gives way to a terminal one that is not older. -/
def replaceSubagent (node slot : AgentTreeNodeProjection) : AgentTreeNodeProjection :=
  if slot.status = .running then
    { node with
      originatingTurnId := slot.originatingTurnId
      taskId := slot.taskId
      createdAt := slot.createdAt }
  else if node.status ≠ .running ∧ slot.completedAt.getD 0 ≤ node.completedAt.getD 0 then node
  else slot

/-- There is no result when the collection is full of running instances. -/
def upsertSubagent (node : AgentTreeNodeProjection) : Option SessionProjectionSnapshot :=
  match updateFirst (fun item => item.childInstanceId == node.childInstanceId)
      (replaceSubagent node) s.subagents with
  | some subagents => some { s with subagents := subagents }
  | none =>
    if maxProjectionSessionSubagents ≤ s.subagents.length then
      if s.subagents.any fun item => item.status != .running then
        some { s with
          subagents := s.subagents.eraseP (fun item => item.status != .running) ++ [node] }
      else none
    else some { s with subagents := s.subagents ++ [node] }

def pushDiagnostic (diag : ProjectionDiagnostic) : SessionProjectionSnapshot :=
  { s with diagnostics := pushBounded maxProjectionDiagnostics s.diagnostics diag }

def pushRun (run : RunProjection) : SessionProjectionSnapshot :=
  { s with runs := pushBounded maxProjectionRuns s.runs run }

def upsertJob (job : JobProjection) : SessionProjectionSnapshot :=
  { s with
    jobs := upsert maxProjectionJobs (fun slot => slot.jobId == job.jobId)
      (fun slot => if slot.ignores job then slot else slot.merge job) s.jobs job }

def upsertShellRun (run : ShellRunProjection) : SessionProjectionSnapshot :=
  let run := run.normalise
  { s with
    shellRuns := upsert maxProjectionShellRuns (fun slot => slot.runId == run.runId)
      (fun _ => run) s.shellRuns run }

def setToolContracts (contracts : List ToolContractProjection) : SessionProjectionSnapshot :=
  { s with
    toolContracts := (contracts.map ToolContractProjection.normalise).take
      maxProjectionToolContracts }

def setPluginCatalogue (entries : List PluginCatalogueEntryProjection) :
    SessionProjectionSnapshot :=
  { s with
    pluginCatalogue := (entries.map PluginCatalogueEntryProjection.normalise).take
      maxProjectionPluginCatalogue }

def setWorkPlan (plan : WorkPlanProjection) : SessionProjectionSnapshot :=
  { s with workPlan := some { plan with items := plan.items.take maxProjectionWorkPlanItems } }

def setTestState (state : TestStateProjection) : SessionProjectionSnapshot :=
  { s with testState := some state }

def upsertToolProgram (program : ToolProgramSummary) : SessionProjectionSnapshot :=
  { s with
    toolPrograms := upsert maxProjectionToolPrograms
      (fun slot => slot.programId == program.programId) (fun _ => program) s.toolPrograms program }

/-- A summary without a transcript keeps the recorded one. -/
def upsertAgentRun (run : AgentRunSummary) : SessionProjectionSnapshot :=
  let run := run.normalise
  { s with
    agentRuns := upsert maxProjectionAgentRuns (fun slot => slot.runId == run.runId)
      (fun slot => { run with transcript := run.transcript.or slot.transcript }) s.agentRuns run }

def upsertTranscriptWatermark (watermark : AgentRunTranscriptWatermarkProjection) :
    SessionProjectionSnapshot :=
  { s with
    transcriptWatermarks := upsert maxProjectionTranscriptWatermarks
      (fun slot => slot.runId == watermark.runId)
      (fun slot => { slot with
        ordinal := if slot.ordinal < watermark.ordinal then watermark.ordinal else slot.ordinal
        recordingStopped := slot.recordingStopped || watermark.recordingStopped })
      s.transcriptWatermarks watermark }

def upsertWorktree (worktree : WorktreeSummaryProjection) : SessionProjectionSnapshot :=
  let worktree := worktree.normalise
  { s with
    worktrees := upsert maxProjectionWorktrees
      (fun slot => slot.worktreeId == worktree.worktreeId) (fun _ => worktree) s.worktrees
      worktree }

/-- A group without the mark of a refresh keeps the recorded claims and dependencies. -/
def upsertRunGroup (group : AgentRunGroupSummaryProjection) : SessionProjectionSnapshot :=
  let group := group.normalise
  { s with
    runGroups := upsert maxProjectionRunGroups (fun slot => slot.groupId == group.groupId)
      (fun slot =>
        if group.workstreamClaimsUpdatedAt.isNone then
          { group with
            workstreamClaims := slot.workstreamClaims
            workstreamDependencies := slot.workstreamDependencies
            workstreamClaimsUpdatedAt := slot.workstreamClaimsUpdatedAt }
        else group) s.runGroups group }

def upsertConvergence (convergence : ConvergenceSummaryProjection) : SessionProjectionSnapshot :=
  let convergence := convergence.normalise
  { s with
    convergences := upsert maxProjectionConvergences
      (fun slot => slot.convergenceId == convergence.convergenceId) (fun _ => convergence)
      s.convergences convergence }

def upsertSecondary (summary : SessionSummaryProjection) : SessionProjectionSnapshot :=
  { s with
    secondarySessions := upsert maxProjectionSessions
      (fun slot => slot.sessionId == summary.sessionId) (fun _ => summary) s.secondarySessions
      summary }

def pushRecentTurn (turn : TurnProjection) : SessionProjectionSnapshot :=
  { s with recentTurns := (turn :: s.recentTurns).take maxProjectionRecentTools }

end SessionProjectionSnapshot

end Codegg.Projection
