import Codegg.Projection.Bounds
import Codegg.Projection.Reducer

/-!
# The bounds of a reduced snapshot

Every collection of a snapshot has a cap and every text a byte limit. The reducer keeps
them where it normalises what it stores. Where it stores a value as it comes, appends to a
stored text or cuts a text to another limit than that of its field, the value itself has to
fit: `Fitting` says which, for each payload in the state it finds.
-/
namespace Codegg.Projection

open Codegg.Library JobProjection AgentRunGroupSummaryProjection SessionProjectionSnapshot

structure ProjectionDiagnostic.Bounded (d : ProjectionDiagnostic) : Prop where
  code : Text d.code
  message : Text d.message
  sessionId : TextOpt d.sessionId
  turnId : TextOpt d.turnId

structure SessionProjectionSnapshot.Bounded (s : SessionProjectionSnapshot) : Prop where
  primarySessionId : Text s.primarySessionId
  projectId : Text s.projectId
  workspaceId : Text s.workspaceId
  primarySession : s.primarySession.Bounded
  secondarySessions : Within maxProjectionSessions SessionSummaryProjection.Bounded
    s.secondarySessions
  workspace : s.workspace.Bounded
  activeTurn : ∀ turn, s.activeTurn = some turn → turn.Bounded
  subagents : Within maxProjectionSessionSubagents AgentTreeNodeProjection.Bounded s.subagents
  recentTurns : Within maxProjectionRecentTools TurnProjection.Bounded s.recentTurns
  runs : Within maxProjectionRuns RunProjection.Bounded s.runs
  shellRuns : Within maxProjectionShellRuns ShellRunProjection.Bounded s.shellRuns
  toolContracts : Within maxProjectionToolContracts ToolContractProjection.Bounded s.toolContracts
  pluginCatalogue : Within maxProjectionPluginCatalogue PluginCatalogueEntryProjection.Bounded
    s.pluginCatalogue
  workPlan : ∀ plan, s.workPlan = some plan → plan.Bounded
  testState : ∀ state, s.testState = some state → state.Bounded
  jobs : Within maxProjectionJobs JobProjection.Bounded s.jobs
  toolPrograms : Within maxProjectionToolPrograms ToolProgramSummary.Bounded s.toolPrograms
  agentRuns : Within maxProjectionAgentRuns AgentRunSummary.Bounded s.agentRuns
  worktrees : Within maxProjectionWorktrees WorktreeSummaryProjection.Bounded s.worktrees
  runGroups : Within maxProjectionRunGroups AgentRunGroupSummaryProjection.Bounded s.runGroups
  convergences : Within maxProjectionConvergences ConvergenceSummaryProjection.Bounded
    s.convergences
  transcriptWatermarks : Within maxProjectionTranscriptWatermarks
    (fun w : AgentRunTranscriptWatermarkProjection => Text w.runId) s.transcriptWatermarks
  diagnostics : Within maxProjectionDiagnostics ProjectionDiagnostic.Bounded s.diagnostics

theorem text_blank : Text "" := by decide

theorem text_idle : Text "idle" := by decide

theorem text_running : Text "running" := by decide

theorem text_unknownVariant : Text "unknown_variant" := by decide

theorem SessionProjectionSnapshot.bounded_empty {sessionId projectId workspaceId : String}
    (hsession : Text sessionId) (hproject : Text projectId) (hworkspace : Text workspaceId) :
    (empty sessionId projectId workspaceId).Bounded where
  primarySessionId := hsession
  projectId := hproject
  workspaceId := hworkspace
  primarySession := ⟨hsession, hproject, hworkspace, text_blank, text_idle, fitsOpt_none _,
    fitsOpt_none _, fitsOpt_none _⟩
  secondarySessions := .nil
  workspace := ⟨hworkspace, text_blank, text_blank, text_blank, text_blank, text_blank,
    text_blank, text_blank, by
      intro d hd
      cases hd⟩
  activeTurn _ h := by cases h
  subagents := .nil
  recentTurns := .nil
  runs := .nil
  shellRuns := .nil
  toolContracts := .nil
  pluginCatalogue := .nil
  workPlan _ h := by cases h
  testState _ h := by cases h
  jobs := .nil
  toolPrograms := .nil
  agentRuns := .nil
  worktrees := .nil
  runGroups := .nil
  convergences := .nil
  transcriptWatermarks := .nil
  diagnostics := .nil

variable {code message summary toolId status childInstanceId runId programId jobId : String}
  {f : ToolProgramSummary → ToolProgramSummary} {completedAt time : ℤ}
  {node : AgentTreeNodeProjection} {taskId : ℕ}

namespace ProjectionReducer

section Conditions

variable (s : SessionProjectionSnapshot) (input : ReducerEventInput)

/-- The identifier a diagnostic takes from the input; the session id is in scope. -/
def DiagnosticFits : Prop := TextOpt input.turnId

/-- A condition on the active turn; without one a diagnostic is recorded. -/
def OnActive (f : TurnProjection → Prop) : Prop :=
  match s.activeTurn with
  | none => DiagnosticFits input
  | some turn => f turn

/-- A condition on the record an input names; without one a diagnostic is recorded. -/
def OnFound {α : Type} (l : List α) (p : α → Bool) (f : α → Prop) : Prop :=
  match l.find? p with
  | none => DiagnosticFits input
  | some x => f x

/-- A running node that a terminal event names takes the summary cut to the limit of a text,
not to that of a summary. -/
def TerminalFits (childInstanceId : String) (taskId : ℕ) (summary : String) : Prop :=
  (∀ node, childInstanceId.isEmpty = false →
      (s.subagents.find? fun n => n.childInstanceId == childInstanceId) = some node →
      node.status = .running → Summary (truncateStr summary maxProjectionStringBytes)) ∧
  (∀ turn, s.activeTurn = some turn ∨ turn ∈ s.recentTurns → ∀ node,
      turn.agentTree.find? (namesNode childInstanceId taskId) = some node →
      node.status = .running → Summary (truncateStr summary maxProjectionStringBytes)) ∧
  ((childInstanceId.isEmpty = true ∨
      (s.subagents.find? fun n => n.childInstanceId == childInstanceId) = none) →
    (∀ turn, s.activeTurn = some turn ∨ turn ∈ s.recentTurns →
      turn.agentTree.find? (namesNode childInstanceId taskId) = none) → DiagnosticFits input)

/-- What a payload stores uncut, appends, or cuts to another limit fits. -/
def PayloadFits : Prop :=
  match input.payload with
  | .sessionActivated summary => summary.IdsFit
  | .turnStarted turn => turn.RestFits
  | .messageAppended message => OnActive s input fun _ => message.IdsFit
  | .reasoningAppended messageId delta => OnActive s input fun turn =>
      match turn.messages.find? fun m => m.messageId == messageId with
      | some m => Text (m.text ++ truncateStr delta maxProjectionStringBytes)
      | none => Text messageId
  | .toolStarted tool => OnActive s input fun _ => tool.RestFits
  | .toolCompleted toolId output _ _ _ => OnActive s input fun turn =>
      match turn.tools.find? fun t => t.toolId == toolId with
      | some _ => (boundOutput output).Bounded
      | none => Text toolId ∧ output.RestFits
  | .toolFailed toolId error _ => OnActive s input fun turn =>
      match turn.tools.find? fun t => t.toolId == toolId with
      | some _ => (failureSummary error).Bounded
      | none => Text toolId
  | .permissionPending permission => OnActive s input fun _ => Text permission.permissionId
  | .permissionResolved _ _ _ => OnActive s input fun _ => True
  | .questionPending question => OnActive s input fun _ => Text question.questionId
  | .questionResolved _ _ _ => OnActive s input fun _ => True
  | .lspDiagnosticsUpdated => DiagnosticFits input
  | .turnCompleted turnId _ _ _ _ _ _ _ =>
      OnActive s input fun turn => turn.turnId ≠ turnId → DiagnosticFits input
  | .turnFailed turnId _ _ =>
      OnActive s input fun turn => turn.turnId ≠ turnId → DiagnosticFits input
  | .subagentStarted node => node.normalise.childInstanceId.isEmpty = false →
      s.upsertSubagent node.normalise = none → DiagnosticFits input
  | .subagentProgress childInstanceId taskId _ _ =>
      (childInstanceId.isEmpty = true ∨
        (s.subagents.find? fun n => n.childInstanceId == childInstanceId) = none) →
      OnActive s input fun turn =>
        turn.agentTree.find? (fun n => n.taskId == taskId && n.childInstanceId.isEmpty) = none →
          DiagnosticFits input
  | .subagentCompleted childInstanceId taskId resultSummary _ =>
      TerminalFits s input childInstanceId taskId resultSummary
  | .subagentFailed childInstanceId taskId error _ =>
      TerminalFits s input childInstanceId taskId error
  | .agentRunUpserted run => TextOpt run.worktreeId
  | .agentRunProgress runId _ progress _ => OnFound input s.agentRuns (fun r => r.runId == runId)
      fun _ => Summary (truncateStr progress maxProjectionStringBytes)
  | .agentRunControlUpdated runId _ _ _ =>
      OnFound input s.agentRuns (fun r => r.runId == runId) fun _ => True
  | .agentRunTranscriptAdvanced runId _ _ _ =>
      (s.transcriptWatermarks.find? fun w => w.runId == runId) = none → Text runId
  | .agentRunGroupUpserted group =>
      group.workstreamClaimsUpdatedAt.isSome = true ∨
        (s.runGroups.find? fun g => g.groupId == group.normalise.groupId) = none →
      group.ClaimsFit
  | .fileChanged change time => Summary (truncateStr
      (recentWithFile (s.primarySession.recentSummary.getD "") change time)
      maxProjectionStringBytes)
  | .runStarted run => Text run.runId ∧ TextOpt run.jobId
  | .runProgress runId message _ => OnFound input s.runs (fun r => r.runId == runId)
      fun _ => Summary (truncateStr message maxProjectionStringBytes)
  | .runCompleted runId _ _ _ => OnFound input s.runs (fun r => r.runId == runId) fun _ => True
  | .runDenied runId reason _ => OnFound input s.runs (fun r => r.runId == runId)
      fun _ => Summary (truncateStr reason maxProjectionStringBytes)
  | .jobUpserted job =>
      (∀ slot, (s.jobs.find? fun j => j.jobId == job.normalise.jobId) = some slot →
        slot.ignores job.normalise = false) → job.IdsFit
  | .toolProgramSubmitted programId jobId _ => Text (programMessage programId jobId)
  | .toolProgramTerminal programId jobId status summary _ =>
      Text (terminalMessage programId jobId status summary)
  | .toolProgramAdmitted programId jobId _ => Text (programMessage programId jobId)
  | .toolProgramStarted programId jobId _ _ => Text (programMessage programId jobId)
  | .toolProgramProgress programId _ _ _ _ =>
      OnFound input s.toolPrograms (fun p => p.programId == programId) fun _ => True
  | .toolProgramWaitingForCall programId _ _ _ _ =>
      OnFound input s.toolPrograms (fun p => p.programId == programId) fun _ => True
  | .toolProgramWaitingForJob programId _ _ _ =>
      OnFound input s.toolPrograms (fun p => p.programId == programId) fun _ => True
  | .toolProgramRetryBackoff programId _ _ _ _ _ =>
      OnFound input s.toolPrograms (fun p => p.programId == programId) fun _ => True
  | .shellRunUpserted run _ => Text run.runId
  | .workPlanUpdated plan _ => plan.TextsFit
  | .testRunStarted command _ => Text command
  | .testRunCompleted status summary _ => Text status ∧ Text summary
  | .diagnostic _ _ => DiagnosticFits input
  | .unknown variantName notice => Text (unknownMessage variantName notice) ∧ DiagnosticFits input
  | _ => True

/-- A foreign input's diagnostic fits, and so does what an input that takes effect stores. -/
def Fitting (debug : Option String → String) (config : ReducerConfig) : Prop :=
  versionSupported config input.protocolVersion = true →
    (checkScope s input config = false →
      Text (scopeMessage debug input.sessionId s.primarySessionId)) ∧
    (checkScope s input config = true → s.eventSeq < input.eventSeq → PayloadFits s input)

end Conditions

variable {s : SessionProjectionSnapshot} {input : ReducerEventInput} {turn : TurnProjection}

/-!
## What each payload keeps
-/

section Payloads

variable (h : s.Bounded)

include h

theorem Bounded.pushDiagnostic {d : ProjectionDiagnostic} (hd : d.Bounded) :
    (s.pushDiagnostic d).Bounded :=
  { h with diagnostics := h.diagnostics.push hd (by decide) }

theorem Bounded.recordDiagnostic (hsession : TextOpt input.sessionId)
    (hturn : DiagnosticFits input) (hcode : Text code) (hmessage : Text message) :
    (recordDiagnostic s input code message).2.Bounded :=
  Bounded.pushDiagnostic h ⟨hcode, hmessage, hsession, hturn⟩

theorem Bounded.setActive (hturn : turn.Bounded) :
    { s with activeTurn := some turn }.Bounded :=
  { h with activeTurn := fun t ht => by cases ht; exact hturn }

theorem Bounded.onActiveTurn (hsession : TextOpt input.sessionId)
    (hcode : Text code) (hmessage : Text message) {P : TurnProjection → Prop}
    (hfits : OnActive s input P) {f : TurnProjection → Reduction}
    (hf : ∀ turn, turn.Bounded → P turn → (f turn).2.Bounded) :
    (onActiveTurn s input code message f).2.Bounded := by
  cases hactive : s.activeTurn with
  | none =>
    simp only [OnActive, hactive] at hfits
    simp only [ProjectionReducer.onActiveTurn, hactive]
    exact Bounded.recordDiagnostic h hsession hfits hcode hmessage
  | some turn =>
    simp only [OnActive, hactive] at hfits
    simp only [ProjectionReducer.onActiveTurn, hactive]
    exact hf turn (h.activeTurn turn hactive) hfits

theorem Bounded.pushRecentTurn (hturn : turn.Bounded) :
    (s.pushRecentTurn turn).Bounded where
  __ := h
  recentTurns := by
    refine Within.take fun x hx => ?_
    rcases List.mem_cons.mp (List.mem_of_mem_take hx) with rfl | hx
    · exact hturn
    · exact h.recentTurns.all x hx

theorem bounded_sessionActivated {summary : SessionSummaryProjection}
    (hids : summary.IdsFit) : (sessionActivated s summary).2.Bounded := by
  have hsummary := SessionSummaryProjection.bounded_normalise hids
  rw [sessionActivated]
  split
  · exact { h with primarySession := hsummary }
  · exact { h with
      secondarySessions := h.secondarySessions.upsert (by decide) (fun _ _ _ => hsummary)
        fun _ => hsummary }

theorem bounded_turnStarted (hturn : turn.RestFits) :
    (turnStarted s input turn).2.Bounded := by
  have hnew := TurnProjection.bounded_normalise hturn
  have hset : ∀ s' : SessionProjectionSnapshot, s'.Bounded →
      { s' with
        primarySession := { s'.primarySession with
          hasActiveTurn := true
          timeUpdatedAt := some input.timestampMs }
        activeTurn := some turn.normalise }.Bounded := by
    intro s' h'
    exact { h' with
      primarySession := { h'.primarySession with }
      activeTurn := fun t ht => by cases ht; exact hnew }
  rw [turnStarted]
  cases hactive : s.activeTurn with
  | none => exact hset s h
  | some prev => exact hset _ (Bounded.pushRecentTurn h (h.activeTurn prev hactive))

theorem bounded_messageAppended (hsession : TextOpt input.sessionId)
    {message : MessageProjection} (hfits : OnActive s input fun _ => message.IdsFit) :
    (messageAppended s input message).2.Bounded := by
  refine Bounded.onActiveTurn h hsession (by decide) (by decide) hfits
    fun turn hturn hids => Bounded.setActive h { hturn with messages := ?_ }
  exact hturn.messages.push (MessageProjection.bounded_normalise hids) (by decide)

theorem bounded_reasoningAppended (hsession : TextOpt input.sessionId)
    {messageId delta : String} (hfits : OnActive s input fun turn =>
      match turn.messages.find? fun m => m.messageId == messageId with
      | some m => Text (m.text ++ truncateStr delta maxProjectionStringBytes)
      | none => Text messageId) :
    (reasoningAppended s input messageId delta).2.Bounded := by
  refine Bounded.onActiveTurn h hsession (by decide) (by decide) hfits
    fun turn hturn hfits => ?_
  dsimp only
  split
  · rename_i messages hup
    refine Bounded.setActive h { hturn with messages := hturn.messages.update hup ?_ }
    intro m hm hbounded
    rw [hm] at hfits
    exact { hbounded with text := hfits }
  · rename_i hup
    rw [updateFirst_eq_none_iff.mp hup] at hfits
    refine Bounded.setActive h { hturn with messages := hturn.messages.push ?_ (by decide) }
    exact MessageProjection.bounded_normalise ⟨hfits, hturn.turnId, fitsOpt_none _⟩

theorem bounded_toolStarted (hsession : TextOpt input.sessionId)
    {tool : ToolProjection} (hfits : OnActive s input fun _ => tool.RestFits) :
    (toolStarted s input tool).2.Bounded := by
  refine Bounded.onActiveTurn h hsession (by decide) (by decide) hfits
    fun turn hturn hrest => Bounded.setActive h { hturn with tools := ?_ }
  exact hturn.tools.push (ToolProjection.bounded_normalise hrest) (by decide)

omit h in
theorem bounded_reconciledTool {status : ToolStatus} {output : ToolOutputProjection}
    {durationMs : Option ℕ} (hid : Text toolId) (houtput : output.RestFits) :
    (reconciledTool toolId status output completedAt durationMs).Bounded :=
  ToolProjection.bounded_normalise ⟨hid, trivial, houtput⟩

theorem bounded_toolCompleted (hsession : TextOpt input.sessionId)
    {output : ToolOutputProjection} {success : Bool} {durationMs : ℕ}
    (hfits : OnActive s input fun turn =>
      match turn.tools.find? fun t => t.toolId == toolId with
      | some _ => (boundOutput output).Bounded
      | none => Text toolId ∧ output.RestFits) :
    (toolCompleted s input toolId output success durationMs completedAt).2.Bounded := by
  refine Bounded.onActiveTurn h hsession (by decide) (by decide) hfits
    fun turn hturn hfits => ?_
  split
  · rename_i tools hup
    refine Bounded.setActive h { hturn with tools := hturn.tools.update hup ?_ }
    intro t ht hbounded
    rw [ht] at hfits
    exact { hbounded with output := hfits }
  · rename_i hup
    rw [updateFirst_eq_none_iff.mp hup] at hfits
    have houtput : (boundOutput output).RestFits := by
      cases output <;> exact hfits.2
    exact Bounded.setActive h { hturn with
      tools := hturn.tools.push (bounded_reconciledTool hfits.1 houtput) (by decide) }

theorem bounded_toolFailed (hsession : TextOpt input.sessionId) {error : String}
    (hfits : OnActive s input fun turn =>
      match turn.tools.find? fun t => t.toolId == toolId with
      | some _ => (failureSummary error).Bounded
      | none => Text toolId) :
    (toolFailed s input toolId error completedAt).2.Bounded := by
  refine Bounded.onActiveTurn h hsession (by decide) (by decide) hfits
    fun turn hturn hfits => ?_
  split
  · rename_i tools hup
    refine Bounded.setActive h { hturn with tools := hturn.tools.update hup ?_ }
    intro t ht hbounded
    rw [ht] at hfits
    exact { hbounded with output := hfits }
  · rename_i hup
    rw [updateFirst_eq_none_iff.mp hup] at hfits
    exact Bounded.setActive h { hturn with
      tools := hturn.tools.push (bounded_reconciledTool hfits trivial) (by decide) }

theorem Bounded.setPermissions (hturn : turn.Bounded)
    {permissions : List PermissionProjection} {status : TurnStatus}
    (hpermissions : Within maxProjectionPendingPermissions PermissionProjection.Bounded
      permissions) : (setPermissions s turn permissions status).Bounded where
  __ := h
  primarySession := { h.primarySession with }
  activeTurn t ht := by
    cases ht
    exact { hturn with pendingPermissions := hpermissions }

theorem Bounded.setQuestions (hturn : turn.Bounded)
    {questions : List QuestionProjection} {status : TurnStatus}
    (hquestions : Within maxProjectionPendingQuestions QuestionProjection.Bounded questions) :
    (setQuestions s turn questions status).Bounded where
  __ := h
  primarySession := { h.primarySession with }
  activeTurn t ht := by
    cases ht
    exact { hturn with pendingQuestions := hquestions }

omit h in
/-- A change of a record in place that keeps its bounds, or none. -/
theorem within_updateFirst_getD {α : Type} {cap : ℕ} {P : α → Prop} {l : List α} {p : α → Bool}
    {f : α → α} (h : Within cap P l) (hf : ∀ x, P x → P (f x)) :
    Within cap P ((updateFirst p f l).getD l) := by
  cases hup : updateFirst p f l with
  | none => exact h
  | some l' => exact h.update hup fun x _ => hf x

theorem bounded_permissionPending (hsession : TextOpt input.sessionId)
    {permission : PermissionProjection}
    (hfits : OnActive s input fun _ => Text permission.permissionId) :
    (permissionPending s input permission).2.Bounded :=
  Bounded.onActiveTurn h hsession (by decide) (by decide) hfits
    fun _ hturn hid => Bounded.setPermissions h hturn
      (hturn.pendingPermissions.push (PermissionProjection.bounded_normalise hid) (by decide))

theorem bounded_permissionResolved (hsession : TextOpt input.sessionId)
    {permissionId : String} {status : PermissionStatus} {resolvedAt : ℤ}
    (hfits : OnActive s input fun _ => True) :
    (permissionResolved s input permissionId status resolvedAt).2.Bounded :=
  Bounded.onActiveTurn h hsession (by decide) (by decide) hfits
    fun _ hturn _ => Bounded.setPermissions h hturn
      (within_updateFirst_getD hturn.pendingPermissions fun _ hp => { hp with })

theorem bounded_questionPending (hsession : TextOpt input.sessionId)
    {question : QuestionProjection}
    (hfits : OnActive s input fun _ => Text question.questionId) :
    (questionPending s input question).2.Bounded :=
  Bounded.onActiveTurn h hsession (by decide) (by decide) hfits
    fun _ hturn hid => Bounded.setQuestions h hturn
      (hturn.pendingQuestions.push (QuestionProjection.bounded_normalise hid) (by decide))

theorem bounded_questionResolved (hsession : TextOpt input.sessionId)
    {questionId : String} {status : PermissionStatus} {resolvedAt : ℤ}
    (hfits : OnActive s input fun _ => True) :
    (questionResolved s input questionId status resolvedAt).2.Bounded :=
  Bounded.onActiveTurn h hsession (by decide) (by decide) hfits
    fun _ hturn _ => Bounded.setQuestions h hturn
      (within_updateFirst_getD hturn.pendingQuestions fun _ hq => { hq with })

theorem Bounded.closeTurn (hturn : turn.Bounded) (time : ℤ) :
    (closeTurn s turn time).Bounded := by
  have hclosed : { s with
      primarySession := { s.primarySession with
        hasActiveTurn := false
        timeUpdatedAt := some time }
      activeTurn := none : SessionProjectionSnapshot }.Bounded :=
    { h with
      primarySession := { h.primarySession with }
      activeTurn := fun t ht => by cases ht }
  exact Bounded.pushRecentTurn hclosed hturn

theorem bounded_turnCompleted (hsession : TextOpt input.sessionId)
    {turnId stopReason : String}
    {inputTokens outputTokens cachedTokens reasoningTokens contextLimit : Option ℕ}
    (hfits : OnActive s input fun turn => turn.turnId ≠ turnId → DiagnosticFits input) :
    (turnCompleted s input turnId stopReason completedAt inputTokens outputTokens cachedTokens
      reasoningTokens contextLimit).2.Bounded := by
  refine Bounded.onActiveTurn h hsession (by decide) (by decide) hfits
    fun turn hturn hother => ?_
  split
  · rename_i hne
    exact Bounded.recordDiagnostic h hsession (hother hne) (by decide) (by decide)
  · refine Bounded.closeTurn h ?_ completedAt
    exact { hturn with stopReason := (fitsOpt_some _ _).mpr (fits_clipStr _ _) }

theorem bounded_turnFailed (hsession : TextOpt input.sessionId) {turnId : String}
    {failedAt : ℤ}
    (hfits : OnActive s input fun turn => turn.turnId ≠ turnId → DiagnosticFits input) :
    (turnFailed s input turnId message failedAt).2.Bounded := by
  refine Bounded.onActiveTurn h hsession (by decide) (by decide) hfits
    fun turn hturn hother => ?_
  split
  · rename_i hne
    exact Bounded.recordDiagnostic h hsession (hother hne) (by decide) (by decide)
  · refine Bounded.closeTurn h ?_ failedAt
    exact { hturn with error := (fitsOpt_some _ _).mpr (fits_clipStr _ _) }

/-!
## Children
-/

theorem Bounded.countRunningSubagents : (countRunningSubagents s).Bounded :=
  { h with primarySession := { h.primarySession with } }

theorem Bounded.upsertSubagent (hnode : node.Bounded)
    {s' : SessionProjectionSnapshot} (hup : s.upsertSubagent node = some s') : s'.Bounded := by
  rw [SessionProjectionSnapshot.upsertSubagent] at hup
  split at hup
  · rename_i subagents hsubagents
    cases hup
    refine { h with subagents := h.subagents.update hsubagents fun slot _ hslot => ?_ }
    rw [replaceSubagent]
    split
    · exact { hnode with originatingTurnId := hslot.originatingTurnId }
    · split
      · exact hnode
      · exact hslot
  · split at hup
    · split at hup
      · rename_i hany
        cases hup
        have hcap := h.subagents.length_le
        refine { h with subagents := ⟨?_, fun x hx => ?_⟩ }
        · rw [List.length_append, List.length_eraseP, if_pos hany, List.length_singleton]
          have hsome : 0 < s.subagents.length := by
            obtain ⟨x, hx, -⟩ := List.any_eq_true.mp hany
            exact List.length_pos_of_mem hx
          omega
        · rcases List.mem_append.mp hx with hx | hx
          · exact h.subagents.all x (List.mem_of_mem_eraseP hx)
          · exact List.mem_singleton.mp hx ▸ hnode
      · cases hup
    · cases hup
      refine { h with subagents := ⟨?_, fun x hx => ?_⟩ }
      · rw [List.length_append, List.length_singleton]
        omega
      · rcases List.mem_append.mp hx with hx | hx
        · exact h.subagents.all x hx
        · exact List.mem_singleton.mp hx ▸ hnode

omit h in
theorem bounded_attachToTurn (hnode : node.Bounded) (hturn : turn.Bounded) :
    (attachToTurn node turn).Bounded := by
  rw [attachToTurn]
  split
  · exact { hturn with
      agentTree := hturn.agentTree.replace hnode (by decide) }
  · exact hturn

theorem Bounded.mapActive {f : TurnProjection → TurnProjection}
    (hf : ∀ turn : TurnProjection, turn.Bounded → (f turn).Bounded) :
    { s with activeTurn := s.activeTurn.map f }.Bounded where
  __ := h
  activeTurn t ht := by
    obtain ⟨turn, hactive, rfl⟩ := Option.map_eq_some_iff.mp ht
    exact hf turn (h.activeTurn turn hactive)

theorem bounded_subagentStarted (hsession : TextOpt input.sessionId)
    (hfits : node.normalise.childInstanceId.isEmpty = false →
      s.upsertSubagent node.normalise = none → DiagnosticFits input) :
    (subagentStarted s input node).2.Bounded := by
  have hnode := AgentTreeNodeProjection.bounded_normalise node
  rw [subagentStarted]
  split
  · exact Bounded.mapActive h fun turn hturn => { hturn with
      agentTree := hturn.agentTree.push hnode (by decide) }
  · rename_i hid
    split
    · rename_i hfull
      exact Bounded.recordDiagnostic h hsession (hfits (by simpa using hid) hfull)
        (by decide) (by decide)
    · rename_i s' hup
      have hs' := Bounded.upsertSubagent h hnode hup
      exact Bounded.countRunningSubagents
        (Bounded.mapActive hs' fun turn hturn => bounded_attachToTurn hnode hturn)

theorem bounded_subagentProgress (hsession : TextOpt input.sessionId)
    (hfits : (childInstanceId.isEmpty = true ∨
        (s.subagents.find? fun n => n.childInstanceId == childInstanceId) = none) →
      OnActive s input fun turn =>
        turn.agentTree.find? (fun n => n.taskId == taskId && n.childInstanceId.isEmpty) = none →
          DiagnosticFits input) :
    (subagentProgress s input childInstanceId taskId message).2.Bounded := by
  have hdescribe : ∀ n : AgentTreeNodeProjection, n.Bounded →
      { n with description := truncateStr message maxProjectionStringBytes }.Bounded :=
    fun n hn => { hn with description := fits_truncateStr _ _ }
  rw [subagentProgress]
  split
  · rename_i subagents hup
    split at hup
    · cases hup
    · refine { h with subagents := h.subagents.update hup fun n _ hn => ?_ }
      split
      · exact hdescribe n hn
      · exact hn
  · rename_i hup
    have hunknown : childInstanceId.isEmpty = true ∨
        (s.subagents.find? fun n => n.childInstanceId == childInstanceId) = none := by
      split at hup
      · rename_i hempty
        exact .inl hempty
      · exact .inr (updateFirst_eq_none_iff.mp hup)
    have hfits := hfits hunknown
    rw [OnActive] at hfits
    cases hactive : s.activeTurn with
    | none =>
      rw [hactive] at hfits
      exact Bounded.recordDiagnostic h hsession hfits (by decide) (by decide)
    | some turn =>
      rw [hactive] at hfits
      have hturn := h.activeTurn turn hactive
      dsimp only
      split
      · rename_i tree htree
        exact Bounded.setActive h { hturn with
          agentTree := hturn.agentTree.update htree fun n _ hn => hdescribe n hn }
      · rename_i htree
        exact Bounded.recordDiagnostic h hsession (hfits (updateFirst_eq_none_iff.mp htree))
          (by decide) (by decide)

omit h in
theorem bounded_setSubagentTerminal {status : AgentTreeStatus} (hnode : node.Bounded)
    (hfits : node.status = .running → Summary (truncateStr summary maxProjectionStringBytes)) :
    (setSubagentTerminal status summary time node).Bounded := by
  rw [setSubagentTerminal]
  split
  · rename_i hrunning
    exact { hnode with resultSummary := (fitsOpt_some _ _).mpr (hfits hrunning) }
  · exact hnode

omit h in
theorem bounded_updateTree {f : AgentTreeNodeProjection → AgentTreeNodeProjection}
    (hturn : turn.Bounded)
    (hf : ∀ node, turn.agentTree.find? (namesNode childInstanceId taskId) = some node →
      node.Bounded → (f node).Bounded) :
    ((updateTree childInstanceId taskId f turn).getD turn).Bounded := by
  rw [updateTree]
  cases hup : updateFirst (namesNode childInstanceId taskId) f turn.agentTree with
  | none => exact hturn
  | some tree => exact { hturn with agentTree := hturn.agentTree.update hup hf }

omit h in
theorem updateTree_isSome_eq_false {f : AgentTreeNodeProjection → AgentTreeNodeProjection}
    (h : (updateTree childInstanceId taskId f turn).isSome = false) :
    turn.agentTree.find? (namesNode childInstanceId taskId) = none := by
  rw [updateTree] at h
  exact updateFirst_eq_none_iff.mp (by simpa using h)

theorem bounded_subagentTerminal (hsession : TextOpt input.sessionId)
    {status : AgentTreeStatus} (hfits : TerminalFits s input childInstanceId taskId summary)
    (hcode : Text code) (hmessage : Text message) :
    (subagentTerminal s input childInstanceId taskId status summary time code message).2.Bounded := by
  obtain ⟨hchildren, htrees, hunknown⟩ := hfits
  have hupdated : (updateSubagentTerminal s childInstanceId taskId
      (setSubagentTerminal status summary time)).2.Bounded := by
    refine { h with activeTurn := ?_, subagents := ?_, recentTurns := ?_ }
    · intro t ht
      obtain ⟨turn, hactive, rfl⟩ := Option.map_eq_some_iff.mp ht
      exact bounded_updateTree (h.activeTurn turn hactive) fun node hnode hbounded =>
        bounded_setSubagentTerminal hbounded (htrees turn (.inl hactive) node hnode)
    · dsimp only [updateSubagentTerminal]
      split
      · exact h.subagents
      · rename_i hid
        cases hup : updateFirst (fun n => n.childInstanceId == childInstanceId)
            (setSubagentTerminal status summary time) s.subagents with
        | none => exact h.subagents
        | some subagents =>
          exact h.subagents.update hup fun node hnode hbounded =>
            bounded_setSubagentTerminal hbounded (hchildren node (by simpa using hid) hnode)
    · exact h.recentTurns.map fun turn hturn hbounded =>
        bounded_updateTree hbounded fun node hnode hb =>
          bounded_setSubagentTerminal hb (htrees turn (.inr hturn) node hnode)
  rw [subagentTerminal]
  split
  · exact Bounded.countRunningSubagents hupdated
  · rename_i hnone
    simp only [updateSubagentTerminal, Bool.or_eq_true, not_or, Bool.not_eq_true] at hnone
    obtain ⟨⟨hnochild, hnoactive⟩, hnorecent⟩ := hnone
    refine Bounded.recordDiagnostic hupdated hsession (hunknown ?_ ?_) hcode hmessage
    · split at hnochild
      · rename_i hid
        exact .inl hid
      · exact .inr (updateFirst_eq_none_iff.mp (by simpa using hnochild))
    · rintro turn (hactive | hrecent)
      · rw [hactive] at hnoactive
        exact updateTree_isSome_eq_false hnoactive
      · have hall := List.any_eq_false.mp hnorecent turn hrecent
        exact updateTree_isSome_eq_false (by simpa using hall)

/-!
## Runs and programs
-/

theorem Bounded.countLiveRuns : (countLiveRuns s).Bounded :=
  { h with primarySession := { h.primarySession with } }

theorem Bounded.touchSession (time : ℤ) : (touchSession s time).Bounded :=
  { h with primarySession := { h.primarySession with } }

theorem Bounded.upsertAgentRun {run : AgentRunSummary}
    (hworktree : TextOpt run.worktreeId) : (s.upsertAgentRun run).Bounded := by
  have hrun := AgentRunSummary.bounded_normalise hworktree
  refine { h with
    agentRuns := h.agentRuns.upsert (by decide) (fun slot _ hslot => ?_) fun _ => hrun }
  refine { hrun with transcript := fun t ht => ?_ }
  cases hnew : run.normalise.transcript with
  | none =>
    rw [hnew] at ht
    exact hslot.transcript t ht
  | some t' =>
    exact hrun.transcript t (hnew ▸ ht)

theorem bounded_agentRunProgress (hsession : TextOpt input.sessionId)
    {progress : String} {status : Option String}
    (hfits : OnFound input s.agentRuns (fun r => r.runId == runId)
      fun _ => Summary (truncateStr progress maxProjectionStringBytes)) :
    (agentRunProgress s input runId status progress time).2.Bounded := by
  rw [agentRunProgress]
  split
  · rename_i runs hup
    refine { h with agentRuns := h.agentRuns.update hup fun r hr hbounded => ?_ }
    rw [OnFound, hr] at hfits
    refine { hbounded with status := ?_, progress := (fitsOpt_some _ _).mpr hfits }
    cases status with
    | none => exact hbounded.status
    | some _ => exact fits_truncateStr _ _
  · rename_i hup
    rw [OnFound, updateFirst_eq_none_iff.mp hup] at hfits
    exact Bounded.recordDiagnostic h hsession hfits (by decide) (by decide)

theorem bounded_agentRunTerminal {terminalSummary : String}
    {resultCommit validationSummary : Option String} {attentionRequired : Bool} :
    (agentRunTerminal s runId status terminalSummary resultCommit validationSummary
      attentionRequired completedAt).2.Bounded := by
  refine Bounded.countLiveRuns (Bounded.upsertAgentRun h ?_)
  cases hfind : s.agentRuns.find? fun r => r.runId == runId with
  | none =>
    exact fitsOpt_none _
  | some r =>
    exact (h.agentRuns.all r (List.mem_of_find?_eq_some hfind)).worktreeId

theorem bounded_agentRunControlUpdated (hsession : TextOpt input.sessionId)
    {controlStatus : String} {cancellationRequested : Bool}
    (hfits : OnFound input s.agentRuns (fun r => r.runId == runId) fun _ => True) :
    (agentRunControlUpdated s input runId controlStatus cancellationRequested time).2.Bounded := by
  rw [agentRunControlUpdated]
  split
  · rename_i runs hup
    exact { h with
      agentRuns := h.agentRuns.update hup fun r _ hbounded =>
        { hbounded with controlStatus := fits_truncateStr _ _ } }
  · rename_i hup
    rw [OnFound, updateFirst_eq_none_iff.mp hup] at hfits
    exact Bounded.recordDiagnostic h hsession hfits (by decide) (by decide)

theorem Bounded.upsertTranscriptWatermark
    {watermark : AgentRunTranscriptWatermarkProjection}
    (hfits : (s.transcriptWatermarks.find? fun w => w.runId == watermark.runId) = none →
      Text watermark.runId) : (s.upsertTranscriptWatermark watermark).Bounded :=
  { h with
    transcriptWatermarks :=
      h.transcriptWatermarks.upsert (by decide) (fun _ _ hslot => hslot) hfits }

theorem Bounded.upsertRunGroup {group : AgentRunGroupSummaryProjection}
    (hfits : group.workstreamClaimsUpdatedAt.isSome = true ∨
        (s.runGroups.find? fun g => g.groupId == group.normalise.groupId) = none →
      group.ClaimsFit) : (s.upsertRunGroup group).Bounded := by
  refine { h with
    runGroups := h.runGroups.upsert (by decide) (fun slot _ hslot => ?_) fun hnone =>
      bounded_normalise (hfits (.inr hnone)) }
  split
  · -- the recorded claims in the new group
    exact bounded_normalise (g := { group with
      workstreamClaims := slot.workstreamClaims
      workstreamDependencies := slot.workstreamDependencies
      workstreamClaimsUpdatedAt := slot.workstreamClaimsUpdatedAt })
      ⟨hslot.workstreamClaims, hslot.workstreamDependencies⟩
  · rename_i hrefresh
    exact bounded_normalise (hfits (.inl (by
      have hkept : group.normalise.workstreamClaimsUpdatedAt = group.workstreamClaimsUpdatedAt := rfl
      rw [hkept] at hrefresh
      simpa [Option.isSome_iff_ne_none] using hrefresh)))

theorem bounded_fileChanged {change : FileChangeProjection}
    (hfits : Summary (truncateStr
      (recentWithFile (s.primarySession.recentSummary.getD "") change time)
      maxProjectionStringBytes)) : (fileChanged s change time).2.Bounded :=
  { h with
    primarySession := { h.primarySession with recentSummary := (fitsOpt_some _ _).mpr hfits } }

theorem bounded_runStarted {run : RunProjection} (hrun : Text run.runId)
    (hjob : TextOpt run.jobId) : (runStarted s input run).2.Bounded := by
  have hpushed : (s.pushRun run.normalise).Bounded :=
    { h with runs := h.runs.push (RunProjection.bounded_normalise hrun hjob) (by decide) }
  exact Bounded.touchSession hpushed input.timestampMs

theorem Bounded.updateRun (hsession : TextOpt input.sessionId)
    {f : RunProjection → RunProjection} {P : Prop} (hcode : Text code) (hmessage : Text message)
    (hfits : OnFound input s.runs (fun r => r.runId == runId) fun _ => P)
    (hf : ∀ r : RunProjection, r.Bounded → P → (f r).Bounded) :
    (updateRun s input runId code message f).2.Bounded := by
  rw [ProjectionReducer.updateRun]
  split
  · rename_i runs hup
    refine { h with runs := h.runs.update hup fun r hr hbounded => ?_ }
    rw [OnFound, hr] at hfits
    exact hf r hbounded hfits
  · rename_i hup
    rw [OnFound, updateFirst_eq_none_iff.mp hup] at hfits
    exact Bounded.recordDiagnostic h hsession hfits hcode hmessage

theorem bounded_runArtifactCreated {artifact : ArtifactHandleProjection} :
    (runArtifactCreated s artifact).2.Bounded := by
  refine { h with runs := ?_ }
  refine within_updateFirst_getD ?_ fun r hr => { hr with }
  split
  · exact h.runs.drop 1
  · exact h.runs

omit h in
theorem JobProjection.bounded_merge {slot job : JobProjection} (hslot : slot.Bounded)
    (hjob : job.Bounded) : (slot.merge job).Bounded := by
  have hattempt : TextOpt (if staleLifecycleHint slot job then slot.activeAttemptId
      else job.activeAttemptId) := by
    split
    · exact hslot.activeAttemptId
    · exact hjob.activeAttemptId
  exact {
    jobId := hjob.jobId
    workspaceId := by
      rw [merge]
      split
      · exact hslot.workspaceId
      · exact hjob.workspaceId
    kind := by
      rw [merge]
      dsimp only
      split
      · exact hslot.kind
      · exact hjob.kind
    state := by
      rw [merge]
      dsimp only
      split
      · exact hslot.state
      · exact hjob.state
    summary := by
      rw [merge]
      dsimp only
      split
      · exact hslot.summary
      · exact hjob.summary
    sessionId := hjob.sessionId.or hslot.sessionId
    turnId := hjob.turnId.or hslot.turnId
    activeAttemptId := hattempt.or hslot.activeAttemptId
    errorClass := hjob.errorClass.or hslot.errorClass }

theorem Bounded.upsertJob {job : JobProjection}
    (hfits : (∀ slot, (s.jobs.find? fun j => j.jobId == job.normalise.jobId) = some slot →
      slot.ignores job.normalise = false) → job.IdsFit) :
    (s.upsertJob job.normalise).Bounded := by
  refine { h with jobs := h.jobs.upsert (by decide) (fun slot hslot hbounded => ?_) fun hnone => ?_ }
  · split
    · exact hbounded
    · rename_i hkept
      refine JobProjection.bounded_merge hbounded (JobProjection.bounded_normalise (hfits ?_))
      intro slot' hslot'
      rw [hslot] at hslot'
      cases hslot'
      simpa using hkept
  · refine JobProjection.bounded_normalise (hfits fun slot hslot => ?_)
    rw [hnone] at hslot
    cases hslot

theorem Bounded.traceProgram (hsession : TextOpt input.sessionId)
    (hcode : Text code) (hmessage : Text message) :
    (traceProgram s input code message time).Bounded :=
  Bounded.touchSession
    (Bounded.pushDiagnostic h ⟨hcode, hmessage, hsession, fitsOpt_none _⟩) input.timestampMs

omit h in
theorem text_of_programMessage (h : Text (programMessage programId jobId)) :
    Text programId ∧ Text jobId :=
  ⟨h.of_append_left.of_append_left.of_append_right, h.of_append_right⟩

omit h in
theorem text_of_terminalMessage (h : Text (terminalMessage programId jobId status summary)) :
    Text programId ∧ Text jobId := by
  exact text_of_programMessage h.of_append_left.of_append_left.of_append_left.of_append_left

/-- A program that takes a step keeps its identifiers, or takes those of the event. -/
theorem Bounded.advanceProgram (hprogram : Text programId) (hjob : Text jobId)
    (hf : ∀ p : ToolProgramSummary, p.IdsFit → (f p).IdsFit) :
    (advanceProgram s programId jobId time f).Bounded := by
  have hids : ((s.toolPrograms.find? fun p => p.programId == programId).getD
      (submittedProgram programId jobId time)).IdsFit := by
    cases hfind : s.toolPrograms.find? fun p => p.programId == programId with
    | none => exact ⟨hprogram, hjob, fitsOpt_none _, fitsOpt_none _⟩
    | some p => exact (h.toolPrograms.all p (List.mem_of_find?_eq_some hfind)).idsFit
  have hnew := ToolProgramSummary.bounded_normalise (hf _ hids)
  exact { h with
    toolPrograms := h.toolPrograms.replace hnew (by decide) }

/-- A step of a program, recorded as a diagnostic too. -/
theorem Bounded.traceAdvance (hsession : TextOpt input.sessionId)
    (hids : Text programId ∧ Text jobId) (hf : ∀ p : ToolProgramSummary, p.IdsFit → (f p).IdsFit)
    (hcode : Text code) (hmessage : Text message) :
    (ProjectionReducer.traceProgram (ProjectionReducer.advanceProgram s programId jobId time f)
      input code message time).Bounded :=
  Bounded.traceProgram (Bounded.advanceProgram h hids.1 hids.2 hf) hsession hcode hmessage

omit h in
theorem idsFit_terminalProgram (p : ToolProgramSummary) (h : p.IdsFit) :
    (terminalProgram status summary completedAt p).IdsFit :=
  ⟨h.programId, h.jobId, h.parentTurnId, h.parentAgentId⟩

theorem Bounded.updateProgram (hsession : TextOpt input.sessionId)
    (hcode : Text code) (hmessage : Text message)
    (hfits : OnFound input s.toolPrograms (fun p => p.programId == programId) fun _ => True)
    (hf : ∀ p : ToolProgramSummary, p.IdsFit → (f p).IdsFit) :
    (updateProgram s input programId code message f).2.Bounded := by
  rw [ProjectionReducer.updateProgram]
  split
  · rename_i programs hup
    exact { h with
      toolPrograms := h.toolPrograms.update hup fun p _ hp =>
        ToolProgramSummary.bounded_normalise (hf p hp.idsFit) }
  · rename_i hup
    rw [OnFound, updateFirst_eq_none_iff.mp hup] at hfits
    exact Bounded.recordDiagnostic h hsession hfits hcode hmessage

theorem bounded_tokenUsageUpdated {inputTokens outputTokens : Option ℕ} :
    (tokenUsageUpdated s inputTokens outputTokens).2.Bounded := by
  have hsession : { s with
      primarySession := { s.primarySession with
        inputTokens := inputTokens
        outputTokens := outputTokens } : SessionProjectionSnapshot }.Bounded :=
    { h with primarySession := { h.primarySession with } }
  exact Bounded.mapActive hsession fun turn hturn => { hturn with }

theorem bounded_testRunCompleted (hstatus : Text status) (hsummary : Text summary) :
    (testRunCompleted s status summary).2.Bounded := by
  refine { h with testState := fun state hstate => ?_ }
  cases hstate
  refine ⟨hstatus, ?_, (fitsOpt_some _ _).mpr hsummary⟩
  cases htest : s.testState with
  | none => exact text_blank
  | some state => exact (h.testState state htest).command

/-- The numbers of a resync signal have at most twenty digits each. -/
theorem bounded_resyncRequired {fromEventSeq currentSeq : UInt64} :
    (resyncRequired s input fromEventSeq currentSeq).2.Bounded := by
  have hcode : Text "resync_required" := by decide
  have hdigits : ∀ n : UInt64, n.toNat.repr.utf8ByteSize ≤ 20 := by
    intro n
    have hn : n.toNat < 2 ^ 64 := n.toNat_lt
    exact utf8ByteSize_repr_le (by decide) (by omega)
  have hfrom := hdigits fromEventSeq
  have hcurrent := hdigits currentSeq
  have hprefix : ("from=" : String).utf8ByteSize = 5 := by decide
  have hmiddle : (" current=" : String).utf8ByteSize = 9 := by decide
  refine Bounded.pushDiagnostic h ⟨hcode, ?_, fitsOpt_none _, fitsOpt_none _⟩
  show ("from=" ++ fromEventSeq.toNat.repr ++ " current=" ++ currentSeq.toNat.repr).utf8ByteSize ≤
    4096
  rw [String.utf8ByteSize_append, String.utf8ByteSize_append, String.utf8ByteSize_append]
  omega

/-- A payload that fits keeps the bounds. -/
theorem applyPayload_bounded (hsession : TextOpt input.sessionId)
    (hfits : PayloadFits s input) : (applyPayload s input).2.Bounded := by
  rw [PayloadFits] at hfits
  rw [applyPayload]
  cases hp : input.payload <;> rw [hp] at hfits
  case sessionActivated => exact bounded_sessionActivated h hfits
  case turnStarted => exact bounded_turnStarted h hfits
  case messageAppended => exact bounded_messageAppended h hsession hfits
  case reasoningAppended => exact bounded_reasoningAppended h hsession hfits
  case toolStarted => exact bounded_toolStarted h hsession hfits
  case toolCompleted => exact bounded_toolCompleted h hsession hfits
  case toolFailed => exact bounded_toolFailed h hsession hfits
  case permissionPending => exact bounded_permissionPending h hsession hfits
  case permissionResolved => exact bounded_permissionResolved h hsession hfits
  case questionPending => exact bounded_questionPending h hsession hfits
  case questionResolved => exact bounded_questionResolved h hsession hfits
  case lspDiagnosticsUpdated =>
    exact Bounded.recordDiagnostic h hsession hfits (by decide) (by decide)
  case turnCompleted => exact bounded_turnCompleted h hsession hfits
  case turnFailed => exact bounded_turnFailed h hsession hfits
  case subagentStarted => exact bounded_subagentStarted h hsession hfits
  case subagentProgress => exact bounded_subagentProgress h hsession hfits
  case subagentCompleted =>
    exact bounded_subagentTerminal h hsession hfits (by decide) (by decide)
  case subagentFailed =>
    exact bounded_subagentTerminal h hsession hfits (by decide) (by decide)
  case agentRunUpserted => exact Bounded.countLiveRuns (Bounded.upsertAgentRun h hfits)
  case agentRunProgress => exact bounded_agentRunProgress h hsession hfits
  case agentRunTerminal => exact bounded_agentRunTerminal h
  case agentRunControlUpdated => exact bounded_agentRunControlUpdated h hsession hfits
  case agentRunTranscriptAdvanced => exact Bounded.upsertTranscriptWatermark h hfits
  case worktreeUpserted worktree =>
    have hnew := WorktreeSummaryProjection.bounded_normalise worktree
    exact { h with
      worktrees := h.worktrees.replace hnew (by decide) }
  case agentRunGroupUpserted => exact Bounded.upsertRunGroup h hfits
  case convergenceUpserted convergence =>
    have hnew := ConvergenceSummaryProjection.bounded_normalise convergence
    exact { h with
      convergences := h.convergences.replace hnew (by decide) }
  case fileChanged => exact bounded_fileChanged h hfits
  case runStarted => exact bounded_runStarted h hfits.1 hfits.2
  case runProgress =>
    exact Bounded.updateRun h hsession (by decide) (by decide) hfits
      fun r hr hsummary => { hr with summary := hsummary }
  case runArtifactCreated => exact bounded_runArtifactCreated h
  case runCompleted =>
    exact Bounded.updateRun h hsession (by decide) (by decide) hfits
      fun r hr _ => { hr with status := fits_truncateStr _ _, summary := fits_truncateStr _ _ }
  case runDenied =>
    have hdenied : Text "denied" := by decide
    exact Bounded.updateRun h hsession (by decide) (by decide) hfits
      fun r hr hsummary => { hr with status := hdenied, summary := hsummary }
  case jobUpserted => exact Bounded.upsertJob h hfits
  case jobRemoved => exact { h with jobs := h.jobs.filter _ }
  case toolProgramSubmitted =>
    exact Bounded.traceProgram h hsession (by decide) hfits
  case toolProgramTerminal =>
    exact Bounded.traceAdvance h hsession (text_of_terminalMessage hfits) idsFit_terminalProgram
      (by decide) hfits
  case toolProgramAdmitted | toolProgramStarted =>
    exact Bounded.traceAdvance h hsession (text_of_programMessage hfits)
      (fun p hp => ⟨hp.programId, hp.jobId, hp.parentTurnId, hp.parentAgentId⟩)
      (by decide) hfits
  case toolProgramProgress | toolProgramWaitingForCall | toolProgramWaitingForJob
      | toolProgramRetryBackoff =>
    exact Bounded.updateProgram h hsession (by decide) (by decide) hfits
      fun p hp => { hp with }
  case tokenUsageUpdated => exact bounded_tokenUsageUpdated h
  case modelSelected =>
    exact { h with
      primarySession := { h.primarySession with
        selectedModel := (fitsOpt_some _ _).mpr (fits_truncateStr _ _) } }
  case agentSelected =>
    exact { h with
      primarySession := { h.primarySession with
        selectedAgent := (fitsOpt_some _ _).mpr (fits_truncateStr _ _) } }
  case shellRunUpserted =>
    have hnew := ShellRunProjection.bounded_normalise hfits
    exact { h with
      shellRuns := h.shellRuns.replace hnew (by decide) }
  case toolContractsUpdated =>
    refine { h with toolContracts := Within.take fun x hx => ?_ }
    obtain ⟨y, -, rfl⟩ := List.mem_map.mp (List.mem_of_mem_take hx)
    exact ToolContractProjection.bounded_normalise y
  case pluginCatalogueUpdated =>
    refine { h with pluginCatalogue := Within.take fun x hx => ?_ }
    obtain ⟨y, -, rfl⟩ := List.mem_map.mp (List.mem_of_mem_take hx)
    exact PluginCatalogueEntryProjection.bounded_normalise y
  case workPlanUpdated plan time =>
    refine { h with workPlan := fun kept hkept => ?_ }
    cases hkept
    exact ⟨hfits.planId, hfits.status, hfits.objectivePreview, hfits.currentPhase,
      hfits.currentItemId, hfits.assessment, Within.take hfits.items⟩
  case testRunStarted =>
    refine { h with testState := fun state hstate => ?_ }
    cases hstate
    exact ⟨text_running, hfits, fitsOpt_none _⟩
  case testRunCompleted => exact bounded_testRunCompleted h hfits.1 hfits.2
  case diagnostic =>
    exact Bounded.pushDiagnostic h ⟨fits_clipStr _ _, fits_clipStr _ _, hsession, hfits⟩
  case resyncRequired => exact bounded_resyncRequired h
  case unknown =>
    exact Bounded.pushDiagnostic h ⟨text_unknownVariant, hfits.1, hsession, hfits.2⟩

end Payloads

/-!
## Sequences of inputs
-/

section Sequences

variable {debug : Option String → String} {config : ReducerConfig} (h : s.Bounded)

include h

/-- The session of an input in scope is one the snapshot knows. -/
theorem textOpt_sessionId (hscope : checkScope s input config = true) :
    TextOpt input.sessionId := by
  rw [checkScope] at hscope
  split at hscope
  · rename_i sid hsid
    rw [Bool.or_eq_true, Bool.and_eq_true, beq_iff_eq] at hscope
    rw [hsid, TextOpt, fitsOpt_some]
    rcases hscope with rfl | ⟨-, hknown⟩
    · exact h.primarySessionId
    · obtain ⟨other, hother, hsame⟩ := List.any_eq_true.mp hknown
      rw [beq_iff_eq] at hsame
      exact hsame ▸ (h.secondarySessions.all other hother).sessionId
  · cases hscope

theorem Bounded.moveTo (eventSeq : ℕ) (time : ℤ) :
    { s with eventSeq := eventSeq, generatedAtMs := time }.Bounded :=
  { h with }

theorem apply_bounded (hfits : Fitting s input debug config) :
    (apply s input debug config).2.Bounded := by
  by_cases hversion : versionSupported config input.protocolVersion = true
  · obtain ⟨hforeign, hown⟩ := hfits hversion
    rcases @apply_cases s input debug config with
      ⟨e, hap⟩ | ⟨-, hap⟩ | ⟨hscope, hap⟩ | ⟨-, hscope, hseq, hap⟩
    · exact hap ▸ h
    · exact hap ▸ h
    · have hcode : Text "scope_mismatch" := by decide
      rw [hap]
      exact Bounded.pushDiagnostic h ⟨hcode, hforeign hscope, fitsOpt_none _, fitsOpt_none _⟩
    · have hpayload := applyPayload_bounded h (textOpt_sessionId h hscope) (hown hscope hseq)
      rw [hap, stamp]
      split
      · exact Bounded.moveTo hpayload _ _
      · exact hpayload
  · have hrefused : apply s input debug config =
        (.error (.unsupportedProtocolVersion input.protocolVersion config.minVersion
          config.maxVersion), s) := by
      rw [apply, if_pos hversion]
    rw [hrefused]
    exact h

variable (debug config) in
/-- Apply every input in order; the number counts those that were applied. -/
def applyAll (s : SessionProjectionSnapshot) (inputs : List ReducerEventInput) :
    ℕ × SessionProjectionSnapshot :=
  inputs.foldl (fun r input =>
    match apply r.2 input debug config with
    | (.applied, s) => (r.1 + 1, s)
    | (_, s) => (r.1, s)) (0, s)

variable (debug config) in
/-- Every input fits in the state it finds. -/
def FittingRun (s : SessionProjectionSnapshot) : List ReducerEventInput → Prop
  | [] => True
  | input :: inputs =>
    Fitting s input debug config ∧ FittingRun (apply s input debug config).2 inputs

theorem applyAll_bounded {inputs : List ReducerEventInput}
    (hfits : FittingRun debug config s inputs) : (applyAll debug config s inputs).2.Bounded := by
  rw [applyAll]
  generalize (0 : ℕ) = count
  induction inputs generalizing s count with
  | nil => exact h
  | cons input inputs ih =>
    obtain ⟨hinput, hinputs⟩ := hfits
    have hnext := apply_bounded h hinput
    rw [List.foldl_cons]
    rcases hap : apply s input debug config with ⟨outcome, s'⟩
    rw [hap] at hnext hinputs
    cases outcome <;> exact ih hnext hinputs _

omit h in
/-- Every sequence of inputs that fit keeps an empty snapshot within all its bounds. -/
theorem applyAll_empty_bounded (debug : Option String → String) (config : ReducerConfig)
    {sessionId projectId workspaceId : String} (hsession : Text sessionId)
    (hproject : Text projectId) (hworkspace : Text workspaceId) (inputs : List ReducerEventInput)
    (hfits : FittingRun debug config (.empty sessionId projectId workspaceId) inputs) :
    (applyAll debug config (.empty sessionId projectId workspaceId) inputs).2.Bounded :=
  applyAll_bounded (SessionProjectionSnapshot.bounded_empty hsession hproject hworkspace) hfits

end Sequences

/-- An input of session `s`. -/
def sampleInput (eventSeq : ℕ) (payload : ProjectionEvent) : ReducerEventInput where
  protocolVersion := 1
  eventSeq := eventSeq
  timestampMs := 0
  sessionId := some "s"
  turnId := none
  payload := payload

/-- A turn with the given number of messages. -/
def sampleTurnOf (messages : ℕ) : TurnProjection where
  turnId := "t"
  status := .active
  startedAt := 0
  updatedAt := 0
  stopReason := none
  error := none
  messages := List.replicate messages {
    messageId := "m"
    parentTurnId := "t"
    role := .assistant
    text := ""
    toolCallId := none
    visibility := .pub
    createdAt := 0
    truncated := false }
  tools := []
  pendingPermissions := []
  pendingQuestions := []
  agentTree := []
  subagentCount := 0
  inputTokens := none
  outputTokens := none
  cachedTokens := none
  reasoningTokens := none
  contextLimit := none

theorem restFits_sampleTurnOf : (sampleTurnOf 2).RestFits where
  turnId := by decide +kernel
  messages := ⟨by decide, fun m hm => by
    rw [List.eq_of_mem_replicate hm]
    exact ⟨by decide +kernel, by decide +kernel, fitsOpt_none _⟩⟩
  tools := .nil
  pendingPermissions := .nil
  pendingQuestions := .nil
  agentTree := .nil

/-- A turn with two messages, and reasoning added to one of them. -/
def sampleInputs : List ReducerEventInput :=
  [sampleInput 1 (.turnStarted (sampleTurnOf 2)), sampleInput 2 (.reasoningAppended "m" "because")]

theorem applyAll_empty_bounded_sampleInputs :
    FittingRun (fun _ => "") {} (.empty "s" "p" "w") sampleInputs ∧
      (applyAll (fun _ => "") {} (.empty "s" "p" "w") sampleInputs).2.Bounded := by
  have hfits : FittingRun (fun _ => "") {} (.empty "s" "p" "w") sampleInputs := by
    refine ⟨fun _ => ⟨fun hscope => ?_, fun _ _ => restFits_sampleTurnOf⟩,
      fun _ => ⟨fun hscope => ?_, fun _ _ => ?_⟩, trivial⟩
    · decide +kernel
    · decide +kernel
    · show Text _
      decide +kernel
  exact ⟨hfits, applyAll_empty_bounded _ {} (by decide +kernel) (by decide +kernel)
    (by decide +kernel) sampleInputs hfits⟩

/-- A turn that arrives with more messages than the cap keeps them all. -/
theorem started_turn_exceeds_cap :
    ¬ (applyAll (fun _ => "") {} (.empty "s" "p" "w")
      [sampleInput 1 (.turnStarted (sampleTurnOf 257))]).2.Bounded := by
  intro h
  have hheld : (applyAll (fun _ => "") {} (.empty "s" "p" "w")
      [sampleInput 1 (.turnStarted (sampleTurnOf 257))]).2.activeTurn.map
      (·.messages.length) = some 257 := by decide +kernel
  obtain ⟨turn, hactive, hlength⟩ := Option.map_eq_some_iff.mp hheld
  have hcap := (h.activeTurn turn hactive).messages.length_le
  rw [hlength] at hcap
  exact absurd hcap (by decide)

end ProjectionReducer

end Codegg.Projection
