import Codegg.Projection.Reducer

/-!
# Payloads that do not look into a turn's messages and tools

A redaction rewrites the messages and the tools of every turn and replaces the diagnostics.
Every payload except those that carry messages, reasoning or tools does to a redacted
snapshot what it does to the snapshot: the outcome is the same and the result is the
redacted result, up to the diagnostics.
-/
namespace Codegg.Projection

open Codegg.Library ProjectionReducer SessionProjectionSnapshot

/-- The payload adds or changes a turn's messages or tools. -/
def ProjectionEvent.carriesContent : ProjectionEvent → Bool
  | .turnStarted _ => true
  | .messageAppended _ => true
  | .reasoningAppended _ _ => true
  | .toolStarted _ => true
  | .toolCompleted _ _ _ _ _ => true
  | .toolFailed _ _ _ => true
  | _ => false

variable {fm : List MessageProjection → List MessageProjection}
  {ft : List ToolProjection → List ToolProjection}

def TurnProjection.redact (fm : List MessageProjection → List MessageProjection)
    (ft : List ToolProjection → List ToolProjection) (turn : TurnProjection) : TurnProjection :=
  { turn with messages := fm turn.messages, tools := ft turn.tools }

def SessionProjectionSnapshot.redact (fm : List MessageProjection → List MessageProjection)
    (ft : List ToolProjection → List ToolProjection) (diagnostics : List ProjectionDiagnostic)
    (s : SessionProjectionSnapshot) : SessionProjectionSnapshot :=
  { s with
    activeTurn := s.activeTurn.map (TurnProjection.redact fm ft)
    recentTurns := s.recentTurns.map (TurnProjection.redact fm ft)
    diagnostics := diagnostics }

@[simp] theorem SessionProjectionSnapshot.redact_activeTurn (s : SessionProjectionSnapshot)
    (diagnostics : List ProjectionDiagnostic) :
    (s.redact fm ft diagnostics).activeTurn = s.activeTurn.map (TurnProjection.redact fm ft) :=
  rfl

variable {code message childInstanceId : String} {turn : TurnProjection}
  {node : AgentTreeNodeProjection} {taskId : ℕ}

namespace ProjectionReducer

/-- The reduction of a redacted snapshot is the redacted reduction, up to the diagnostics. -/
def Redacted (fm : List MessageProjection → List MessageProjection)
    (ft : List ToolProjection → List ToolProjection) (r r' : Reduction) : Prop :=
  ∃ diagnostics, r' = (r.1, r.2.redact fm ft diagnostics)

variable {s : SessionProjectionSnapshot} {diagnostics : List ProjectionDiagnostic}
  {input : ReducerEventInput}

theorem Redacted.recordDiagnostic :
    Redacted fm ft (recordDiagnostic s input code message)
      (recordDiagnostic (s.redact fm ft diagnostics) input code message) :=
  ⟨_, rfl⟩

theorem Redacted.onActiveTurn {f g : TurnProjection → Reduction}
    (hf : ∀ turn, s.activeTurn = some turn →
      Redacted fm ft (f turn) (g (turn.redact fm ft))) :
    Redacted fm ft (onActiveTurn s input code message f)
      (onActiveTurn (s.redact fm ft diagnostics) input code message g) := by
  rw [ProjectionReducer.onActiveTurn, ProjectionReducer.onActiveTurn,
    redact_activeTurn]
  cases hactive : s.activeTurn with
  | none => exact .recordDiagnostic
  | some turn => exact hf turn hactive

theorem Redacted.updateRun {runId : String} {f : RunProjection → RunProjection} :
    Redacted fm ft (updateRun s input runId code message f)
      (updateRun (s.redact fm ft diagnostics) input runId code message f) := by
  have hruns : (s.redact fm ft diagnostics).runs = s.runs := rfl
  rw [ProjectionReducer.updateRun, ProjectionReducer.updateRun, hruns]
  split
  · exact ⟨_, rfl⟩
  · exact .recordDiagnostic

theorem Redacted.updateProgram {programId : String} {f : ToolProgramSummary → ToolProgramSummary} :
    Redacted fm ft (updateProgram s input programId code message f)
      (updateProgram (s.redact fm ft diagnostics) input programId code message f) := by
  have hprograms : (s.redact fm ft diagnostics).toolPrograms = s.toolPrograms := rfl
  rw [ProjectionReducer.updateProgram, ProjectionReducer.updateProgram, hprograms]
  split
  · exact ⟨_, rfl⟩
  · exact .recordDiagnostic

theorem redact_pushRecentTurn :
    (s.redact fm ft diagnostics).pushRecentTurn (turn.redact fm ft) =
      (s.pushRecentTurn turn).redact fm ft diagnostics := by
  simp [pushRecentTurn, redact]

theorem redact_upsertSubagent :
    (s.redact fm ft diagnostics).upsertSubagent node =
      (s.upsertSubagent node).map (redact fm ft diagnostics) := by
  have hsubagents : (s.redact fm ft diagnostics).subagents = s.subagents := rfl
  rw [upsertSubagent, upsertSubagent,
    hsubagents]
  split
  · rfl
  · split
    · split <;> rfl
    · rfl

theorem redact_attachToTurn :
    attachToTurn node (turn.redact fm ft) = (attachToTurn node turn).redact fm ft := by
  have hid : (turn.redact fm ft).turnId = turn.turnId := rfl
  rw [attachToTurn, attachToTurn, hid]
  split <;> rfl

theorem Redacted.subagentStarted :
    Redacted fm ft (subagentStarted s input node)
      (subagentStarted (s.redact fm ft diagnostics) input node) := by
  dsimp only [ProjectionReducer.subagentStarted]
  split
  · refine ⟨diagnostics, ?_⟩
    cases hactive : s.activeTurn <;> simp [redact, hactive]
    rfl
  · rw [redact_upsertSubagent]
    cases s.upsertSubagent node.normalise with
    | none => exact .recordDiagnostic
    | some s' =>
      refine ⟨diagnostics, ?_⟩
      have hattach : (s'.redact fm ft diagnostics).activeTurn.map (attachToTurn node.normalise) =
          (s'.activeTurn.map (attachToTurn node.normalise)).map (TurnProjection.redact fm ft) := by
        cases hactive : s'.activeTurn with
        | none => simp [hactive]
        | some turn => simp [hactive, redact_attachToTurn]
      simp only [Option.map_some, hattach]
      rfl

theorem Redacted.subagentProgress :
    Redacted fm ft (subagentProgress s input childInstanceId taskId message)
      (subagentProgress (s.redact fm ft diagnostics) input childInstanceId taskId message) := by
  have hsubagents : (s.redact fm ft diagnostics).subagents = s.subagents := rfl
  dsimp only [ProjectionReducer.subagentProgress]
  rw [hsubagents, redact_activeTurn]
  split
  · exact ⟨_, rfl⟩
  · cases hactive : s.activeTurn with
    | none => exact .recordDiagnostic
    | some turn =>
      have htree : (turn.redact fm ft).agentTree = turn.agentTree := rfl
      simp only [Option.map_some, htree]
      split
      · exact ⟨_, rfl⟩
      · exact .recordDiagnostic

theorem redact_updateTree {f : AgentTreeNodeProjection → AgentTreeNodeProjection} :
    updateTree childInstanceId taskId f (turn.redact fm ft) =
      (updateTree childInstanceId taskId f turn).map (TurnProjection.redact fm ft) := by
  rw [updateTree, updateTree, Option.map_map]
  rfl

theorem Redacted.subagentTerminal {summary : String} {status : AgentTreeStatus} {time : ℤ} :
    Redacted fm ft
      (subagentTerminal s input childInstanceId taskId status summary time code message)
      (subagentTerminal (s.redact fm ft diagnostics) input childInstanceId taskId status summary
        time code message) := by
  have hup : updateSubagentTerminal (s.redact fm ft diagnostics) childInstanceId taskId
      (setSubagentTerminal status summary time) =
      ((updateSubagentTerminal s childInstanceId taskId (setSubagentTerminal status summary time)).1,
        (updateSubagentTerminal s childInstanceId taskId
          (setSubagentTerminal status summary time)).2.redact fm ft diagnostics) := by
    cases hactive : s.activeTurn <;>
      simp [updateSubagentTerminal, redact, hactive,
        redact_updateTree, Function.comp_def]
  rw [ProjectionReducer.subagentTerminal, ProjectionReducer.subagentTerminal, hup]
  split
  · exact ⟨_, rfl⟩
  · exact .recordDiagnostic

theorem Redacted.closeTurn {time : ℤ} :
    Redacted fm ft (.applied, closeTurn s turn time)
      (.applied, closeTurn (s.redact fm ft diagnostics) (turn.redact fm ft) time) := by
  refine ⟨diagnostics, ?_⟩
  rw [ProjectionReducer.closeTurn, ProjectionReducer.closeTurn, ← redact_pushRecentTurn]
  rfl

theorem Redacted.tokenUsageUpdated {inputTokens outputTokens : Option ℕ} :
    Redacted fm ft (tokenUsageUpdated s inputTokens outputTokens)
      (tokenUsageUpdated (s.redact fm ft diagnostics) inputTokens outputTokens) := by
  refine ⟨diagnostics, ?_⟩
  cases hactive : s.activeTurn <;>
    simp [ProjectionReducer.tokenUsageUpdated, redact, hactive,
      TurnProjection.redact]

/-- A payload without messages, reasoning or tools does not look into those of a turn. -/
theorem applyPayload_redact (h : input.payload.carriesContent = false) :
    Redacted fm ft (applyPayload s input) (applyPayload (s.redact fm ft diagnostics) input) := by
  rw [applyPayload, applyPayload]
  cases hp : input.payload with
  | turnStarted | messageAppended | reasoningAppended | toolStarted | toolCompleted
  | toolFailed => simp [hp, ProjectionEvent.carriesContent] at h
  | sessionActivated summary =>
    have hid : (s.redact fm ft diagnostics).primarySessionId = s.primarySessionId := rfl
    dsimp only [sessionActivated]
    rw [hid]
    split <;> exact ⟨_, rfl⟩
  | permissionPending | permissionResolved | questionPending | questionResolved =>
    exact .onActiveTurn fun turn _ => ⟨_, rfl⟩
  | turnCompleted turnId | turnFailed turnId =>
    refine .onActiveTurn fun turn _ => ?_
    have hid : (turn.redact fm ft).turnId = turn.turnId := rfl
    rw [hid]
    split
    · exact .recordDiagnostic
    · exact .closeTurn
  | subagentStarted => exact .subagentStarted
  | subagentProgress => exact .subagentProgress
  | subagentCompleted | subagentFailed => exact .subagentTerminal
  | agentRunProgress | agentRunControlUpdated =>
    have hruns : (s.redact fm ft diagnostics).agentRuns = s.agentRuns := rfl
    dsimp only [agentRunProgress, agentRunControlUpdated]
    rw [hruns]
    split
    · exact ⟨_, rfl⟩
    · exact .recordDiagnostic
  | runProgress | runCompleted | runDenied => exact .updateRun
  | toolProgramProgress | toolProgramWaitingForCall | toolProgramWaitingForJob
  | toolProgramRetryBackoff => exact .updateProgram
  | tokenUsageUpdated => exact .tokenUsageUpdated
  | _ => exact ⟨_, rfl⟩

end ProjectionReducer

end Codegg.Projection
