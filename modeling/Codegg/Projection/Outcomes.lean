import Codegg.Projection.Reducer

/-!
# What an outcome says about the snapshot

The outcome of an input promises how far it changed the snapshot: not at all, in its
diagnostics only, or by taking effect. The promise is kept but for three kinds of input. A
foreign input and a resync signal leave a diagnostic although nothing is to change, and the
late result of a tool that the turn does not know adds a tool to the turn although only a
diagnostic is to be recorded.
-/
namespace Codegg.Projection

open Codegg.Library SessionProjectionSnapshot

namespace ProjectionReducer

variable (s : SessionProjectionSnapshot) (input : ReducerEventInput)

/-- Two snapshots that differ in their notes and their position at most. -/
def SameButNotes (s s' : SessionProjectionSnapshot) : Prop :=
  ∃ diagnostics eventSeq generatedAtMs, s' = { s with
    diagnostics := diagnostics
    eventSeq := eventSeq
    generatedAtMs := generatedAtMs }

/-- What each outcome promises. -/
def OutcomeContract (r : Reduction) : Prop :=
  match r.1 with
  | .applied => True
  | .reconciled => SameButNotes s r.2
  | .duplicate => r.2 = s
  | .scopeMismatch => r.2 = s
  | .resyncRequired _ _ => r.2 = s
  | .error _ => r.2 = s

def scopeDiagnostic (debug : Option String → String) : ProjectionDiagnostic where
  code := "scope_mismatch"
  message := scopeMessage debug input.sessionId s.primarySessionId
  atMs := input.timestampMs

def resyncDiagnostic (fromEventSeq currentSeq : UInt64) : ProjectionDiagnostic where
  code := "resync_required"
  message := "from=" ++ toString fromEventSeq.toNat ++ " current=" ++ toString currentSeq.toNat
  atMs := input.timestampMs

/-- The payload of the input is looked at. -/
structure Reached (config : ReducerConfig) : Prop where
  version : versionSupported config input.protocolVersion = true
  scope : checkScope s input config = true
  newer : s.eventSeq < input.eventSeq

/-- The turn does not know the tool, and adding it to the tools makes a difference. -/
structure AddsTool (toolId : String) (tool : ToolProjection) (turn : TurnProjection) : Prop where
  active : s.activeTurn = some turn
  unknown : ∀ t ∈ turn.tools, t.toolId ≠ toolId
  shows : ¬CopiesOf maxProjectionRecentTools tool turn.tools

/-- The inputs that change more than their outcome says. -/
inductive Breaks (debug : Option String → String) (config : ReducerConfig) : Prop
  | foreign (hversion : versionSupported config input.protocolVersion = true)
      (hscope : checkScope s input config = false)
      (hshows : ¬CopiesOf maxProjectionDiagnostics (scopeDiagnostic s input debug) s.diagnostics)
  | resync (fromEventSeq currentSeq : UInt64) (hreached : Reached s input config)
      (hpayload : input.payload = .resyncRequired fromEventSeq currentSeq)
      (hshows : ¬CopiesOf maxProjectionDiagnostics
        (resyncDiagnostic input fromEventSeq currentSeq) s.diagnostics)
  | lateResult (toolId : String) (output : ToolOutputProjection) (success : Bool)
      (durationMs : ℕ) (completedAt : ℤ) (turn : TurnProjection)
      (hreached : Reached s input config)
      (hpayload : input.payload = .toolCompleted toolId output success durationMs completedAt)
      (hadds : AddsTool s toolId (reconciledTool toolId (if success then .completed else .failed)
        (boundOutput output) completedAt (some durationMs)) turn)
  | lateFailure (toolId error : String) (completedAt : ℤ) (turn : TurnProjection)
      (hreached : Reached s input config)
      (hpayload : input.payload = .toolFailed toolId error completedAt)
      (hadds : AddsTool s toolId
        (reconciledTool toolId .failed (failureSummary error) completedAt none) turn)

variable {s input} {r : Reduction}

/-! ### Payloads that take effect or leave a diagnostic -/

/-- The payload takes effect, or leaves a diagnostic and nothing else. -/
def Noted (s : SessionProjectionSnapshot) (r : Reduction) : Prop :=
  r.1 = .applied ∨ (r.1 = .reconciled ∧ ∃ d, r.2 = s.pushDiagnostic d)

theorem Noted.recordDiagnostic (code message : String) :
    Noted s (recordDiagnostic s input code message) := .inr ⟨rfl, _, rfl⟩

theorem Noted.onActiveTurn {code message : String} {f : TurnProjection → Reduction}
    (hf : ∀ turn, Noted s (f turn)) : Noted s (onActiveTurn s input code message f) := by
  rw [ProjectionReducer.onActiveTurn]
  cases s.activeTurn with
  | none => exact .recordDiagnostic code message
  | some turn => exact hf turn

theorem Noted.updateRun {runId code message : String} {f : RunProjection → RunProjection} :
    Noted s (updateRun s input runId code message f) := by
  rw [ProjectionReducer.updateRun]
  split
  · exact .inl rfl
  · exact .recordDiagnostic _ _

theorem Noted.updateProgram {programId code message : String}
    {f : ToolProgramSummary → ToolProgramSummary} :
    Noted s (updateProgram s input programId code message f) := by
  rw [ProjectionReducer.updateProgram]
  split
  · exact .inl rfl
  · exact .recordDiagnostic _ _

/-- A terminal event that finds its node nowhere leaves the snapshot. -/
theorem updateSubagentTerminal_of_not_found {childInstanceId : String} {taskId : ℕ}
    {f : AgentTreeNodeProjection → AgentTreeNodeProjection}
    (h : (updateSubagentTerminal s childInstanceId taskId f).1 = false) :
    (updateSubagentTerminal s childInstanceId taskId f).2 = s := by
  rw [updateSubagentTerminal] at *
  simp only [Bool.or_eq_false_iff, Option.isSome_eq_false_iff, Option.isNone_iff_eq_none] at h
  obtain ⟨⟨hsubagents, hactive⟩, hrecent⟩ := h
  have hturn : s.activeTurn.map (fun t => (updateTree childInstanceId taskId f t).getD t) =
      s.activeTurn := by
    cases ht : s.activeTurn with
    | none => rfl
    | some t =>
      rw [ht] at hactive
      simp only [Option.any_some, Option.isSome_eq_false_iff, Option.isNone_iff_eq_none] at hactive
      rw [Option.map_some, hactive, Option.getD_none]
  have hturns : s.recentTurns.map (fun t => (updateTree childInstanceId taskId f t).getD t) =
      s.recentTurns := by
    refine (List.map_congr_left fun t ht => ?_).trans (List.map_id _)
    have hnone := List.any_eq_false.mp hrecent t ht
    simp only [Bool.not_eq_true, Option.isSome_eq_false_iff, Option.isNone_iff_eq_none] at hnone
    rw [hnone, Option.getD_none, id]
  simp only [hsubagents, hturn, hturns, Option.getD_none]

theorem Noted.subagentTerminal (childInstanceId : String) (taskId : ℕ) (status : AgentTreeStatus)
    (summary : String) (time : ℤ) (code message : String) :
    Noted s (subagentTerminal s input childInstanceId taskId status summary time code message) := by
  rw [ProjectionReducer.subagentTerminal]
  split
  · exact .inl rfl
  · next hfound =>
    rw [updateSubagentTerminal_of_not_found (by simpa using hfound)]
    exact .recordDiagnostic code message

/-- A payload that may break the promise. -/
def mayBreak : ProjectionEvent → Bool
  | .resyncRequired _ _ => true
  | .toolCompleted .. => true
  | .toolFailed .. => true
  | _ => false

theorem applyPayload_noted (h : mayBreak input.payload = false) :
    Noted s (applyPayload s input) := by
  rw [applyPayload]
  cases hp : input.payload with
  | resyncRequired | toolCompleted | toolFailed => simp [hp, mayBreak] at h
  | sessionActivated =>
    dsimp only [sessionActivated]
    split <;> exact .inl rfl
  | turnStarted | runStarted | fileChanged => exact .inl rfl
  | messageAppended | toolStarted | permissionPending | permissionResolved | questionPending
  | questionResolved => exact .onActiveTurn fun turn => .inl rfl
  | reasoningAppended =>
    refine .onActiveTurn fun turn => ?_
    dsimp only
    split <;> exact .inl rfl
  | turnCompleted | turnFailed =>
    refine .onActiveTurn fun turn => ?_
    split
    · exact .recordDiagnostic _ _
    · exact .inl rfl
  | subagentStarted node =>
    dsimp only [subagentStarted]
    split
    · exact .inl rfl
    · split
      · exact .recordDiagnostic _ _
      · exact .inl rfl
  | subagentProgress =>
    dsimp only [subagentProgress]
    split
    · exact .inl rfl
    · split
      · split
        · exact .inl rfl
        · exact .recordDiagnostic _ _
      · exact .recordDiagnostic _ _
  | subagentCompleted | subagentFailed => exact .subagentTerminal _ _ _ _ _ _ _
  | agentRunProgress | agentRunControlUpdated =>
    dsimp only [agentRunProgress, agentRunControlUpdated]
    split
    · exact .inl rfl
    · exact .recordDiagnostic _ _
  | runProgress | runCompleted | runDenied => exact .updateRun
  | toolProgramProgress | toolProgramWaitingForCall | toolProgramWaitingForJob
  | toolProgramRetryBackoff => exact .updateProgram
  | lspDiagnosticsUpdated => exact .recordDiagnostic _ _
  | diagnostic | unknown => exact .inr ⟨rfl, _, rfl⟩
  | _ => exact .inl rfl

theorem Noted.contract_stamp (h : Noted s r) : OutcomeContract s (stamp input r) := by
  rcases h with happlied | ⟨hreconciled, d, hpush⟩
  · rw [stamp, happlied]
    trivial
  · rw [stamp, hreconciled, hpush]
    exact ⟨_, _, _, rfl⟩

theorem reconciled_contract_iff {s' : SessionProjectionSnapshot} :
    OutcomeContract s (stamp input (.reconciled, s')) ↔ SameButNotes s s' := by
  constructor
  · rintro ⟨diagnostics, _, _, hsame⟩
    refine ⟨diagnostics, s'.eventSeq, s'.generatedAtMs, ?_⟩
    have hrestored := congrArg (fun t : SessionProjectionSnapshot =>
      { t with eventSeq := s'.eventSeq, generatedAtMs := s'.generatedAtMs }) hsame
    exact hrestored
  · rintro ⟨diagnostics, _, _, rfl⟩
    exact ⟨diagnostics, input.eventSeq, input.timestampMs, rfl⟩

/-! ### Payloads that may not -/

/-- A result that is looked up among the tools of the turn, and enters one when none is
found. -/
def resultOf (s : SessionProjectionSnapshot) (input : ReducerEventInput) (code message : String)
    (toolId : String) (f : ToolProjection → ToolProjection) (tool : ToolProjection) : Reduction :=
  onActiveTurn s input code message fun turn =>
    match updateFirst (fun t => t.toolId == toolId) f turn.tools with
    | some tools => (.applied, { s with activeTurn := some { turn with tools := tools } })
    | none => (.reconciled, { s with
        activeTurn := some { turn with
          tools := pushBounded maxProjectionRecentTools turn.tools tool } })

theorem updateFirst_tools_eq_none_iff {toolId : String} {f : ToolProjection → ToolProjection}
    {tools : List ToolProjection} :
    updateFirst (fun t => t.toolId == toolId) f tools = none ↔ ∀ t ∈ tools, t.toolId ≠ toolId := by
  rw [updateFirst_eq_none_iff]
  simp

/-- The promise of a late result is kept exactly when the tool it enters is not new. -/
theorem resultOf_contract_iff (code message toolId : String) (f : ToolProjection → ToolProjection)
    (tool : ToolProjection) :
    OutcomeContract s (stamp input (resultOf s input code message toolId f tool)) ↔
      ¬∃ turn, AddsTool s toolId tool turn := by
  rw [resultOf, onActiveTurn]
  cases hturn : s.activeTurn with
  | none =>
    refine iff_of_true (Noted.recordDiagnostic code message).contract_stamp ?_
    rintro ⟨turn, hadds⟩
    rw [hadds.active] at hturn
    cases hturn
  | some turn =>
    dsimp only
    cases hup : updateFirst (fun t => t.toolId == toolId) f turn.tools with
    | some tools =>
      refine iff_of_true trivial ?_
      rintro ⟨turn', hadds⟩
      obtain rfl := Option.some.inj (hadds.active.symm.trans hturn)
      rw [updateFirst_tools_eq_none_iff.mpr hadds.unknown] at hup
      cases hup
    | none =>
      refine reconciled_contract_iff.trans ?_
      have hunknown := updateFirst_tools_eq_none_iff.mp hup
      constructor
      · rintro ⟨diagnostics, eventSeq, generatedAtMs, hsame⟩ ⟨turn', hadds⟩
        obtain rfl := Option.some.inj (hadds.active.symm.trans hturn)
        have hactive := congrArg activeTurn hsame
        have htools : pushBounded maxProjectionRecentTools turn'.tools tool = turn'.tools :=
          congrArg TurnProjection.tools (Option.some.inj (hactive.trans hturn))
        exact hadds.shows ((pushBounded_eq_self_iff (by decide)).mp htools)
      · intro hnone
        have hcopies : CopiesOf maxProjectionRecentTools tool turn.tools := by
          by_contra hshows
          exact hnone ⟨turn, hturn, hunknown, hshows⟩
        rw [(pushBounded_eq_self_iff (by decide)).mpr hcopies]
        refine ⟨s.diagnostics, s.eventSeq, s.generatedAtMs, ?_⟩
        rw [← hturn]

theorem pushDiagnostic_eq_self_iff {d : ProjectionDiagnostic} :
    s.pushDiagnostic d = s ↔ CopiesOf maxProjectionDiagnostics d s.diagnostics := by
  rw [← pushBounded_eq_self_iff (by decide), pushDiagnostic]
  constructor
  · intro h
    exact congrArg diagnostics h
  · intro h
    rw [h]

/-- What becomes of an input whose payload is looked at. -/
theorem applyPayload_contract_iff (debug : Option String → String) {config : ReducerConfig}
    (hreached : Reached s input config) :
    OutcomeContract s (stamp input (applyPayload s input)) ↔ ¬Breaks s input debug config := by
  cases hbreak : mayBreak input.payload with
  | false =>
    refine iff_of_true (applyPayload_noted hbreak).contract_stamp ?_
    rintro (⟨-, hscope, -⟩ | ⟨_, _, -, hp, -⟩ | ⟨_, _, _, _, _, _, -, hp, -⟩ |
      ⟨_, _, _, _, -, hp, -⟩)
    · rw [hreached.scope] at hscope
      cases hscope
    all_goals
      rw [hp] at hbreak
      cases hbreak
  | true =>
    have hscope : checkScope s input config ≠ false := by simp [hreached.scope]
    cases hp : input.payload with
    | resyncRequired fromEventSeq currentSeq =>
      rw [applyPayload_of_resync hp]
      show s.pushDiagnostic (resyncDiagnostic input fromEventSeq currentSeq) = s ↔ _
      rw [pushDiagnostic_eq_self_iff]
      constructor
      · rintro hcopies (⟨-, hforeign, -⟩ | ⟨a, b, -, hpayload, hshows⟩ |
          ⟨_, _, _, _, _, _, -, hpayload, -⟩ | ⟨_, _, _, _, -, hpayload, -⟩)
        · exact hscope hforeign
        · rw [hp] at hpayload
          cases hpayload
          exact hshows hcopies
        all_goals
          rw [hp] at hpayload
          cases hpayload
      · intro hkeeps
        by_contra hshows
        exact hkeeps (.resync _ _ hreached hp hshows)
    | toolCompleted toolId output success durationMs completedAt =>
      rw [applyPayload, hp]
      refine (resultOf_contract_iff "orphan_tool_completed" "ToolCompleted without an active turn"
        toolId _ _).trans (not_congr ?_)
      constructor
      · rintro ⟨turn, hadds⟩
        exact .lateResult _ _ _ _ _ turn hreached hp hadds
      · rintro (⟨-, hforeign, -⟩ | ⟨_, _, -, hpayload, -⟩ |
          ⟨_, _, _, _, _, turn, -, hpayload, hadds⟩ | ⟨_, _, _, _, -, hpayload, -⟩)
        · exact absurd hforeign hscope
        · rw [hp] at hpayload
          cases hpayload
        · rw [hp] at hpayload
          cases hpayload
          exact ⟨turn, hadds⟩
        · rw [hp] at hpayload
          cases hpayload
    | toolFailed toolId error completedAt =>
      rw [applyPayload, hp]
      refine (resultOf_contract_iff "orphan_tool_failed" "ToolFailed without an active turn"
        toolId _ _).trans (not_congr ?_)
      constructor
      · rintro ⟨turn, hadds⟩
        exact .lateFailure _ _ _ turn hreached hp hadds
      · rintro (⟨-, hforeign, -⟩ | ⟨_, _, -, hpayload, -⟩ | ⟨_, _, _, _, _, _, -, hpayload, -⟩ |
          ⟨_, _, _, turn, -, hpayload, hadds⟩)
        · exact absurd hforeign hscope
        · rw [hp] at hpayload
          cases hpayload
        · rw [hp] at hpayload
          cases hpayload
        · rw [hp] at hpayload
          cases hpayload
          exact ⟨turn, hadds⟩
    | _ => simp [hp, mayBreak] at hbreak

/-- An input that is not in scope, or whose payload is not looked at, is none of them. -/
theorem not_breaks {debug : Option String → String} {config : ReducerConfig}
    (hforeign : ¬(versionSupported config input.protocolVersion = true ∧
      checkScope s input config = false)) (hreached : ¬Reached s input config) :
    ¬Breaks s input debug config := by
  rintro (⟨hversion, hscope, -⟩ | ⟨_, _, hpayload, -, -⟩ | ⟨_, _, _, _, _, _, hpayload, -, -⟩ |
    ⟨_, _, _, _, hpayload, -, -⟩)
  · exact hforeign ⟨hversion, hscope⟩
  · exact hreached hpayload
  · exact hreached hpayload
  · exact hreached hpayload

/-- Every outcome keeps its promise, except on the inputs that break it. -/
theorem apply_contract_iff (debug : Option String → String) (config : ReducerConfig)
    (s : SessionProjectionSnapshot) (input : ReducerEventInput) :
    OutcomeContract s (apply s input debug config) ↔ ¬Breaks s input debug config := by
  rw [apply]
  by_cases hversion : versionSupported config input.protocolVersion = true
  · rw [if_neg (not_not.mpr hversion)]
    by_cases hscope : checkScope s input config = true
    · rw [if_neg (not_not.mpr hscope)]
      by_cases hseq : input.eventSeq ≤ s.eventSeq
      · have hkept : ¬Breaks s input debug config := by
          refine not_breaks ?_ fun hreached => absurd hreached.newer (not_lt.mpr hseq)
          rintro ⟨-, hforeign⟩
          rw [hscope] at hforeign
          cases hforeign
        refine iff_of_true ?_ hkept
        split_ifs <;> rfl
      · have hreached : Reached s input config := ⟨hversion, hscope, not_le.mp hseq⟩
        rw [if_neg fun h => hseq h.1, if_neg hseq]
        exact applyPayload_contract_iff debug hreached
    · rw [if_pos hscope]
      have hforeign : checkScope s input config = false := by simpa using hscope
      refine (pushDiagnostic_eq_self_iff (d := scopeDiagnostic s input debug)).trans ?_
      constructor
      · rintro hcopies (⟨-, -, hshows⟩ | ⟨_, _, hreached, -, -⟩ |
          ⟨_, _, _, _, _, _, hreached, -, -⟩ | ⟨_, _, _, _, hreached, -, -⟩)
        · exact hshows hcopies
        · exact hscope hreached.scope
        · exact hscope hreached.scope
        · exact hscope hreached.scope
      · intro hkeeps
        by_contra hshows
        exact hkeeps (.foreign hversion hforeign hshows)
  · rw [if_pos hversion]
    exact iff_of_true rfl (not_breaks (fun h => hversion h.1) fun hreached =>
      hversion hreached.version)

/-- A snapshot in the middle of a turn without tools. -/
def midTurn : SessionProjectionSnapshot :=
  { empty "session" "project" "workspace" with
    activeTurn := some {
      turnId := "turn"
      status := .active
      startedAt := 0
      updatedAt := 0
      stopReason := none
      error := none
      messages := []
      tools := []
      pendingPermissions := []
      pendingQuestions := []
      agentTree := []
      subagentCount := 0
      inputTokens := none
      outputTokens := none
      cachedTokens := none
      reasoningTokens := none
      contextLimit := none } }

def firstInput (sessionId : String) (payload : ProjectionEvent) : ReducerEventInput where
  protocolVersion := projectionProtocolVersion
  eventSeq := 1
  timestampMs := 0
  sessionId := some sessionId
  turnId := none
  payload := payload

/-- The `{:?}` form of an identifier without quotes in it. -/
def debugId : Option String → String
  | none => "None"
  | some id => "Some(\"" ++ id ++ "\")"

/-- A foreign input, a resync signal and the result of an unknown tool each change more than
their outcome says. -/
theorem outcomes_broken :
    ¬OutcomeContract midTurn
        (apply midTurn (firstInput "other" (.diagnostic "code" "message")) debugId {}) ∧
      ¬OutcomeContract midTurn
        (apply midTurn (firstInput "session" (.resyncRequired 0 5)) debugId {}) ∧
      ¬OutcomeContract midTurn
        (apply midTurn (firstInput "session" (.toolFailed "tool" "late" 0)) debugId {}) := by
  refine ⟨fun h => ?_, fun h => ?_, ?_⟩
  · have hlength := congrArg (fun t : SessionProjectionSnapshot => t.diagnostics.length) h
    exact absurd hlength (by decide)
  · have hlength := congrArg (fun t : SessionProjectionSnapshot => t.diagnostics.length) h
    exact absurd hlength (by decide)
  · rintro ⟨diagnostics, eventSeq, generatedAtMs, hsame⟩
    have htools : (apply midTurn (firstInput "session" (.toolFailed "tool" "late" 0)) debugId
        {}).2.activeTurn.map (fun turn => turn.tools.length) =
        midTurn.activeTurn.map fun turn => turn.tools.length :=
      congrArg (fun t : SessionProjectionSnapshot =>
        t.activeTurn.map fun turn => turn.tools.length) hsame
    exact absurd htools (by decide)

end ProjectionReducer

end Codegg.Projection
