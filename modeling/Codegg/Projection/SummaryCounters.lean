import Codegg.Projection.Outcomes
import Codegg.Projection.ReducerBounds

/-!
# The counters of the session summary

The summary of a session says whether a turn is active, how many of its permissions and
questions are unresolved and how many subagents run. Every payload changes these numbers and
what they count on its own. Seen from them, a snapshot is a small state; the payloads that
can bring it out of balance are named one by one, each with the condition under which it
does not.
-/
namespace Codegg.Projection

open Codegg.Library SessionProjectionSnapshot TurnProjection

/-- How many of a list are unresolved. -/
def pendingCount {α : Type} (status : α → PermissionStatus) (l : List α) : ℕ :=
  (l.filter fun x => status x == .pending).length

/-- What a turn waits for. -/
structure Waiting where
  status : TurnStatus
  permissions : ℕ
  questions : ℕ
  deriving DecidableEq

/-- The counters of the summary, and what they count. -/
structure CounterView where
  hasActiveTurn : Bool
  permissions : ℕ
  questions : ℕ
  activeSubagents : ℕ
  turn : Option Waiting
  running : ℕ

def TurnProjection.waiting (turn : TurnProjection) : Waiting where
  status := turn.status
  permissions := pendingCount (·.status) turn.pendingPermissions
  questions := pendingCount (·.status) turn.pendingQuestions

namespace SessionProjectionSnapshot

def runningSubagents (s : SessionProjectionSnapshot) : ℕ :=
  (s.subagents.filter fun n => n.status == .running).length

def counters (s : SessionProjectionSnapshot) : CounterView where
  hasActiveTurn := s.primarySession.hasActiveTurn
  permissions := s.primarySession.pendingPermissionCount
  questions := s.primarySession.pendingQuestionCount
  activeSubagents := s.primarySession.activeSubagents
  turn := s.activeTurn.map waiting
  running := s.runningSubagents

end SessionProjectionSnapshot

/-! ### Balance -/

/-- While something is unresolved, the status says that the turn waits for it. -/
def Waiting.Named (w : Waiting) : Prop :=
  0 < w.permissions ∨ 0 < w.questions →
    (w.status = .awaitingPermission ∧ 0 < w.permissions) ∨
      (w.status = .awaitingQuestion ∧ 0 < w.questions)

instance (w : Waiting) : Decidable w.Named := inferInstanceAs (Decidable (_ → _))

variable {w : Waiting} {code message : String} {turn : TurnProjection}

namespace CounterView

/-- No turn has nothing unresolved. -/
def openPermissions (v : CounterView) : ℕ := v.turn.elim 0 Waiting.permissions

def openQuestions (v : CounterView) : ℕ := v.turn.elim 0 Waiting.questions

/-- The counters say what there is. -/
structure Balanced (v : CounterView) : Prop where
  hasActiveTurn : v.hasActiveTurn = v.turn.isSome
  permissions : v.permissions = v.openPermissions
  questions : v.questions = v.openQuestions
  named : ∀ w, v.turn = some w → w.Named
  subagents : v.activeSubagents = v.running

variable {v : CounterView}

theorem Balanced.recount (h : v.Balanced) (running : ℕ) :
    Balanced { v with activeSubagents := running, running := running } :=
  ⟨h.hasActiveTurn, h.permissions, h.questions, h.named, rfl⟩

theorem balanced_activeSubagents_iff (h : v.Balanced) (n : ℕ) :
    Balanced { v with activeSubagents := n } ↔ n = v.running := by
  constructor
  · intro h'
    exact h'.subagents
  · intro hn
    exact ⟨h.hasActiveTurn, h.permissions, h.questions, h.named, hn⟩

/-- A turn takes the place of another. -/
theorem balanced_start_iff (h : v.Balanced) (w : Waiting) :
    Balanced { v with hasActiveTurn := true, turn := some w } ↔
      w.permissions = v.openPermissions ∧ w.questions = v.openQuestions ∧ w.Named := by
  constructor
  · intro h'
    exact ⟨h'.permissions.symm.trans h.permissions, h'.questions.symm.trans h.questions,
      h'.named w rfl⟩
  · rintro ⟨hp, hq, hw⟩
    refine ⟨rfl, h.permissions.trans hp.symm, h.questions.trans hq.symm, ?_, h.subagents⟩
    rintro w' ⟨rfl⟩
    exact hw

/-- A turn ends. -/
theorem balanced_close_iff (h : v.Balanced) :
    Balanced { v with hasActiveTurn := false, turn := none } ↔
      v.openPermissions = 0 ∧ v.openQuestions = 0 := by
  constructor
  · intro h'
    exact ⟨h.permissions.symm.trans h'.permissions, h.questions.symm.trans h'.questions⟩
  · rintro ⟨hp, hq⟩
    refine ⟨rfl, h.permissions.trans hp, h.questions.trans hq, ?_, h.subagents⟩
    rintro w ⟨⟩

/-- The unresolved permissions are counted anew. -/
theorem balanced_permissions_iff (h : v.Balanced) (hw : v.turn = some w) (status : TurnStatus)
    (n : ℕ) :
    Balanced { v with permissions := n, turn := some ⟨status, n, w.questions⟩ } ↔
      Waiting.Named ⟨status, n, w.questions⟩ := by
  have hactive := h.hasActiveTurn
  have hquestions := h.questions
  rw [hw] at hactive
  rw [openQuestions, hw] at hquestions
  constructor
  · intro h'
    exact h'.named _ rfl
  · intro hnamed
    refine ⟨hactive, rfl, hquestions, ?_, h.subagents⟩
    rintro w' ⟨rfl⟩
    exact hnamed

theorem balanced_questions_iff (h : v.Balanced) (hw : v.turn = some w) (status : TurnStatus) (n : ℕ)
    :
    Balanced { v with questions := n, turn := some ⟨status, w.permissions, n⟩ } ↔
      Waiting.Named ⟨status, w.permissions, n⟩ := by
  have hactive := h.hasActiveTurn
  have hpermissions := h.permissions
  rw [hw] at hactive
  rw [openPermissions, hw] at hpermissions
  constructor
  · intro h'
    exact h'.named _ rfl
  · intro hnamed
    refine ⟨hactive, hpermissions, rfl, ?_, h.subagents⟩
    rintro w' ⟨rfl⟩
    exact hnamed

end CounterView

namespace Waiting

theorem named_awaitingPermission_iff (p q : ℕ) :
    Named ⟨.awaitingPermission, p, q⟩ ↔ (0 < q → 0 < p) := by
  simp only [Named]
  tauto

theorem named_awaitingQuestion_iff (p q : ℕ) :
    Named ⟨.awaitingQuestion, p, q⟩ ↔ (0 < p → 0 < q) := by
  simp only [Named]
  tauto

/-- Of `left` things of one kind still unresolved, where there were `before`, and `others` of
the other kind: the turn goes back to work with nothing left, and waits on otherwise. -/
def GoesOn (awaiting status : TurnStatus) (left before others : ℕ) : Prop :=
  if left = 0 then others = 0 else 0 < before ∨ 0 < others ∨ status = awaiting

theorem named_permission_resolved_iff (h : w.Named) (left : ℕ) :
    Named ⟨if left = 0 then .active else w.status, left, w.questions⟩ ↔
      GoesOn .awaitingPermission w.status left w.permissions w.questions := by
  rw [GoesOn]
  split_ifs with hleft
  · simp only [Named, false_or, reduceCtorEq, false_and, imp_false]
    omega
  · simp only [Named] at h ⊢
    have hpos : 0 < left := Nat.pos_of_ne_zero hleft
    tauto

theorem named_question_resolved_iff (h : w.Named) (left : ℕ) :
    Named ⟨if left = 0 then .active else w.status, w.permissions, left⟩ ↔
      GoesOn .awaitingQuestion w.status left w.questions w.permissions := by
  rw [GoesOn]
  split_ifs with hleft
  · simp only [Named, or_false, reduceCtorEq, false_and, imp_false]
    omega
  · simp only [Named] at h ⊢
    have hpos : 0 < left := Nat.pos_of_ne_zero hleft
    tauto

end Waiting

/-! ### What a payload does to the counters -/

namespace ProjectionReducer

/-- How many runs are live once a run has taken a status. -/
def liveAfter (runs : List AgentRunSummary) (runId status : String) : ℕ :=
  ((upsert maxProjectionAgentRuns (fun slot => slot.runId == runId)
    (fun slot => { slot with status := status }) runs
    { runId := runId, status := status }).filter fun r =>
      liveRunStatuses.contains r.status).length

/-- The permissions of a turn once one of them has taken a status. -/
def permissionsAfter (turn : TurnProjection) (permissionId : String) (status : PermissionStatus)
    (resolvedAt : ℤ) : List PermissionProjection :=
  (updateFirst (fun p => p.permissionId == permissionId)
    (fun p => { p with status := status, resolvedAt := some resolvedAt })
    turn.pendingPermissions).getD turn.pendingPermissions

def questionsAfter (turn : TurnProjection) (questionId : String) (status : PermissionStatus)
    (resolvedAt : ℤ) : List QuestionProjection :=
  (updateFirst (fun q => q.questionId == questionId)
    (fun q => { q with status := status, resolvedAt := some resolvedAt })
    turn.pendingQuestions).getD turn.pendingQuestions

/-- The condition under which a payload keeps the counters in balance. -/
def KeepsBalance (s : SessionProjectionSnapshot) : ProjectionEvent → Prop
  | .sessionActivated summary => summary.sessionId = s.primarySessionId →
    summary.hasActiveTurn = s.activeTurn.isSome ∧
      summary.pendingPermissionCount = s.counters.openPermissions ∧
      summary.pendingQuestionCount = s.counters.openQuestions ∧
      summary.activeSubagents = s.runningSubagents
  | .turnStarted turn =>
    turn.waiting.permissions = s.counters.openPermissions ∧
      turn.waiting.questions = s.counters.openQuestions ∧ turn.waiting.Named
  | .permissionPending permission => ∀ turn, s.activeTurn = some turn →
    0 < turn.waiting.questions → 0 < pendingCount (·.status)
      (pushBounded maxProjectionPendingPermissions turn.pendingPermissions permission)
  | .questionPending question => ∀ turn, s.activeTurn = some turn →
    0 < turn.waiting.permissions → 0 < pendingCount (·.status)
      (pushBounded maxProjectionPendingQuestions turn.pendingQuestions question)
  | .permissionResolved permissionId status resolvedAt => ∀ turn, s.activeTurn = some turn →
    Waiting.GoesOn .awaitingPermission turn.status
      (pendingCount (·.status) (permissionsAfter turn permissionId status resolvedAt))
      turn.waiting.permissions turn.waiting.questions
  | .questionResolved questionId status resolvedAt => ∀ turn, s.activeTurn = some turn →
    Waiting.GoesOn .awaitingQuestion turn.status
      (pendingCount (·.status) (questionsAfter turn questionId status resolvedAt))
      turn.waiting.questions turn.waiting.permissions
  | .turnCompleted turnId _ _ _ _ _ _ _ => ∀ turn, s.activeTurn = some turn →
    turn.turnId = turnId → turn.waiting.permissions = 0 ∧ turn.waiting.questions = 0
  | .turnFailed turnId _ _ => ∀ turn, s.activeTurn = some turn →
    turn.turnId = turnId → turn.waiting.permissions = 0 ∧ turn.waiting.questions = 0
  | .agentRunUpserted run =>
    liveAfter s.agentRuns run.normalise.runId run.normalise.status = s.runningSubagents
  | .agentRunTerminal runId status _ _ _ _ _ =>
    liveAfter s.agentRuns (truncateStr runId maxProjectionStringBytes)
      (truncateStr status maxProjectionStringBytes) = s.runningSubagents
  | _ => True

variable {s : SessionProjectionSnapshot} {input : ReducerEventInput} {r : Reduction}

/-- The counters and what they count stay as they are. -/
def KeepsCounters (s : SessionProjectionSnapshot) (r : Reduction) : Prop :=
  r.2.counters = s.counters

theorem KeepsCounters.onActiveTurn {f : TurnProjection → Reduction}
    (hf : ∀ turn, s.activeTurn = some turn → KeepsCounters s (f turn)) :
    KeepsCounters s (onActiveTurn s input code message f) := by
  rw [ProjectionReducer.onActiveTurn]
  cases hturn : s.activeTurn with
  | none => rfl
  | some turn => exact hf turn hturn

/-- A change of the active turn that waits for the same. -/
theorem KeepsCounters.setTurn {turn' : TurnProjection} {outcome : ApplyOutcome}
    (hturn : s.activeTurn = some turn) (hwaiting : turn'.waiting = turn.waiting) :
    KeepsCounters s (outcome, { s with activeTurn := some turn' }) := by
  rw [KeepsCounters, counters, counters, hturn,
    Option.map_some, hwaiting]
  rfl

/-- A change of every turn that waits for the same. -/
theorem map_waiting {f : TurnProjection → TurnProjection}
    (hf : ∀ turn, (f turn).waiting = turn.waiting) (turn : Option TurnProjection) :
    (turn.map f).map waiting = turn.map waiting := by
  cases turn with
  | none => rfl
  | some turn => exact congrArg some (hf turn)

theorem KeepsCounters.mapTurn {f : TurnProjection → TurnProjection} {outcome : ApplyOutcome}
    (hf : ∀ turn, (f turn).waiting = turn.waiting) :
    KeepsCounters s (outcome, { s with activeTurn := s.activeTurn.map f }) :=
  congrArg (fun turn : Option Waiting => ({ s.counters with turn := turn } : CounterView))
    (map_waiting hf s.activeTurn)

theorem KeepsCounters.balanced (h : KeepsCounters s r) (hs : s.counters.Balanced) :
    r.2.counters.Balanced := by
  rw [h]
  exact hs

theorem KeepsCounters.updateRun {runId : String} {f : RunProjection → RunProjection} :
    KeepsCounters s (updateRun s input runId code message f) := by
  rw [ProjectionReducer.updateRun]
  split <;> rfl

theorem KeepsCounters.updateProgram {programId : String}
    {f : ToolProgramSummary → ToolProgramSummary} :
    KeepsCounters s (updateProgram s input programId code message f) := by
  rw [ProjectionReducer.updateProgram]
  split <;> rfl

theorem subagentProgress_keepsCounters (childInstanceId : String) (taskId : ℕ)
    (message : String) :
    KeepsCounters s (subagentProgress s input childInstanceId taskId message) := by
  rw [subagentProgress]
  split
  · next subagents hup =>
    split at hup
    · cases hup
    · have hstatus : subagents.map (·.status) = s.subagents.map (·.status) :=
        map_updateFirst_eq (fun n => by split <;> rfl) hup
      rw [KeepsCounters, counters,
        runningSubagents,
        length_filter_congr (· == AgentTreeStatus.running) hstatus]
      rfl
  · cases hturn : s.activeTurn with
    | none => rfl
    | some turn =>
      dsimp only
      split
      · exact .setTurn hturn rfl
      · rfl

theorem tokenUsageUpdated_keepsCounters (inputTokens outputTokens : Option ℕ) :
    KeepsCounters s (tokenUsageUpdated s inputTokens outputTokens) := by
  have hturn : KeepsCounters s (.applied, { s with
      activeTurn := s.activeTurn.map fun turn => { turn with
        inputTokens := inputTokens
        outputTokens := outputTokens } }) := .mapTurn fun _ => rfl
  exact hturn

/-- A payload without effect on the counters. -/
def isQuiet : ProjectionEvent → Bool
  | .sessionActivated _ => false
  | .turnStarted _ => false
  | .permissionPending _ => false
  | .permissionResolved .. => false
  | .questionPending _ => false
  | .questionResolved .. => false
  | .turnCompleted .. => false
  | .turnFailed .. => false
  | .subagentStarted _ => false
  | .subagentCompleted .. => false
  | .subagentFailed .. => false
  | .agentRunUpserted _ => false
  | .agentRunTerminal .. => false
  | _ => true

theorem applyPayload_keepsCounters (h : isQuiet input.payload = true) :
    KeepsCounters s (applyPayload s input) := by
  rw [applyPayload]
  cases hp : input.payload with
  | sessionActivated | turnStarted | permissionPending | permissionResolved | questionPending
  | questionResolved | turnCompleted | turnFailed | subagentStarted | subagentCompleted
  | subagentFailed | agentRunUpserted | agentRunTerminal => simp [hp, isQuiet] at h
  | messageAppended | toolStarted => exact .onActiveTurn fun turn hturn => .setTurn hturn rfl
  | reasoningAppended =>
    refine .onActiveTurn fun turn hturn => ?_
    dsimp only
    split <;> exact .setTurn hturn rfl
  | toolCompleted | toolFailed =>
    refine .onActiveTurn fun turn hturn => ?_
    split <;> exact .setTurn hturn rfl
  | subagentProgress childInstanceId taskId message time =>
    exact subagentProgress_keepsCounters childInstanceId taskId message
  | agentRunProgress | agentRunControlUpdated =>
    dsimp only [agentRunProgress, agentRunControlUpdated]
    split <;> rfl
  | runProgress | runCompleted | runDenied => exact .updateRun
  | toolProgramProgress | toolProgramWaitingForCall | toolProgramWaitingForJob
  | toolProgramRetryBackoff => exact .updateProgram
  | tokenUsageUpdated inputTokens outputTokens =>
    exact tokenUsageUpdated_keepsCounters inputTokens outputTokens
  | _ => rfl

/-! ### Turns that wait -/

/-- Texts are cut, which no counter sees. -/
theorem waiting_normalise (turn : TurnProjection) : turn.normalise.waiting = turn.waiting := by
  have hpermissions : (turn.pendingPermissions.map PermissionProjection.normalise).map (·.status) =
      turn.pendingPermissions.map (·.status) := by
    rw [List.map_map]
    rfl
  have hquestions : (turn.pendingQuestions.map QuestionProjection.normalise).map (·.status) =
      turn.pendingQuestions.map (·.status) := by
    rw [List.map_map]
    rfl
  rw [waiting, waiting, pendingCount, pendingCount, pendingCount,
    pendingCount, normalise,
    length_filter_congr (· == PermissionStatus.pending) hpermissions,
    length_filter_congr (· == PermissionStatus.pending) hquestions]

theorem turnStarted_balanced_iff (h : s.counters.Balanced) (turn : TurnProjection) :
    (turnStarted s input turn).2.counters.Balanced ↔ KeepsBalance s (.turnStarted turn) := by
  have hcounters : (turnStarted s input turn).2.counters =
      { s.counters with hasActiveTurn := true, turn := some turn.waiting } := by
    rw [← waiting_normalise turn, turnStarted]
    cases s.activeTurn <;> rfl
  rw [hcounters, CounterView.balanced_start_iff h]
  rfl

theorem sessionActivated_balanced_iff (h : s.counters.Balanced)
    (summary : SessionSummaryProjection) :
    (sessionActivated s summary).2.counters.Balanced ↔
      KeepsBalance s (.sessionActivated summary) := by
  rw [sessionActivated, KeepsBalance]
  by_cases hid : summary.sessionId = s.primarySessionId
  · have hid' : summary.normalise.sessionId = s.primarySessionId := hid
    rw [if_pos hid', imp_iff_right hid]
    constructor
    · intro h'
      exact ⟨h'.hasActiveTurn.trans (Option.isSome_map ..), h'.permissions, h'.questions,
        h'.subagents⟩
    · rintro ⟨hactive, hpermissions, hquestions, hsubagents⟩
      exact ⟨hactive.trans (Option.isSome_map ..).symm, hpermissions, hquestions, h.named,
        hsubagents⟩
  · have hid' : summary.normalise.sessionId ≠ s.primarySessionId := hid
    rw [if_neg hid']
    exact iff_of_true h fun heq => absurd heq hid

/-- An event about the active turn leaves the counters when there is none. -/
theorem onActiveTurn_balanced_iff (h : s.counters.Balanced) {f : TurnProjection → Reduction}
    {P : TurnProjection → Prop}
    (hf : ∀ turn, s.activeTurn = some turn → ((f turn).2.counters.Balanced ↔ P turn)) :
    (onActiveTurn s input code message f).2.counters.Balanced ↔
      ∀ turn, s.activeTurn = some turn → P turn := by
  rw [onActiveTurn]
  cases hturn : s.activeTurn with
  | none => exact iff_of_true h (by simp)
  | some turn =>
    refine (hf turn hturn).trans ⟨fun hP turn' heq => ?_, fun hP => hP turn rfl⟩
    exact Option.some.inj heq ▸ hP

theorem counters_turn (hturn : s.activeTurn = some turn) :
    s.counters.turn = some turn.waiting := by
  rw [counters, hturn, Option.map_some]

theorem setPermissions_balanced_iff (h : s.counters.Balanced) (hturn : s.activeTurn = some turn)
    (permissions : List PermissionProjection) (status : TurnStatus) :
    (setPermissions s turn permissions status).counters.Balanced ↔
      Waiting.Named ⟨status, pendingCount (·.status) permissions, turn.waiting.questions⟩ :=
  CounterView.balanced_permissions_iff h (counters_turn hturn) status _

theorem setQuestions_balanced_iff (h : s.counters.Balanced) (hturn : s.activeTurn = some turn)
    (questions : List QuestionProjection) (status : TurnStatus) :
    (setQuestions s turn questions status).counters.Balanced ↔
      Waiting.Named ⟨status, turn.waiting.permissions, pendingCount (·.status) questions⟩ :=
  CounterView.balanced_questions_iff h (counters_turn hturn) status _

theorem named_of_balanced (h : s.counters.Balanced) (hturn : s.activeTurn = some turn) :
    turn.waiting.Named :=
  h.named _ (counters_turn hturn)

/-- Nothing is unresolved exactly when the count of it is zero. -/
theorem pendingCount_eq_zero_iff {α : Type} {status : α → PermissionStatus} {l : List α} :
    pendingCount status l = 0 ↔ (l.all fun x => status x != .pending) = true := by
  rw [pendingCount]
  simp

/-- What arrives is counted as it came. -/
theorem pendingCount_push {α : Type} {status : α → PermissionStatus} {cap : ℕ} {l : List α}
    {x x' : α} (hx : status x' = status x) :
    pendingCount status (pushBounded cap l x') = pendingCount status (pushBounded cap l x) := by
  have hstatus : (pushBounded cap l x').map status = (pushBounded cap l x).map status := by
    rw [map_pushBounded, map_pushBounded, hx]
  exact length_filter_congr (· == PermissionStatus.pending) hstatus

theorem permissionPending_balanced_iff (h : s.counters.Balanced)
    (permission : PermissionProjection) :
    (permissionPending s input permission).2.counters.Balanced ↔
      KeepsBalance s (.permissionPending permission) := by
  refine onActiveTurn_balanced_iff h fun turn hturn => ?_
  have hpush : pendingCount (·.status) (pushBounded maxProjectionPendingPermissions
      turn.pendingPermissions permission.normalise) = pendingCount (·.status)
      (pushBounded maxProjectionPendingPermissions turn.pendingPermissions permission) :=
    pendingCount_push rfl
  rw [setPermissions_balanced_iff h hturn, Waiting.named_awaitingPermission_iff, hpush]

theorem questionPending_balanced_iff (h : s.counters.Balanced) (question : QuestionProjection) :
    (questionPending s input question).2.counters.Balanced ↔
      KeepsBalance s (.questionPending question) := by
  refine onActiveTurn_balanced_iff h fun turn hturn => ?_
  have hpush : pendingCount (·.status) (pushBounded maxProjectionPendingQuestions
      turn.pendingQuestions question.normalise) = pendingCount (·.status)
      (pushBounded maxProjectionPendingQuestions turn.pendingQuestions question) :=
    pendingCount_push rfl
  rw [setQuestions_balanced_iff h hturn, Waiting.named_awaitingQuestion_iff, hpush]

theorem permissionResolved_balanced_iff (h : s.counters.Balanced) (permissionId : String)
    (status : PermissionStatus) (resolvedAt : ℤ) :
    (permissionResolved s input permissionId status resolvedAt).2.counters.Balanced ↔
      KeepsBalance s (.permissionResolved permissionId status resolvedAt) := by
  refine onActiveTurn_balanced_iff h fun turn hturn => ?_
  rw [setPermissions_balanced_iff h hturn]
  simp only [← pendingCount_eq_zero_iff]
  exact Waiting.named_permission_resolved_iff (named_of_balanced h hturn) _

theorem questionResolved_balanced_iff (h : s.counters.Balanced) (questionId : String)
    (status : PermissionStatus) (resolvedAt : ℤ) :
    (questionResolved s input questionId status resolvedAt).2.counters.Balanced ↔
      KeepsBalance s (.questionResolved questionId status resolvedAt) := by
  refine onActiveTurn_balanced_iff h fun turn hturn => ?_
  rw [setQuestions_balanced_iff h hturn]
  simp only [← pendingCount_eq_zero_iff]
  exact Waiting.named_question_resolved_iff (named_of_balanced h hturn) _

/-- The active turn ends, whatever becomes of it. -/
theorem closeTurn_balanced_iff (h : s.counters.Balanced) (hturn : s.activeTurn = some turn)
    (turn' : TurnProjection) (time : ℤ) :
    (closeTurn s turn' time).counters.Balanced ↔
      turn.waiting.permissions = 0 ∧ turn.waiting.questions = 0 := by
  have hclosed := CounterView.balanced_close_iff h
  rw [CounterView.openPermissions, CounterView.openQuestions, counters_turn hturn] at hclosed
  exact hclosed

theorem turnEnded_balanced_iff (h : s.counters.Balanced) {turnId : String}
    (hturn : s.activeTurn = some turn) (turn' : TurnProjection) (time : ℤ) :
    (if turn.turnId ≠ turnId then recordDiagnostic s input code message
      else (.applied, closeTurn s turn' time) : Reduction).2.counters.Balanced ↔
      (turn.turnId = turnId → turn.waiting.permissions = 0 ∧ turn.waiting.questions = 0) := by
  by_cases hid : turn.turnId = turnId
  · rw [if_neg (not_not.mpr hid), imp_iff_right hid]
    exact closeTurn_balanced_iff h hturn turn' time
  · rw [if_pos hid]
    exact iff_of_true h fun heq => absurd heq hid

/-! ### Subagents and runs -/

theorem countRunningSubagents_balanced {s' : SessionProjectionSnapshot}
    (h : s.counters.Balanced) (hsummary : s'.primarySession = s.primarySession)
    (hturn : s'.activeTurn.map waiting =
      s.activeTurn.map waiting) :
    (countRunningSubagents s').counters.Balanced := by
  have hcounters : (countRunningSubagents s').counters =
      { s.counters with
        activeSubagents := s'.runningSubagents
        running := s'.runningSubagents } := by
    simp [countRunningSubagents, counters,
      runningSubagents, hsummary, hturn]
  rw [hcounters]
  exact h.recount _

theorem subagentStarted_balanced (h : s.counters.Balanced) (node : AgentTreeNodeProjection) :
    (subagentStarted s input node).2.counters.Balanced := by
  rw [subagentStarted]
  split
  · refine KeepsCounters.balanced (.mapTurn fun turn => ?_) h
    rfl
  · split
    · exact h
    · next s' hup =>
      obtain ⟨l, rfl⟩ := upsertSubagent_eq hup
      refine countRunningSubagents_balanced h rfl (map_waiting (fun turn => ?_) s.activeTurn)
      rw [attachToTurn]
      split <;> rfl

theorem subagentTerminal_balanced (h : s.counters.Balanced) (childInstanceId : String)
    (taskId : ℕ) (status : AgentTreeStatus) (summary : String) (time : ℤ)
    (code message : String) :
    (subagentTerminal s input childInstanceId taskId status summary time code
      message).2.counters.Balanced := by
  rw [subagentTerminal]
  split
  · refine countRunningSubagents_balanced h rfl (map_waiting (fun turn => ?_) s.activeTurn)
    rw [updateTree]
    cases updateFirst (namesNode childInstanceId taskId) _ turn.agentTree <;> rfl
  · next hfound =>
    rw [updateSubagentTerminal_of_not_found (by simpa using hfound)]
    exact h

theorem live_upsertAgentRun (run : AgentRunSummary) :
    ((s.upsertAgentRun run).agentRuns.filter fun r => liveRunStatuses.contains r.status).length =
      liveAfter s.agentRuns run.normalise.runId run.normalise.status := by
  refine length_filter_congr (g := AgentRunSummary.status) liveRunStatuses.contains ?_
  exact map_upsert_congr (fun _ => rfl) rfl

theorem countLiveRuns_balanced_iff (h : s.counters.Balanced) (run : AgentRunSummary) :
    (countLiveRuns (s.upsertAgentRun run)).counters.Balanced ↔
      liveAfter s.agentRuns run.normalise.runId run.normalise.status = s.runningSubagents := by
  have hcounters : (countLiveRuns (s.upsertAgentRun run)).counters =
      { s.counters with
        activeSubagents := liveAfter s.agentRuns run.normalise.runId run.normalise.status } := by
    rw [← live_upsertAgentRun]
    rfl
  rw [hcounters, CounterView.balanced_activeSubagents_iff h]
  rfl

theorem agentRunTerminal_balanced_iff (h : s.counters.Balanced)
    (runId status terminalSummary : String) (resultCommit validationSummary : Option String)
    (attentionRequired : Bool) (completedAt : ℤ) :
    (agentRunTerminal s runId status terminalSummary resultCommit validationSummary
      attentionRequired completedAt).2.counters.Balanced ↔
      KeepsBalance s (.agentRunTerminal runId status terminalSummary resultCommit
        validationSummary attentionRequired completedAt) := by
  rw [agentRunTerminal, countLiveRuns_balanced_iff h, KeepsBalance]
  have hid : ((s.agentRuns.find? fun r => r.runId == runId).getD
      { runId := runId, status := "created" }).runId = runId := by
    cases hfind : s.agentRuns.find? fun r => r.runId == runId with
    | none => rfl
    | some run => simpa using List.find?_some hfind
  simp [AgentRunSummary.normalise, hid,
    truncateStr_of_le (truncateStr_le status maxProjectionStringBytes)]

/-! ### Steps and runs -/

/-- One payload keeps the counters in balance exactly under its condition. -/
theorem applyPayload_balanced_iff (h : s.counters.Balanced) :
    (applyPayload s input).2.counters.Balanced ↔ KeepsBalance s input.payload := by
  cases hquiet : isQuiet input.payload with
  | true =>
    have hkeeps : KeepsBalance s input.payload := by
      cases hp : input.payload <;> first | trivial | simp [hp, isQuiet] at hquiet
    exact iff_of_true ((applyPayload_keepsCounters hquiet).balanced h) hkeeps
  | false =>
    rw [applyPayload]
    cases hp : input.payload with
    | sessionActivated summary => exact sessionActivated_balanced_iff h summary
    | turnStarted turn => exact turnStarted_balanced_iff h turn
    | permissionPending permission => exact permissionPending_balanced_iff h permission
    | permissionResolved permissionId status resolvedAt =>
      exact permissionResolved_balanced_iff h permissionId status resolvedAt
    | questionPending question => exact questionPending_balanced_iff h question
    | questionResolved questionId status resolvedAt =>
      exact questionResolved_balanced_iff h questionId status resolvedAt
    | turnCompleted | turnFailed =>
      exact onActiveTurn_balanced_iff h fun turn hturn => turnEnded_balanced_iff h hturn _ _
    | subagentStarted node => exact iff_of_true (subagentStarted_balanced h node) trivial
    | subagentCompleted | subagentFailed =>
      exact iff_of_true (subagentTerminal_balanced h _ _ _ _ _ _ _) trivial
    | agentRunUpserted run => exact countLiveRuns_balanced_iff h run
    | agentRunTerminal runId status terminalSummary resultCommit validationSummary
        attentionRequired completedAt =>
      exact agentRunTerminal_balanced_iff h runId status terminalSummary resultCommit
        validationSummary attentionRequired completedAt
    | _ => simp [hp, isQuiet] at hquiet

theorem counters_stamp (r : Reduction) : (stamp input r).2.counters = r.2.counters := by
  rw [stamp]
  split <;> rfl

variable {debug : Option String → String} {config : ReducerConfig}

/-- So does one input, whose payload matters only when it is looked at. -/
theorem apply_balanced_iff (h : s.counters.Balanced) :
    (apply s input debug config).2.counters.Balanced ↔
      (Reached s input config → KeepsBalance s input.payload) := by
  by_cases hreached : Reached s input config
  · rw [apply_of_next hreached.version hreached.scope hreached.newer, counters_stamp,
      imp_iff_right hreached]
    exact applyPayload_balanced_iff h
  · refine iff_of_true ?_ fun h' => absurd h' hreached
    rcases @apply_cases s input debug config with ⟨e, heq⟩ | ⟨-, heq⟩ | ⟨-, heq⟩ |
      ⟨hversion, hscope, hnewer, -⟩
    · rw [heq]
      exact h
    · rw [heq]
      exact h
    · rw [heq]
      exact h
    · exact absurd ⟨hversion, hscope, hnewer⟩ hreached

/-- The snapshot after some inputs. -/
def after (debug : Option String → String) (config : ReducerConfig)
    (s : SessionProjectionSnapshot) (inputs : List ReducerEventInput) :
    SessionProjectionSnapshot :=
  (applyAll debug config s inputs).2

theorem after_concat (s : SessionProjectionSnapshot) (inputs : List ReducerEventInput)
    (input : ReducerEventInput) :
    after debug config s (inputs ++ [input]) =
      (apply (after debug config s inputs) input debug config).2 := by
  rw [after, after, applyAll, applyAll, List.foldl_append, List.foldl_cons, List.foldl_nil]
  split <;> rename_i heq <;> rw [heq]

theorem balanced_empty (sessionId projectId workspaceId : String) :
    (empty sessionId projectId workspaceId).counters.Balanced where
  hasActiveTurn := rfl
  permissions := rfl
  questions := rfl
  named := by rintro w ⟨⟩
  subagents := rfl

/-- In every run from an empty snapshot the counters match in every state reached, as long as
every payload that is looked at keeps them in balance, and no longer. -/
theorem run_balanced_iff (debug : Option String → String) (config : ReducerConfig)
    (sessionId projectId workspaceId : String) (inputs : List ReducerEventInput) :
    (∀ done, done <+: inputs →
      (after debug config (.empty sessionId projectId workspaceId) done).counters.Balanced) ↔
      ∀ done input, done ++ [input] <+: inputs →
        Reached (after debug config (.empty sessionId projectId workspaceId) done) input config →
          KeepsBalance (after debug config (.empty sessionId projectId workspaceId) done)
            input.payload := by
  constructor
  · intro hall done input hdone
    have hbefore := hall done ((List.prefix_append done [input]).trans hdone)
    have hnext := hall (done ++ [input]) hdone
    rw [after_concat] at hnext
    exact (apply_balanced_iff hbefore).mp hnext
  · intro hkeeps done hdone
    induction done using List.reverseRecOn with
    | nil => exact balanced_empty sessionId projectId workspaceId
    | append_singleton done input ih =>
      rw [after_concat]
      exact (apply_balanced_iff (ih ((List.prefix_append done [input]).trans hdone))).mpr
        (hkeeps done input hdone)

def samplePermission : PermissionProjection := ⟨"p", "bash", none, .pending, 0, none⟩

def sampleQuestion : QuestionProjection := ⟨"q", none, "sure?", .pending, 0, none⟩

/-- The empty session `s` after some payloads. -/
def afterPayloads (payloads : List ProjectionEvent) : SessionProjectionSnapshot :=
  after debugId {} (.empty "s" "p" "w") (payloads.mapIdx fun i payload =>
    sampleInput (i + 1) payload)

/-- A turn that ends leaves its unresolved permission in the count; an answered question sets
the turn to work although a permission is unresolved; a live run is counted as a subagent. -/
theorem counters_drift :
    ¬(afterPayloads [.turnStarted (sampleTurnOf 0), .permissionPending samplePermission,
        .turnFailed "t" "stopped" 0]).counters.Balanced ∧
      ¬(afterPayloads [.turnStarted (sampleTurnOf 0), .permissionPending samplePermission,
        .questionPending sampleQuestion, .questionResolved "q" .allowed 0]).counters.Balanced ∧
      ¬(afterPayloads [.agentRunUpserted { runId := "r", status := "running" }]).counters.Balanced := by
  refine ⟨fun h => ?_, fun h => ?_, fun h => ?_⟩
  · exact absurd h.permissions (by decide +kernel)
  · have hturn : (afterPayloads [.turnStarted (sampleTurnOf 0), .permissionPending samplePermission,
        .questionPending sampleQuestion, .questionResolved "q" .allowed 0]).counters.turn =
        some ⟨.active, 1, 0⟩ := by
      decide +kernel
    exact absurd (h.named _ hturn) (by decide)
  · exact absurd h.subagents (by decide +kernel)

end ProjectionReducer

end Codegg.Projection
