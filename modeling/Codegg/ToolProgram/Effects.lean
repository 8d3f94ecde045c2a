import Codegg.Library.StateError
import Codegg.ToolProgram.Interpreter

/-!
# What the instructions can do

One lemma for each building block of the interpreter says what it can change.
Local instructions stay within a `Frame`: they leave the counters alone, except
for the bytes, which stay under their limit. A loop entry counts its items. Calls
leave the stack machine alone while they talk to the broker.
-/
namespace Codegg.ToolProgram

open Codegg.Library

/-- Everything but the operand stack, the locals, the program counter and the
bytes is left alone. -/
structure Frame (limits : RuntimeLimits) (m m' : StackMachine) : Prop where
  steps_eq : m'.budget.steps = m.budget.steps
  calls_eq : m'.budget.calls = m.budget.calls
  iterations_eq : m'.budget.iterations = m.budget.iterations
  inflight_eq : m'.budget.inflightCalls = m.budget.inflightCalls
  seq_eq : m'.nextCallSeq = m.nextCallSeq
  bytes_le : m.budget.bytes ≤ limits.maxValueGrowth → m'.budget.bytes ≤ limits.maxValueGrowth

variable {limits : RuntimeLimits} {m : StackMachine} {s : MeteredInterpreter} {seq : ℕ}

namespace Frame

theorem refl (m : StackMachine) : Frame limits m m :=
  ⟨rfl, rfl, rfl, rfl, rfl, id⟩

theorem trans (a b c : StackMachine) (hab : Frame limits a b) (hbc : Frame limits b c) :
    Frame limits a c where
  steps_eq := hbc.steps_eq.trans hab.steps_eq
  calls_eq := hbc.calls_eq.trans hab.calls_eq
  iterations_eq := hbc.iterations_eq.trans hab.iterations_eq
  inflight_eq := hbc.inflight_eq.trans hab.inflight_eq
  seq_eq := hbc.seq_eq.trans hab.seq_eq
  bytes_le := fun h => hbc.bytes_le (hab.bytes_le h)

/-- A change of the stack, the locals, the program counter or the end flag. -/
theorem of_budget_eq {m' : StackMachine} (hb : m'.budget = m.budget)
    (hs : m'.nextCallSeq = m.nextCallSeq) : Frame limits m m' := by
  constructor
  all_goals first | rw [hb] | rw [hs]
  exact id

end Frame

/-- Sequencing of computations that stay within a frame. -/
theorem frame_bind {α β : Type} {x : Exec α} {f : α → Exec β} (hx : Moves (Frame limits) x)
    (hf : ∀ a, Moves (Frame limits) (f a)) :
    Moves (Frame limits) (x >>= f) :=
  .bind .trans hx hf

theorem moves_ofExcept {σ α : Type} {R : σ → σ → Prop} (hr : ∀ s, R s s)
    (x : Except InterpreterError α) :
    Moves R (ofExcept x : EStateM InterpreterError σ α) := by
  cases x with
  | ok a => exact .pure hr a
  | error e => exact .throw hr e

@[simp] theorem finalState_ofExcept {σ α : Type} (x : Except InterpreterError α) (s : σ) :
    finalState (ofExcept x s) = s := by
  cases x <;> rfl

theorem moves_refuseIf {σ : Type} {R : σ → σ → Prop} (hr : ∀ s, R s s) (p : Prop) [Decidable p]
    (msg : String) : Moves R (refuseIf p msg : EStateM InterpreterError σ Unit) := by
  unfold refuseIf
  split
  · exact .throw hr _
  · exact .pure hr ()

/-- A computation of the stack machine inside the interpreter. -/
theorem meets_onMachine {α : Type} {x : Exec α} {A E : MeteredInterpreter → Prop}
    (hA : A { s with machine := finalState (x s.machine) }) (hE : ∀ s, A s → E s) :
    Meets (fun _ => A) (fun _ => E) (onMachine x s) := by
  unfold onMachine
  cases hx : x s.machine with
  | ok a m =>
    rw [hx] at hA
    exact hA
  | error e m =>
    rw [hx] at hA
    exact hE _ hA

namespace Exec

variable {env : Env}

theorem push_eq (val : ProgramValue) (m : StackMachine) :
    push env val m =
      if m.budget.bytes + val.byteSize env.host.toRendering > env.limits.maxValueGrowth then
        .error (.budgetExceeded ("value bytes " ++ toString m.budget.bytes ++ " + " ++
          toString (val.byteSize env.host.toRendering) ++ " exceeds max " ++
          toString env.limits.maxValueGrowth)) m
      else .ok () { m with
        stack := val :: m.stack
        budget := { m.budget with
          bytes := m.budget.bytes + val.byteSize env.host.toRendering } } := by
  unfold push refuseIf
  rw [get_bind]
  split
  · rw [throw_bind]
  · rfl

theorem frame_push (val : ProgramValue) : Moves (Frame env.limits) (push env val) := by
  intro m
  rw [push_eq]
  split
  · exact .refl m
  · refine ⟨rfl, rfl, rfl, rfl, rfl, fun _ => ?_⟩
    show m.budget.bytes + val.byteSize env.host.toRendering ≤ env.limits.maxValueGrowth
    omega

theorem pop_of_nil (h : m.stack = []) :
    pop m = .error (.internalError "stack underflow") m := by
  unfold pop
  rw [get_bind, h]
  rfl

theorem pop_of_cons {val : ProgramValue} {stack : List ProgramValue} (h : m.stack = val :: stack) :
    pop m = .ok val { m with stack := stack } := by
  unfold pop
  rw [get_bind, h]
  rfl

theorem frame_pop : Moves (Frame limits) pop := by
  intro m
  cases h : m.stack with
  | nil =>
    rw [pop_of_nil h]
    exact .refl m
  | cons val stack =>
    rw [pop_of_cons h]
    exact .of_budget_eq rfl rfl

theorem frame_peek : Moves (Frame limits) peek := by
  refine frame_bind (.get .refl) (fun m => ?_)
  split
  · exact .throw .refl _
  · exact .pure .refl _

theorem frame_popMany (n : ℕ) (items : List ProgramValue) :
    Moves (Frame limits) (popMany n items) := by
  induction n generalizing items with
  | zero => exact .pure .refl _
  | succ n ih => exact frame_bind frame_pop (fun val => ih _)

theorem frame_popPairs (n : ℕ) (pairs : List (ProgramValue × ProgramValue)) :
    Moves (Frame limits) (popPairs n pairs) := by
  induction n generalizing pairs with
  | zero => exact .pure .refl _
  | succ n ih => exact frame_bind frame_pop (fun val => frame_bind frame_pop (fun key => ih _))

theorem frame_popRequests (n : ℕ) (requests : List CallRequest) :
    Moves (Frame limits) (popRequests n requests) := by
  induction n generalizing requests with
  | zero => exact .pure .refl _
  | succ n ih =>
    refine frame_bind frame_pop (fun descriptor => ?_)
    exact frame_bind (moves_ofExcept .refl _) (fun request => ih _)

theorem frame_setPc (target : ℕ) :
    Moves (Frame limits) (setPc target) :=
  .modify fun _ => .of_budget_eq rfl rfl

theorem frame_pushConstant {α : Type} (kind : String) (pool : List α) (wrap : α → ProgramValue)
    (idx : ℕ) : Moves (Frame env.limits) (pushConstant env kind pool wrap idx) := by
  unfold pushConstant
  split
  · exact frame_push _
  · exact .throw .refl _

theorem frame_loadLocal (slot : ℕ) : Moves (Frame env.limits) (loadLocal env slot) :=
  frame_bind (.get .refl) (fun _ => frame_push _)

theorem frame_storeLocal (slot : ℕ) :
    Moves (Frame limits) (storeLocal slot) := by
  refine frame_bind frame_pop (fun val m => ?_)
  rw [get_bind]
  split
  · exact .of_budget_eq rfl rfl
  · exact .refl m

theorem frame_resumeForLoop : Moves (Frame env.limits) (resumeForLoop env) := by
  intro m
  unfold resumeForLoop
  rw [get_bind]
  generalize m.stack = stack
  split
  · refine .trans _ _ _ ?_ (moves_ofExcept .refl _ _)
    exact .of_budget_eq rfl rfl
  · exact frame_bind frame_pop (fun iterable => moves_ofExcept .refl _) m

theorem frame_forLoopIter : Moves (Frame env.limits) (forLoopIter env) := by
  refine frame_bind frame_pop (fun idxVal => frame_bind frame_pop (fun listVal => ?_))
  split
  · split
    · exact frame_bind (frame_push _) (fun _ => frame_bind (frame_push _) (fun _ => frame_push _))
    · exact .throw .refl _
  · exact .throw .refl _

theorem frame_forLoopNext (loopStart : ℕ) :
    Moves (Frame env.limits) (forLoopNext env loopStart) := by
  refine frame_bind frame_pop (fun idxVal => frame_bind frame_pop (fun listVal => ?_))
  split
  · split
    · exact frame_bind (frame_push _) (fun _ =>
        frame_bind (frame_push _) (fun _ => frame_setPc _))
    · exact .pure .refl _
  · exact .throw .refl _

/-- The machine after counting the items of a loop. -/
def countedItems (n : ℕ) (m : StackMachine) : StackMachine :=
  { m with budget := { m.budget with iterations := m.budget.iterations + n } }

/-- A loop entry stays within a frame, up to the items it has counted. -/
theorem enterLoop_effect (bodyStart loopEnd : ℕ) (m : StackMachine) :
    Frame env.limits m (finalState (enterLoop env bodyStart loopEnd m)) ∨
      ∃ items m₁, resumeForLoop env m = .ok items m₁ ∧
        items.length ≤ env.limits.maxLoopIterations ∧
        Frame env.limits (countedItems items.length m₁)
          (finalState (enterLoop env bodyStart loopEnd m)) := by
  have hm : Frame env.limits m (finalState (resumeForLoop env m)) := frame_resumeForLoop m
  unfold enterLoop
  cases hr : resumeForLoop env m with
  | error e m₁ =>
    rw [hr] at hm
    rw [bind_of_error hr]
    exact .inl hm
  | ok items m₁ =>
    rw [hr] at hm
    rw [bind_of_ok hr]
    unfold refuseIf
    by_cases hlen : items.length > env.limits.maxLoopIterations
    · rw [if_pos hlen]
      exact .inl hm
    · rw [if_neg hlen]
      refine .inr ⟨items, m₁, rfl, not_lt.mp hlen, ?_⟩
      refine frame_bind (frame_push _) (fun _ => ?_) (countedItems items.length m₁)
      exact frame_bind (frame_push _) (fun _ => frame_setPc _)

theorem forLoopStart_effect (bodyStart loopEnd : ℕ) (m : StackMachine) :
    Frame env.limits m (finalState (forLoopStart env bodyStart loopEnd m)) ∨
      isResume m = false ∧ ∃ items m₁, resumeForLoop env m = .ok items m₁ ∧
        items.length ≤ env.limits.maxLoopIterations ∧
        Frame env.limits (countedItems items.length m₁)
          (finalState (forLoopStart env bodyStart loopEnd m)) := by
  unfold forLoopStart
  rw [get_bind]
  cases hres : isResume m with
  | true =>
    exact .inl (frame_bind (moves_refuseIf .refl _ _) (fun _ => frame_setPc _) m)
  | false =>
    rcases enterLoop_effect bodyStart loopEnd m with h | h
    · exact .inl h
    · exact .inr ⟨rfl, h⟩

theorem frame_checkCallBudget : Moves (Frame env.limits) (checkCallBudget env) :=
  frame_bind (.get .refl) (fun _ => moves_refuseIf .refl _ _)

theorem frame_checkInflightBudget : Moves (Frame env.limits) (checkInflightBudget env) :=
  frame_bind (.get .refl) (fun _ => moves_refuseIf .refl _ _)

theorem frame_checkParallelBudget (count : ℕ) :
    Moves (Frame env.limits) (checkParallelBudget env count) := by
  intro m
  unfold checkParallelBudget refuseIf
  rw [get_bind]
  split
  · exact .refl m
  · split
    · exact .refl m
    · exact ⟨rfl, rfl, rfl, rfl, rfl, id⟩

theorem frame_terminate : Moves (Frame limits) terminate :=
  .modify fun _ => .of_budget_eq rfl rfl

theorem frame_finish (result : ProgramValue → StepResult) :
    Moves (Frame limits) (Interp.finish result) :=
  frame_bind frame_pop (fun _ =>
    frame_bind frame_terminate (fun _ => .pure .refl _))

end Exec

namespace Interp

open Exec

variable {env : Env}

theorem frame_binary (op : ProgramValue → ProgramValue → Except InterpreterError ProgramValue) :
    Moves (Frame env.limits) (binary env op) :=
  frame_bind frame_pop (fun _ => frame_bind frame_pop (fun _ =>
    frame_bind (moves_ofExcept .refl _) (fun _ => frame_push _)))

theorem frame_unary (op : ProgramValue → Except InterpreterError ProgramValue) :
    Moves (Frame env.limits) (unary env op) :=
  frame_bind frame_pop (fun _ =>
    frame_bind (moves_ofExcept .refl _) (fun _ => frame_push _))

/-- Local instructions stay within a frame, except where they enter a loop. -/
theorem frame_executeLocal {op : IrOp} {x : Exec Unit} (h : executeLocal env op = some x)
    (hop : ∀ bodyStart loopEnd, op ≠ .forLoopStart bodyStart loopEnd) :
    Moves (Frame env.limits) x := by
  cases op <;> simp only [executeLocal, Option.some.injEq, reduceCtorEq] at h <;> subst h
  case loadInt | loadFloat | loadString => exact frame_pushConstant _ _ _ _
  case loadTrue | loadFalse | loadNone => exact frame_push _
  case loadLocal slot => exact frame_loadLocal slot
  case storeLocal slot => exact frame_storeLocal slot
  case makeList count | makeTuple count =>
    exact frame_bind (frame_popMany count []) (fun _ => frame_push _)
  case makeDict count => exact frame_bind (frame_popPairs count []) (fun _ => frame_push _)
  case binOp | compare | boolAnd | boolOr | index => exact frame_binary _
  case unaryOp | boolNot | len | str | int | bool | constructCall => exact frame_unary _
  case pop => exact frame_bind frame_pop (fun _ => .pure .refl _)
  case dup => exact frame_bind frame_peek (fun _ => frame_push _)
  case slice =>
    refine frame_bind frame_pop (fun _ => frame_bind frame_pop (fun _ => ?_))
    refine frame_bind frame_pop (fun _ => frame_bind frame_pop (fun _ => ?_))
    exact frame_bind (moves_ofExcept .refl _) (fun _ => frame_push _)
  case jumpIfFalse target =>
    refine frame_bind frame_pop (fun val => ?_)
    split
    · exact frame_setPc _
    · exact .pure .refl _
  case jump target => exact frame_setPc _
  case forLoopStart bodyStart loopEnd => exact absurd rfl (hop bodyStart loopEnd)
  case forLoopIter => exact frame_forLoopIter
  case forLoopNext loopStart loopEnd => exact frame_forLoopNext _
  case parallelStart count =>
    exact frame_bind (frame_popRequests count []) (fun _ => frame_push _)

/-- The kinds of instruction there are. -/
theorem executeInstruction_cases {C : Interp StepResult → Prop} (op : IrOp)
    (local_ : ∀ x, executeLocal env op = some x → C (onMachine x >>= fun _ => pure .continue_))
    (call : C (executeCall env >>= fun _ => pure .continue_))
    (group : C (parallelExecute env >>= fun _ => pure .continue_))
    (child : C (executeChildJob env >>= fun _ => pure .continue_))
    (checkpoint : op = .checkpoint → C (commitCheckpoint env >>= fun _ => pure .continue_))
    (finish_ : ∀ result, C (onMachine (finish result)))
    (return_ : C (onMachine terminate >>= fun _ => pure (.yield_ .none))) :
    C (executeInstruction env op) := by
  cases op
  case executeCall => exact call
  case parallelExecute => exact group
  case executeChildJob => exact child
  case checkpoint => exact checkpoint rfl
  case emit => exact finish_ _
  case fail => exact finish_ _
  case return_ => exact return_
  all_goals exact local_ _ rfl

/-! ### Talking to the broker -/

end Interp

/-- The state after taking a sequence number. -/
def MeteredInterpreter.taken (s : MeteredInterpreter) : MeteredInterpreter :=
  { s with machine := { s.machine with nextCallSeq := s.machine.nextCallSeq + 1 } }

/-- The state after counting a call. -/
def MeteredInterpreter.counted (s : MeteredInterpreter) : MeteredInterpreter :=
  { s with machine := { s.machine with
      budget := { s.machine.budget with calls := s.machine.budget.calls + 1 } } }

/-- The consumption a checkpoint records. -/
def InterpreterCheckpoint.budget (cp : InterpreterCheckpoint) : BudgetSnapshot where
  steps := cp.steps
  bytes := cp.bytesUsed
  calls := cp.callsCompleted
  iterations := cp.iterations
  parallelGroups := cp.parallelGroups
  inflightCalls := 0

/-- What may happen while call `seq` is being made: the stack machine stays as it
is, the journal changes at `seq` only, and new checkpoints record the machine. -/
structure Outside (seq : ℕ) (s s' : MeteredInterpreter) : Prop where
  machine_eq : s'.machine = s.machine
  fingerprint_eq : s'.replayFingerprint = s.replayFingerprint
  journal_eq : ∀ q, q ≠ seq → s'.completedCalls.get? q = s.completedCalls.get? q
  issued_eq : ∃ new, s'.issued = s.issued ++ new ∧ ∀ call ∈ new, call.sequence = seq
  checkpoints_of : ∀ cp ∈ s'.checkpoints, cp ∈ s.checkpoints ∨
    cp.budget = { s.machine.budget with inflightCalls := 0 }

namespace Outside

theorem refl (s : MeteredInterpreter) : Outside seq s s :=
  ⟨rfl, rfl, fun _ _ => rfl, ⟨[], by simp, by simp⟩, fun _ h => .inl h⟩

theorem trans (a b c : MeteredInterpreter) (hab : Outside seq a b) (hbc : Outside seq b c) :
    Outside seq a c where
  machine_eq := hbc.machine_eq.trans hab.machine_eq
  fingerprint_eq := hbc.fingerprint_eq.trans hab.fingerprint_eq
  journal_eq := fun q hq => (hbc.journal_eq q hq).trans (hab.journal_eq q hq)
  issued_eq := by
    obtain ⟨new, he, hn⟩ := hab.issued_eq
    obtain ⟨new', he', hn'⟩ := hbc.issued_eq
    refine ⟨new ++ new', by rw [he', he, List.append_assoc], ?_⟩
    intro call hc
    rcases List.mem_append.mp hc with h | h
    · exact hn call h
    · exact hn' call h
  checkpoints_of := by
    intro cp hcp
    rcases hbc.checkpoints_of cp hcp with h | h
    · exact hab.checkpoints_of cp h
    · exact .inr (hab.machine_eq ▸ h)

/-- A change of the pending child or the checkpoint numbering. -/
theorem of_eq {s' : MeteredInterpreter} (hm : s'.machine = s.machine)
    (hf : s'.replayFingerprint = s.replayFingerprint) (hj : s'.completedCalls = s.completedCalls)
    (hi : s'.issued = s.issued) (hc : s'.checkpoints = s.checkpoints) : Outside seq s s' :=
  ⟨hm, hf, fun _ _ => by rw [hj], ⟨[], by simp [hi], by simp⟩, fun _ h => .inl (hc ▸ h)⟩

end Outside

namespace Interp

open Exec

variable {env : Env}

theorem outside_bind {α β : Type} {x : Interp α} {f : α → Interp β} (hx : Moves (Outside seq) x)
    (hf : ∀ a, Moves (Outside seq) (f a)) :
    Moves (Outside seq) (x >>= f) :=
  .bind .trans hx hf

theorem outside_issue {call : IssuedCall} (h : call.sequence = seq) :
    Moves (Outside seq) (issue call) := by
  refine .modify (fun s => ⟨rfl, rfl, fun _ _ => rfl, ⟨[call], rfl, ?_⟩, fun _ h => .inl h⟩)
  intro c hc
  rw [List.mem_singleton.mp hc, h]

/-- The state whose checkpoint number has been used. -/
def numbered (s : MeteredInterpreter) : MeteredInterpreter :=
  { s with nextCheckpointSequence := (s.nextCheckpointSequence + 1) % 2 ^ 32 }

/-- The state after committing its own checkpoint. -/
def committed (env : Env) (s : MeteredInterpreter) : MeteredInterpreter :=
  { numbered s with checkpoints := s.checkpoints ++ [checkpointOf env s] }

theorem commitCheckpoint_eq (s : MeteredInterpreter) :
    commitCheckpoint env s =
      match env.broker.checkpoint (checkpointOf env s) with
      | .ok _ => .ok () (committed env s)
      | .error e => .error e (numbered s) := by
  unfold commitCheckpoint
  rw [bind_of_ok (show createCheckpoint env s = .ok (checkpointOf env s) (numbered s) from rfl)]
  cases env.broker.checkpoint (checkpointOf env s) with
  | ok _ => rfl
  | error e => rfl

/-- A committed checkpoint records the state it was taken in. -/
theorem outside_committed (seq : ℕ) (s : MeteredInterpreter) :
    Outside seq s (committed env s) := by
  refine ⟨rfl, rfl, fun _ _ => rfl, ⟨[], (List.append_nil _).symm, by simp⟩, ?_⟩
  intro cp hcp
  rcases List.mem_append.mp hcp with h | h
  · exact .inl h
  · rw [List.mem_singleton.mp h]
    exact .inr rfl

theorem outside_commitCheckpoint (seq : ℕ) : Moves (Outside seq) (commitCheckpoint env) := by
  intro s
  rw [commitCheckpoint_eq]
  cases env.broker.checkpoint (checkpointOf env s) with
  | error e => exact .of_eq rfl rfl rfl rfl rfl
  | ok _ => exact outside_committed seq s

theorem outside_recordCompleted (seq : ℕ) (request : CallRequest) (result : CallResult) :
    Moves (Outside seq) (recordCompleted env seq request result) := by
  refine outside_bind (moves_ofExcept .refl _) (fun _ => .modify fun s => ?_)
  refine ⟨rfl, rfl, fun q hq => ?_, ⟨[], (List.append_nil _).symm, by simp⟩, fun _ h => .inl h⟩
  exact (SortedMap.get?_insert _ _ _ _).trans (if_neg hq)

theorem outside_keepSuccessful (seq : ℕ) (request : CallRequest) (result : CallResult) :
    Moves (Outside seq) (keepSuccessful env seq request result) := by
  unfold keepSuccessful
  split
  · exact outside_bind (outside_recordCompleted _ _ _) (fun _ => outside_commitCheckpoint _)
  · exact .pure .refl _

theorem outside_executeCallWithRetry (seq : ℕ) (request : CallRequest) (retries attempt : ℕ) :
    Moves (Outside seq) (executeCallWithRetry env seq request retries attempt) := by
  induction retries generalizing attempt with
  | zero => exact outside_bind (outside_issue rfl) (fun _ => moves_ofExcept .refl _)
  | succ retries ih =>
    refine outside_bind (outside_issue rfl) (fun _ => ?_)
    split
    · exact .pure .refl _
    · exact ih _
    · exact .throw .refl _

/-- The call in flight is taken off again, whatever its outcome. -/
theorem outside_withInflight {α : Type} {x : Interp α} (hx : Moves (Outside seq) x) :
    Moves (Outside seq) (withInflight x) := by
  intro s
  have h := hx (s.mapInflight (· + 1))
  have key : ∀ s', Outside seq (s.mapInflight (· + 1)) s' →
      Outside seq s (s'.mapInflight (· - 1)) := by
    intro s' h
    refine ⟨?_, h.fingerprint_eq, h.journal_eq, h.issued_eq, h.checkpoints_of⟩
    simp only [MeteredInterpreter.mapInflight, h.machine_eq, Nat.add_sub_cancel]
  unfold withInflight
  cases hr : x (s.mapInflight (· + 1)) with
  | ok a s' =>
    rw [hr] at h
    exact key s' h
  | error e s' =>
    rw [hr] at h
    exact key s' h

theorem outside_liveCall (seq : ℕ) (request : CallRequest) :
    Moves (Outside seq) (liveCall env seq request) := by
  refine outside_bind (moves_ofExcept .refl _) (fun _ => ?_)
  refine outside_bind (outside_withInflight (outside_executeCallWithRetry _ _ _ _)) (fun _ => ?_)
  exact outside_bind (outside_keepSuccessful _ _ _) (fun _ => .pure .refl _)

theorem checkCallBudget_eq (s : MeteredInterpreter) :
    onMachine (checkCallBudget env) s =
      if s.machine.budget.calls ≥ env.limits.maxDynamicCalls then
        .error (.budgetExceeded ("call count " ++ toString s.machine.budget.calls ++
          " exceeds max " ++ toString env.limits.maxDynamicCalls)) s
      else .ok () s := by
  unfold onMachine checkCallBudget refuseIf
  rw [get_bind]
  by_cases h : s.machine.budget.calls ≥ env.limits.maxDynamicCalls
  · rw [if_pos h, if_pos h]
    rfl
  · rw [if_neg h, if_neg h]
    rfl

theorem replayOr_of_some {kind : CallKind} {seq : ℕ} {request : CallRequest}
    {live : Interp CallResult} {s : MeteredInterpreter} {completed : CompletedCall}
    (h : s.completedCalls.get? seq = some completed) :
    replayOr env kind seq request live s =
      ofExcept (replayCompleted env kind s.replayFingerprint seq request completed) s := by
  unfold replayOr
  rw [get_bind, h]

theorem replayOr_of_none {kind : CallKind} {request : CallRequest} {live : Interp CallResult}
    (h : s.completedCalls.get? seq = none) :
    replayOr env kind seq request live s = live s := by
  unfold replayOr
  rw [get_bind, h]

theorem outside_replayOr {seq' : ℕ} {kind : CallKind} {request : CallRequest}
    {live : Interp CallResult} (hl : Outside seq' s (finalState (live s))) :
    Outside seq' s (finalState (replayOr env kind seq request live s)) := by
  cases h : s.completedCalls.get? seq with
  | some completed =>
    rw [replayOr_of_some h, finalState_ofExcept]
    exact .refl s
  | none =>
    rw [replayOr_of_none h]
    exact hl

/-- A child job whose lineage does not match the pending one is left in flight. -/
theorem outside_liveChildJob (s : MeteredInterpreter) (request : ChildJobRequest)
    (callRequest : CallRequest) :
    Outside request.sequence s (finalState (liveChildJob env request callRequest s)) ∨
      ∃ e, liveChildJob env request callRequest s = .error e (s.mapInflight (· + 1)) := by
  unfold liveChildJob
  cases hr : env.broker.callReserved request.sequence callRequest with
  | error e => exact .inl (.refl s)
  | ok _ =>
    cases hp : checkPending env s.pendingChildWait request with
    | error e =>
      refine .inr ⟨e, ?_⟩
      show (ofExcept (checkPending env s.pendingChildWait request) >>= _)
        (s.mapInflight (· + 1)) = _
      rw [hp]
      rfl
    | ok _ =>
      left
      show Outside request.sequence s (finalState
        ((ofExcept (checkPending env s.pendingChildWait request) >>= _) (s.mapInflight (· + 1))))
      rw [hp]
      have hstart : Outside request.sequence s
          { s with
            nextCheckpointSequence := (s.nextCheckpointSequence + 1) % 2 ^ 32
            issued := s.issued ++ [.child request] } :=
        ⟨rfl, rfl, fun _ _ => rfl, ⟨_, rfl, by simp [IssuedCall.sequence]⟩, fun _ h => .inl h⟩
      refine .trans _ _ _ hstart ?_
      refine outside_bind (moves_ofExcept .refl _) (fun childResult => ?_) _
      refine outside_bind (outside_recordCompleted _ _ _) (fun _ => ?_)
      refine outside_bind (.modify fun _ => .of_eq rfl rfl rfl rfl rfl) (fun _ => ?_)
      exact outside_bind (outside_commitCheckpoint _) (fun _ => .pure .refl _)

end Interp

end Codegg.ToolProgram
