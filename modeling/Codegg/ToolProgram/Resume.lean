import Codegg.ToolProgram.Replay

/-!
# Resuming from a checkpoint

A restarted interpreter loads the journal as of the crash and restores a
checkpoint. If a `Checkpoint` instruction wrote the checkpoint, and the journal
holds the calls made before it and no later ones, the restored interpreter is in
the state of the original and goes on in lockstep with it. A checkpoint written
in the middle of a call is another matter: its program counter is already past
the call, whose output is not on the stack yet.
-/
namespace Codegg.ToolProgram

open Codegg.Library Interp MeteredInterpreter SortedMap

/-! ### What an original run keeps -/

/-- The state of a run that started with an empty journal: the journal is keyed by
sequence number and holds only calls that have been made, no call is in flight and
no child job is waited for. -/
structure Original (fp : Option ReplayFingerprint) (s : MeteredInterpreter) : Prop where
  keyed : ∀ q c, s.completedCalls.get? q = some c → c.sequence = q
  fresh : ∀ q, s.machine.nextCallSeq ≤ q → s.completedCalls.get? q = none
  waiting : s.pendingChildWait = none
  context : s.replayFingerprint = fp
  idle : s.machine.budget.inflightCalls = 0
  issued_lt : ∀ call ∈ s.issued, call.sequence < s.machine.nextCallSeq

variable {seq : ℕ} {env : Env} {s : MeteredInterpreter}

namespace Original

variable {env : Env} {fp : Option ReplayFingerprint} {s : MeteredInterpreter}

theorem start (env : Env) (fp : Option ReplayFingerprint) :
    Original fp (.started env .empty fp) where
  keyed := fun q c h => by
    change empty.get? q = some c at h
    cases h
  fresh := fun _ _ => rfl
  waiting := rfl
  context := rfl
  idle := rfl
  issued_lt := fun call h => absurd h List.not_mem_nil

theorem onMachine (h : Original fp s) {m : StackMachine}
    (hm : m.nextCallSeq = s.machine.nextCallSeq)
    (hi : m.budget.inflightCalls = s.machine.budget.inflightCalls) :
    Original fp { s with machine := m } :=
  { h with
    fresh := fun q hq => h.fresh q (hm ▸ hq)
    idle := hi.trans h.idle
    issued_lt := fun call hc => (h.issued_lt call hc).trans_eq hm.symm }

theorem taken (h : Original fp s) : Original fp s.taken :=
  { h with
    fresh := fun q hq => h.fresh q (le_trans (Nat.le_succ _) hq)
    issued_lt := fun call hc => (h.issued_lt call hc).trans (Nat.lt_succ_self _) }

theorem counted (h : Original fp s) : Original fp s.counted :=
  h.onMachine rfl rfl

theorem traced (h : Original fp s) (hseq : seq < s.machine.nextCallSeq) {calls : List IssuedCall}
    (hc : ∀ call ∈ calls, call.sequence = seq) (n : ℕ) :
    Original fp { s.traced calls with nextCheckpointSequence := n } :=
  { h with
    issued_lt := by
      intro call hm
      rcases List.mem_append.mp hm with hm | hm
      · exact h.issued_lt call hm
      · exact (hc call hm).trans_lt hseq }

theorem recorded (h : Original fp s) (hseq : seq < s.machine.nextCallSeq) (request : CallRequest)
    (result : CallResult) :
    Original fp (s.recorded seq request result) :=
  { h with
    keyed := by
      intro q c hq
      have hget : (if q = seq then some (⟨seq, request, result, s.replayFingerprint⟩ : CompletedCall)
          else s.completedCalls.get? q) = some c := (get?_insert _ _ _ _).symm.trans hq
      split at hget
      · rename_i heq
        cases hget
        exact heq.symm
      · exact h.keyed q c hget
    fresh := by
      intro q hq
      have hne : q ≠ seq := ne_of_gt (hseq.trans_le hq)
      exact (get?_insert _ _ _ _).trans ((if_neg hne).trans (h.fresh q hq)) }

theorem commitCheckpoint (h : Original fp s) :
    Original fp (finalState (commitCheckpoint env s)) := by
  rw [commitCheckpoint_eq]
  cases env.broker.checkpoint (checkpointOf env s) with
  | ok _ => exact ⟨h.keyed, h.fresh, h.waiting, h.context, h.idle, h.issued_lt⟩
  | error e => exact ⟨h.keyed, h.fresh, h.waiting, h.context, h.idle, h.issued_lt⟩

theorem settle (h : Original fp s) (hseq : seq < s.machine.nextCallSeq) (request : CallRequest)
    (answer : Except InterpreterError CallResult) :
    Original fp (finalState (Interp.settle env seq request answer s)) := by
  cases answer with
  | error e => exact h
  | ok result =>
    by_cases hsucc : result.success = true
    · simp only [Interp.settle, if_pos hsucc, Interp.journalCall]
      have hcommit : Original fp
          (finalState (Interp.commitCheckpoint env (s.recorded seq request result))) :=
        (h.recorded hseq request result).commitCheckpoint
      cases hc : Interp.commitCheckpoint env (s.recorded seq request result) with
      | ok a s' =>
        rw [hc] at hcommit
        rw [bind_of_ok hc]
        exact hcommit
      | error e s' =>
        rw [hc] at hcommit
        rw [bind_of_error hc]
        exact hcommit
    · simp only [Interp.settle, if_neg hsucc]
      exact h

theorem completeCall (h : Original fp s) {kind : Interp.CallKind} {request : CallRequest}
    {live : Interp CallResult} (hl : Interp.LiveCall env s.machine.nextCallSeq request live) :
    Original fp (finalState
      (Interp.completeCall env kind s.machine.nextCallSeq request live s.taken)) := by
  have hfresh : s.taken.completedCalls.get? s.machine.nextCallSeq = none := h.fresh _ le_rfl
  obtain ⟨n, hn⟩ := hl.run_eq s.taken h.taken.waiting
  have hs : replayOr env kind s.machine.nextCallSeq request live s.taken = _ :=
    (replayOr_of_none hfresh).trans hn
  have hsettle : Original fp (finalState
      (replayOr env kind s.machine.nextCallSeq request live s.taken)) := by
    rw [hs]
    exact (h.taken.traced (Nat.lt_succ_self _) hl.sequence_eq n).settle
      (Nat.lt_succ_self _) request hl.answer
  cases hr : replayOr env kind s.machine.nextCallSeq request live s.taken with
  | ok result s' =>
    rw [hr] at hsettle
    rw [completeCall_of_ok hr]
    exact hsettle.counted
  | error e s' =>
    rw [hr] at hsettle
    rw [completeCall_of_error hr]
    exact hsettle

/-- The invariant as a run in lockstep with itself. -/
def lockstep (env : Env) (fp : Option ReplayFingerprint) : Lockstep env where
  toPursuit := Pursuit.diagonal InterpreterError (Original fp)
  machine_eq := by
    rintro s t ⟨rfl, -⟩
    rfl
  onMachine := by
    rintro s t m ⟨rfl, h⟩ hm hi
    exact ⟨rfl, h.onMachine hm hi⟩
  moves := fun _ => trivial
  checkpoint := Pursuit.diagonal_follows (fun _ h => h.commitCheckpoint)
  dispatchCall := by
    intro kind request
    refine Pursuit.diagonal_follows (fun s h => ?_)
    rw [dispatchCall_eq]
    exact h.completeCall (.tool env _ _)
  dispatchChildJob := by
    intro op config
    refine Pursuit.diagonal_follows (fun s h => ?_)
    rw [dispatchChildJob_eq]
    split
    · exact h.taken
    · exact h.completeCall (.child env ⟨s.machine.nextCallSeq, op, config⟩ _)

theorem of_reaches (h : Reaches env (.started env .empty fp) s) : Original fp s := by
  obtain ⟨t, -, -, hs⟩ := (lockstep env fp).reaches_follows (fun _ _ _ hS => hS)
    (fun _ => trivial) h ⟨rfl, start env fp⟩
  exact hs

end Original

/-! ### Restoring a checkpoint -/

/-- Merging calls that the journal already has changes nothing. -/
theorem mergeCompleted_of_mem {journal : SortedMap ℕ CompletedCall} {calls : List CompletedCall}
    (h : ∀ c ∈ calls, journal.get? c.sequence = some c ∧ c.result.output.nanFree = true) :
    mergeCompleted calls journal = .ok journal := by
  induction calls with
  | nil => rfl
  | cons c calls ih =>
    obtain ⟨hget, hnan⟩ := h c (List.mem_cons_self ..)
    unfold mergeCompleted
    simp only [hget, CompletedCall.same_self hnan, if_true]
    exact ih fun c' hc' => h c' (List.mem_cons_of_mem c hc')

/-- One past the highest of all numbers below `n`. -/
theorem nextSequence_eq {sequences : List ℕ} {n : ℕ} (h : ∀ q, q ∈ sequences ↔ q < n) :
    nextSequence sequences = n := by
  unfold nextSequence
  cases n with
  | zero =>
    have hnil : sequences = [] := List.eq_nil_iff_forall_not_mem.mpr fun q hq =>
      absurd ((h q).mp hq) (Nat.not_lt_zero q)
    rw [hnil]
    rfl
  | succ m =>
    have hmax : sequences.max? = some m := by
      refine List.max?_eq_some_iff.mpr ⟨(h m).mpr (Nat.lt_succ_self m), fun q hq => ?_⟩
      exact Nat.lt_succ_iff.mp ((h q).mp hq)
    rw [hmax]

/-- A state whose journal has exactly the calls made so far is restored from its own
checkpoint. -/
theorem restoreCheckpoint_checkpointOf {fp : Option ReplayFingerprint} (h : Original fp s)
    (hterm : s.machine.terminated = false)
    (hall : ∀ q, (s.completedCalls.get? q).isSome ↔ q < s.machine.nextCallSeq)
    (hnan : ∀ q c, s.completedCalls.get? q = some c → c.result.output.nanFree = true) :
    restoreCheckpoint env (checkpointOf env s)
        (.started env s.completedCalls fp) =
      .ok { (started env s.completedCalls fp) with machine := s.machine } := by
  have hdigest : verifyDigest env (checkpointOf env s) = .ok () := by
    unfold verifyDigest
    rw [if_neg]
    rintro ⟨-, hne, -⟩
    exact hne rfl
  have hmerge : mergeCompleted (checkpointOf env s).completedCalls
      s.completedCalls = .ok s.completedCalls := by
    refine mergeCompleted_of_mem (fun c hc => ?_)
    have hmem : c ∈ s.completedCalls.values := List.mem_mergeSort.mp hc
    obtain ⟨⟨q, c'⟩, hp, rfl⟩ := List.mem_map.mp hmem
    have hget := (mem_toList_iff _ _ _).mp hp
    exact ⟨(h.keyed q c' hget).symm ▸ hget, hnan q c' hget⟩
  have hnext : nextSequence s.completedCalls.keys = s.machine.nextCallSeq := by
    refine nextSequence_eq (fun q => ?_)
    rw [mem_keys_iff, ← hall q, Option.isSome_iff_exists]
  have hmachine : restoredMachine (checkpointOf env s) s.completedCalls
      (started env s.completedCalls fp).machine = s.machine := by
    have hidle := h.idle
    unfold restoredMachine
    rw [hnext]
    obtain ⟨⟨stack, locals, pc, budget, seq, terminated⟩, _, _, _, _, _, _⟩ := s
    obtain ⟨steps, bytes, calls, iterations, groups, inflight⟩ := budget
    cases hterm
    cases hidle
    rfl
  have hpending : (checkpointOf env s).pendingChildWait = none := h.waiting
  have hjournal : (started env s.completedCalls fp).completedCalls =
      s.completedCalls := rfl
  unfold restoreCheckpoint
  rw [hdigest, hjournal, hmerge]
  simp only [bind, Except.bind, hmachine, hpending]
  rfl

/-! ### The restored run goes on like the original -/

/-- A restored run has the stack machine and the journal of the original, and has
issued what the original has issued since call `from_`. -/
structure Resumed (before : List IssuedCall) (from_ : ℕ) (s t : MeteredInterpreter) : Prop where
  machine_eq : t.machine = s.machine
  journal_eq : t.completedCalls = s.completedCalls
  context_eq : t.replayFingerprint = s.replayFingerprint
  waiting : s.pendingChildWait = none
  waiting' : t.pendingChildWait = none
  fresh : ∀ q, s.machine.nextCallSeq ≤ q → s.completedCalls.get? q = none
  from_le : from_ ≤ s.machine.nextCallSeq
  issued_eq : s.issued = before ++ t.issued
  issued_ge : ∀ call ∈ t.issued, from_ ≤ call.sequence

namespace Resumed

variable {env : Env} {before : List IssuedCall} {from_ : ℕ} {s t : MeteredInterpreter}

theorem onMachine (h : Resumed before from_ s t) {m : StackMachine}
    (hm : m.nextCallSeq = s.machine.nextCallSeq) :
    Resumed before from_ { s with machine := m } { t with machine := m } :=
  { h with
    machine_eq := rfl
    fresh := fun q hq => h.fresh q (hm ▸ hq)
    from_le := h.from_le.trans_eq hm.symm }

theorem taken (h : Resumed before from_ s t) : Resumed before from_ s.taken t.taken :=
  { h with
    machine_eq := by simp only [MeteredInterpreter.taken, h.machine_eq]
    fresh := fun q hq => h.fresh q (le_trans (Nat.le_succ _) hq)
    from_le := h.from_le.trans (Nat.le_succ _) }

theorem counted (h : Resumed before from_ s t) : Resumed before from_ s.counted t.counted := by
  have hm := h.onMachine (m := s.counted.machine) rfl
  rw [show t.counted = { t with machine := s.counted.machine } by
    simp only [MeteredInterpreter.counted, h.machine_eq]]
  exact hm

theorem traced (h : Resumed before from_ s t) (hseq : from_ ≤ seq) {calls : List IssuedCall}
    (hc : ∀ call ∈ calls, call.sequence = seq) (n n' : ℕ) :
    Resumed before from_ { s.traced calls with nextCheckpointSequence := n }
      { t.traced calls with nextCheckpointSequence := n' } :=
  { h with
    issued_eq := by
      show s.issued ++ calls = before ++ (t.issued ++ calls)
      rw [h.issued_eq, List.append_assoc]
    issued_ge := by
      intro call hm
      rcases List.mem_append.mp hm with hm | hm
      · exact h.issued_ge call hm
      · exact hseq.trans_eq (hc call hm).symm }

theorem recorded (h : Resumed before from_ s t) (hseq : seq < s.machine.nextCallSeq)
    (request : CallRequest) (result : CallResult) :
    Resumed before from_ (s.recorded seq request result) (t.recorded seq request result) :=
  { h with
    journal_eq := by
      simp only [MeteredInterpreter.recorded, h.journal_eq, h.context_eq]
    fresh := by
      intro q hq
      have hne : q ≠ seq := ne_of_gt (hseq.trans_le hq)
      exact (get?_insert _ _ _ _).trans ((if_neg hne).trans (h.fresh q hq)) }

variable (hhook : ∀ cp n, env.broker.checkpoint { cp with checkpointSequence := n } =
  env.broker.checkpoint cp)

include hhook

/-- The checkpoints of both runs differ only in their number. -/
theorem commitCheckpoint (h : Resumed before from_ s t) :
    Matched (Resumed before from_) (commitCheckpoint env s)
      (commitCheckpoint env t) := by
  have hcp : checkpointOf env t = { checkpointOf env s with
      checkpointSequence := t.nextCheckpointSequence } := by
    unfold checkpointOf refreshSemanticDigest
    rw [h.machine_eq, h.journal_eq, h.context_eq, h.waiting, h.waiting']
    rfl
  have hanswer : env.broker.checkpoint (checkpointOf env t) =
      env.broker.checkpoint (checkpointOf env s) := by
    rw [hcp]
    exact hhook _ _
  rw [commitCheckpoint_eq, commitCheckpoint_eq, hanswer]
  cases env.broker.checkpoint (checkpointOf env s) with
  | ok _ => exact .ok () ⟨h.machine_eq, h.journal_eq, h.context_eq, h.waiting, h.waiting',
      h.fresh, h.from_le, h.issued_eq, h.issued_ge⟩
  | error e => exact .error e ⟨h.machine_eq, h.journal_eq, h.context_eq, h.waiting, h.waiting',
      h.fresh, h.from_le, h.issued_eq, h.issued_ge⟩

theorem settle (h : Resumed before from_ s t) (hseq : seq < s.machine.nextCallSeq)
    (request : CallRequest) (answer : Except InterpreterError CallResult) :
    Matched (Resumed before from_) (settle env seq request answer s)
      (settle env seq request answer t) := by
  cases answer with
  | error e => exact .error e h
  | ok result =>
    by_cases hsucc : result.success = true
    · simp only [Interp.settle, if_pos hsucc, Interp.journalCall]
      exact ((h.recorded hseq request result).commitCheckpoint hhook).bind
        fun _ _ _ hR => .ok result hR
    · simp only [Interp.settle, if_neg hsucc]
      exact .ok result h

theorem completeCall (h : Resumed before from_ s t) {kind : Interp.CallKind}
    {request : CallRequest} {live : Interp CallResult}
    (hl : Interp.LiveCall env s.machine.nextCallSeq request live) :
    Matched (Resumed before from_)
      (completeCall env kind s.machine.nextCallSeq request live s.taken)
      (completeCall env kind s.machine.nextCallSeq request live t.taken) := by
  have hfresh : s.taken.completedCalls.get? s.machine.nextCallSeq = none := h.fresh _ le_rfl
  have hfresh' : t.taken.completedCalls.get? s.machine.nextCallSeq = none :=
    (congrArg (·.get? s.machine.nextCallSeq) h.journal_eq).trans hfresh
  obtain ⟨n, hn⟩ := hl.run_eq s.taken h.taken.waiting
  obtain ⟨n', hn'⟩ := hl.run_eq t.taken h.taken.waiting'
  have hm : Matched (Resumed before from_)
      (replayOr env kind s.machine.nextCallSeq request live s.taken)
      (replayOr env kind s.machine.nextCallSeq request live t.taken) := by
    rw [replayOr_of_none hfresh, replayOr_of_none hfresh', hn, hn']
    exact (h.taken.traced h.from_le hl.sequence_eq n n').settle hhook (Nat.lt_succ_self _)
      request hl.answer
  exact hm.bind fun result _ _ hR => .ok result.output hR.counted

end Resumed

/-- A restored run in lockstep with the original one. -/
def resumeLockstep (env : Env) (before : List IssuedCall) (from_ : ℕ)
    (hhook : ∀ cp n, env.broker.checkpoint { cp with checkpointSequence := n } =
      env.broker.checkpoint cp) : Lockstep env where
  R := Resumed before from_
  A := fun _ => True
  M := fun _ _ => True
  S := fun _ _ _ => False
  refl := fun _ => trivial
  trans := fun _ _ _ _ _ => trivial
  back := fun _ _ => trivial
  later := fun _ h => h
  machine_eq := fun h => h.machine_eq
  onMachine := fun h hm _ => h.onMachine hm
  moves := fun _ => trivial
  checkpoint := ⟨fun _ => trivial, fun _ _ h _ => .inl (h.commitCheckpoint hhook)⟩
  dispatchCall := by
    intro kind request
    refine ⟨fun _ => trivial, fun s t h _ => .inl ?_⟩
    rw [dispatchCall_eq, dispatchCall_eq, h.machine_eq]
    exact h.completeCall hhook (.tool env _ _)
  dispatchChildJob := by
    intro op config
    refine ⟨fun _ => trivial, fun s t h _ => .inl ?_⟩
    rw [dispatchChildJob_eq, dispatchChildJob_eq, h.machine_eq]
    split
    · exact .error _ h.taken
    · exact h.completeCall hhook (.child env ⟨s.machine.nextCallSeq, op, config⟩ _)

/-- The calls of the original that are not in the journal are those made since the
checkpoint. -/
theorem unjournaled_of_resumed {journal : SortedMap ℕ CompletedCall} {from_ : ℕ}
    {before after : List IssuedCall} (hall : ∀ q, (journal.get? q).isSome ↔ q < from_)
    (hbefore : ∀ call ∈ before, call.sequence < from_)
    (hafter : ∀ call ∈ after, from_ ≤ call.sequence) :
    unjournaled journal (before ++ after) = after := by
  have hnone : ∀ q, (journal.get? q).isNone = true ↔ from_ ≤ q := by
    intro q
    rw [← not_lt, ← hall q]
    cases journal.get? q <;> simp
  rw [unjournaled_append]
  have hb : unjournaled journal before = [] := by
    refine List.filter_eq_nil_iff.mpr (fun call hm => ?_)
    rw [hnone]
    exact not_le.mpr (hbefore call hm)
  have ha : unjournaled journal after = after :=
    List.filter_eq_self.mpr fun call hm => (hnone _).mpr (hafter call hm)
  rw [hb, ha, List.nil_append]

/-- The state in which a `Checkpoint` instruction has been executed. -/
theorem step_checkpoint {s' : MeteredInterpreter}
    (hop : env.program.instructions[s.machine.pc]? = some .checkpoint)
    (hstep : step env s = .running s') :
    s.machine.terminated = false ∧ s' = committed env s.fetched := by
  have hterm : s.machine.terminated = false := by
    by_contra hne
    have htrue : s.machine.terminated = true := by simpa using hne
    unfold step at hstep
    rw [htrue] at hstep
    cases hp : env.poll s.machine.budget.steps with
    | some i =>
      rw [hp] at hstep
      cases hstep
    | none =>
      rw [hp] at hstep
      cases hstep
  obtain ⟨-, op, hop', hx⟩ := step_running hstep
  cases hop.symm.trans hop'
  refine ⟨hterm, ?_⟩
  have hcommit : (commitCheckpoint env >>= fun _ => pure StepResult.continue_) s.fetched =
      .ok .continue_ s' := hx
  cases hc : commitCheckpoint env s.fetched with
  | error e s₁ =>
    rw [bind_of_error hc] at hcommit
    cases hcommit
  | ok a s₁ =>
    rw [bind_of_ok hc] at hcommit
    cases hcommit
    rw [commitCheckpoint_eq] at hc
    cases hb : env.broker.checkpoint (checkpointOf env s.fetched) with
    | error e =>
      rw [hb] at hc
      cases hc
    | ok _ =>
      rw [hb] at hc
      cases hc
      rfl

theorem Outcome.eq_running {o : Outcome} (h : o.status = none) : o = .running o.state := by
  cases o with
  | running s => rfl
  | done result s => cases h

theorem reaches_of_runFor {n : ℕ} {s' : MeteredInterpreter} (h : runFor env n s = .running s') :
    Reaches env s s' := by
  induction n generalizing s with
  | zero =>
    cases h
    exact .refl
  | succ n ih =>
    unfold runFor at h
    cases hs : step env s with
    | running s₁ =>
      rw [hs] at h
      exact .head hs (ih h)
    | done result s₁ =>
      rw [hs] at h
      cases h

/-- The call program with a checkpoint after its call. -/
def savedCallProgram : IrProgram :=
  { callProgram with instructions := [.loadString 0, .loadString 1, .makeDict 1, .constructCall,
      .executeCall, .checkpoint, .storeLocal 0, .loadLocal 0, .emit, .return_] }

def savedCallEnv : Env := .plain savedCallProgram (.fromBounds savedCallProgram.bounds)

/-- The state before the `Checkpoint` instruction. -/
def savedCallState : MeteredInterpreter :=
  (runFor savedCallEnv 5 (.started savedCallEnv .empty none)).state

/-- How a run restored from a checkpoint ends. -/
def resumedStatus (env : Env) (journal : SortedMap ℕ CompletedCall)
    (fp : Option ReplayFingerprint) (cp : InterpreterCheckpoint) : Option ProgramStatus :=
  match restoreCheckpoint env cp (.started env journal fp) with
  | .ok restored => (run env restored).status
  | .error _ => none

end Codegg.ToolProgram
