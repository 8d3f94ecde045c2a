import Codegg.Library.StateError
import Codegg.ToolProgram.Checkpoint

/-!
# Restoring a checkpoint in place

`restoreCheckpoint` gives the outcome of a restore. The interpreter writes into
itself on the way: only the digest is checked before the first field is taken
over, so an error later leaves a state of which a part is the checkpoint's. The
caller discards an interpreter that could not be restored.
-/
namespace Codegg.ToolProgram

open Codegg.Library

namespace Interp

/-- Take over the fields of a checkpoint that are written before the calls. -/
def takeOver (cp : InterpreterCheckpoint) (s : MeteredInterpreter) : MeteredInterpreter :=
  { s with
    machine := { s.machine with
      pc := cp.pc
      budget := { s.machine.budget with
        steps := cp.steps
        iterations := cp.iterations
        calls := cp.callsCompleted
        bytes := cp.bytesUsed
        parallelGroups := cp.parallelGroups }
      locals := cp.locals
      stack := cp.stack }
    pendingChildWait := cp.pendingChildWait }

def conflictingCall (sequence : ℕ) : InterpreterError :=
  .replayDivergence ("conflicting completed call at sequence " ++ toString sequence)

def mergeCall (completed : CompletedCall) : Interp Unit := do
  let s ← get
  match s.completedCalls.get? completed.sequence with
  | some durable =>
    if durable.same completed then pure () else throw (conflictingCall completed.sequence)
  | none => set { s with completedCalls := s.completedCalls.insert completed.sequence completed }

def mergeCalls : List CompletedCall → Interp Unit
  | [] => pure ()
  | completed :: calls => do
    mergeCall completed
    mergeCalls calls

/-- The next call comes after the highest completed one. -/
def setNextCallSeq : Interp Unit :=
  modify fun s => { s with
    machine := { s.machine with nextCallSeq := nextSequence s.completedCalls.keys } }

def reenterPending : Interp Unit := do
  let s ← get
  match reenterChild s.pendingChildWait s.machine with
  | .ok machine => set { s with machine := machine }
  | .error e => throw e

/-- The restore as the interpreter does it, field after field. -/
def restoreInPlace (env : Env) (cp : InterpreterCheckpoint) : Interp Unit := do
  ofExcept (verifyDigest env cp)
  modify (takeOver cp)
  mergeCalls cp.completedCalls
  setNextCallSeq
  reenterPending

/-! ### Merging -/

section Merging

variable {s s' : MeteredInterpreter} {completed durable : CompletedCall}

theorem mergeCall_of_none (h : s.completedCalls.get? completed.sequence = none) :
    mergeCall completed s = .ok () { s with
      completedCalls := s.completedCalls.insert completed.sequence completed } := by
  unfold mergeCall
  rw [get_bind, h]
  rfl

theorem mergeCall_of_same (h : s.completedCalls.get? completed.sequence = some durable)
    (hsame : durable.same completed = true) : mergeCall completed s = .ok () s := by
  unfold mergeCall
  rw [get_bind, h]
  simp only [hsame]
  rfl

theorem mergeCall_of_conflict (h : s.completedCalls.get? completed.sequence = some durable)
    (hsame : durable.same completed = false) :
    mergeCall completed s = .error (conflictingCall completed.sequence) s := by
  unfold mergeCall
  rw [get_bind, h]
  simp only [hsame]
  rfl

/-- What a journal keeps and gains while calls are merged into it. -/
structure Merged (calls : List CompletedCall) (journal journal' : SortedMap ℕ CompletedCall) :
    Prop where
  kept : ∀ seq c, journal.get? seq = some c → journal'.get? seq = some c
  gained : ∀ seq c, journal'.get? seq = some c →
    journal.get? seq = some c ∨ c ∈ calls ∧ c.sequence = seq

theorem Merged.refl (calls : List CompletedCall) (journal : SortedMap ℕ CompletedCall) :
    Merged calls journal journal :=
  ⟨fun _ _ h => h, fun _ _ h => .inl h⟩

theorem Merged.cons {calls : List CompletedCall} {journal journal' : SortedMap ℕ CompletedCall}
    (h : Merged calls journal journal') : Merged (completed :: calls) journal journal' := by
  refine ⟨h.kept, fun seq c hc => ?_⟩
  exact (h.gained seq c hc).imp_right fun hmem => ⟨List.mem_cons_of_mem _ hmem.1, hmem.2⟩

theorem Merged.insert {calls : List CompletedCall} {journal journal' : SortedMap ℕ CompletedCall}
    (hnone : journal.get? completed.sequence = none)
    (h : Merged calls (journal.insert completed.sequence completed) journal') :
    Merged (completed :: calls) journal journal' := by
  constructor
  · intro seq c hc
    apply h.kept
    rw [SortedMap.get?_insert]
    split_ifs with hseq
    · rw [hseq, hnone] at hc
      cases hc
    · exact hc
  · intro seq c hc
    rcases h.gained seq c hc with hin | hmem
    · rw [SortedMap.get?_insert] at hin
      split_ifs at hin with hseq
      · cases hin
        exact .inr ⟨List.mem_cons_self, hseq.symm⟩
      · exact .inl hin
    · exact .inr ⟨List.mem_cons_of_mem _ hmem.1, hmem.2⟩

/-- The merge in place changes the journal only, and stops at the first conflict
with the journal that it had reached. -/
theorem mergeCalls_spec (calls : List CompletedCall) (s : MeteredInterpreter) :
    ∃ journal, Merged calls s.completedCalls journal ∧
      ((mergeCompleted calls s.completedCalls = .ok journal ∧
          mergeCalls calls s = .ok () { s with completedCalls := journal }) ∨
        ∃ completed ∈ calls, ∃ durable, journal.get? completed.sequence = some durable ∧
          durable.same completed = false ∧
          mergeCompleted calls s.completedCalls = .error (conflictingCall completed.sequence) ∧
          mergeCalls calls s =
            .error (conflictingCall completed.sequence) { s with completedCalls := journal }) := by
  induction calls generalizing s with
  | nil => exact ⟨_, .refl _ _, .inl ⟨rfl, rfl⟩⟩
  | cons completed calls ih =>
    rw [mergeCompleted, mergeCalls]
    cases hget : s.completedCalls.get? completed.sequence with
    | none =>
      obtain ⟨journal, hmerged, hrest⟩ := ih
        { s with completedCalls := s.completedCalls.insert completed.sequence completed }
      refine ⟨journal, hmerged.insert hget, ?_⟩
      rw [bind_of_ok (mergeCall_of_none hget)]
      refine hrest.imp id ?_
      rintro ⟨c, hc, h⟩
      exact ⟨c, List.mem_cons_of_mem _ hc, h⟩
    | some durable =>
      cases hsame : durable.same completed with
      | true =>
        obtain ⟨journal, hmerged, hrest⟩ := ih s
        refine ⟨journal, hmerged.cons, ?_⟩
        rw [bind_of_ok (mergeCall_of_same hget hsame)]
        simp only [hsame]
        refine hrest.imp id ?_
        rintro ⟨c, hc, h⟩
        exact ⟨c, List.mem_cons_of_mem _ hc, h⟩
      | false =>
        refine ⟨s.completedCalls, .refl _ _, .inr ⟨completed, List.mem_cons_self, durable, hget,
          hsame, ?_, ?_⟩⟩
        · simp only [hsame]
          rfl
        · exact bind_of_error (mergeCall_of_conflict hget hsame)

end Merging

/-! ### The restore -/

section Restore

variable {env : Env} {cp : InterpreterCheckpoint} {s s' : MeteredInterpreter}
  {e : InterpreterError}

/-- The state after the merge, with the number of the next call. -/
def merged (cp : InterpreterCheckpoint) (journal : SortedMap ℕ CompletedCall) (next : ℕ)
    (s : MeteredInterpreter) : MeteredInterpreter :=
  { takeOver cp s with
    machine := { (takeOver cp s).machine with nextCallSeq := next }
    completedCalls := journal }

theorem reenterPending_of_ok {journal : SortedMap ℕ CompletedCall} {machine : StackMachine}
    (h : reenterChild cp.pendingChildWait (restoredMachine cp journal s.machine) = .ok machine) :
    reenterPending (merged cp journal (nextSequence journal.keys) s) = .ok () { s with
      machine := machine
      completedCalls := journal
      pendingChildWait := cp.pendingChildWait } := by
  unfold reenterPending
  rw [get_bind]
  change reenterChild (merged cp journal (nextSequence journal.keys) s).pendingChildWait
    (merged cp journal (nextSequence journal.keys) s).machine = .ok machine at h
  rw [h]
  rfl

theorem reenterPending_of_error {journal : SortedMap ℕ CompletedCall}
    (h : reenterChild cp.pendingChildWait (restoredMachine cp journal s.machine) = .error e) :
    reenterPending (merged cp journal (nextSequence journal.keys) s) =
      .error e (merged cp journal (nextSequence journal.keys) s) := by
  unfold reenterPending
  rw [get_bind]
  change reenterChild (merged cp journal (nextSequence journal.keys) s).pendingChildWait
    (merged cp journal (nextSequence journal.keys) s).machine = .error e at h
  rw [h]
  rfl

/-- Re-entering a child fails only for want of an operand. -/
theorem missing_operand_of_error {pending : Option PendingChildWait} {m : StackMachine}
    (h : reenterChild pending m = .error e) :
    ∃ p, pending = some p ∧ (p.operationValue = none ∨ p.configValue = none) := by
  cases pending with
  | none => cases h
  | some p =>
    refine ⟨p, rfl, ?_⟩
    simp only [reenterChild] at h
    split at h
    · rename_i hop
      exact .inl hop
    · rename_i hconfig
      exact .inr hconfig
    · cases h

/-- What a failed restore has left behind: nothing but the digest's error comes before
the fields of the checkpoint are taken over. -/
def LeftBehind (env : Env) (cp : InterpreterCheckpoint) (e : InterpreterError)
    (s s' : MeteredInterpreter) : Prop :=
  (verifyDigest env cp = .error e ∧ s' = s) ∨
    verifyDigest env cp = .ok () ∧ ∃ journal next, s' = merged cp journal next s ∧
      Merged cp.completedCalls s.completedCalls journal ∧
      ((∃ completed ∈ cp.completedCalls, ∃ durable,
          journal.get? completed.sequence = some durable ∧ durable.same completed = false ∧
          next = s.machine.nextCallSeq) ∨
        ∃ pending, cp.pendingChildWait = some pending ∧
          (pending.operationValue = none ∨ pending.configValue = none) ∧
          next = nextSequence journal.keys)

/-- With the digest checked, the merge goes on from the fields taken over. -/
theorem restoreInPlace_of_digest (h : verifyDigest env cp = .ok ()) :
    restoreInPlace env cp s =
      (do mergeCalls cp.completedCalls; setNextCallSeq; reenterPending : Interp Unit)
        (takeOver cp s) := by
  unfold restoreInPlace
  rw [h]
  rfl

/-- Field after field, a restore has the outcome of `restoreCheckpoint`, and says what it
leaves behind when it fails. -/
theorem restoreInPlace_spec (env : Env) (cp : InterpreterCheckpoint) (s : MeteredInterpreter) :
    (∃ s', restoreCheckpoint env cp s = .ok s' ∧ restoreInPlace env cp s = .ok () s') ∨
      ∃ e s', restoreCheckpoint env cp s = .error e ∧ restoreInPlace env cp s = .error e s' ∧
        LeftBehind env cp e s s' := by
  unfold restoreCheckpoint
  cases hdigest : verifyDigest env cp with
  | error e =>
    refine .inr ⟨e, s, rfl, ?_, .inl ⟨hdigest, rfl⟩⟩
    unfold restoreInPlace
    rw [hdigest]
    rfl
  | ok u =>
    rw [restoreInPlace_of_digest hdigest]
    obtain ⟨journal, hmerged, hmerge⟩ := mergeCalls_spec cp.completedCalls (takeOver cp s)
    rcases hmerge with ⟨hok, hrun⟩ | ⟨completed, hmem, durable, hget, hsame, herr, hrun⟩
    · have hok' : mergeCompleted cp.completedCalls s.completedCalls = .ok journal := hok
      cases hchild : reenterChild cp.pendingChildWait (restoredMachine cp journal s.machine) with
      | ok machine =>
        refine .inl ⟨{ s with
          machine := machine
          completedCalls := journal
          pendingChildWait := cp.pendingChildWait }, ?_, ?_⟩
        · simp only [bind, Except.bind, hok', hchild]
          rfl
        · rw [bind_of_ok hrun]
          exact reenterPending_of_ok hchild
      | error e =>
        refine .inr ⟨e, merged cp journal (nextSequence journal.keys) s, ?_, ?_, .inr ⟨hdigest,
          journal, _, rfl, hmerged, .inr ?_⟩⟩
        · simp only [bind, Except.bind, hok', hchild]
        · rw [bind_of_ok hrun]
          exact reenterPending_of_error hchild
        · obtain ⟨p, hp, hnone⟩ := missing_operand_of_error hchild
          exact ⟨p, hp, hnone, rfl⟩
    · have herr' : mergeCompleted cp.completedCalls s.completedCalls =
          .error (conflictingCall completed.sequence) := herr
      refine .inr ⟨_, merged cp journal s.machine.nextCallSeq s, ?_, bind_of_error hrun, .inr
        ⟨hdigest, journal, _, rfl, hmerged, .inl ⟨completed, hmem, durable, hget, hsame, rfl⟩⟩⟩
      simp only [bind, Except.bind, herr']

/-- A failed restore leaves the interpreter as it was when the digest is wrong; after
that the checkpoint's fields stay, and of the journal nothing is lost. -/
theorem restoreInPlace_error (env : Env) (cp : InterpreterCheckpoint)
    (s s' : MeteredInterpreter) (e : InterpreterError)
    (h : restoreInPlace env cp s = .error e s') : LeftBehind env cp e s s' := by
  rcases restoreInPlace_spec env cp s with ⟨_, -, hok⟩ | ⟨e', t, -, herr, hleft⟩
  · rw [hok] at h
    cases h
  · rw [herr] at h
    cases h
    exact hleft

end Restore

/-- A checkpoint of a child wait that has lost its operands. -/
def operandsLost : InterpreterCheckpoint where
  pc := 3
  steps := 0
  iterations := 0
  callsCompleted := 0
  bytesUsed := 0
  parallelGroups := 0
  locals := []
  stack := []
  pendingChildWait := some ⟨"child", 0, "spawn", "", "", "", "pc:0", 0, "", none, none⟩
  originalDeadlineMillis := none
  checkpointSequence := 0
  semanticDigest := ""
  completedCalls := []

def emptyEnv : Env := .plain ⟨[], 0, ⟨0, 0, 0, 0, 0, 0, 0, 0, 0⟩, [], [], []⟩ ⟨0, 0, 0, 0, 0, 0, 0, 0, 0⟩

theorem restoreInPlace_error_operandsLost :
    LeftBehind emptyEnv operandsLost
      (.replayDivergence "pending child checkpoint is missing its operation operand")
      (.new emptyEnv.program) (merged operandsLost .empty 0 (.new emptyEnv.program)) :=
  restoreInPlace_error emptyEnv operandsLost (.new emptyEnv.program) _ _ rfl

/-- The restore fails at the child, with the program counter already moved. -/
theorem restoreInPlace_not_atomic :
    ¬∀ (env : Env) (cp : InterpreterCheckpoint) (s s' : MeteredInterpreter)
      (e : InterpreterError), restoreInPlace env cp s = .error e s' →
        s'.machine = s.machine ∧ s'.pendingChildWait = s.pendingChildWait ∧
          s'.completedCalls = s.completedCalls := by
  intro h
  have hsame := (h emptyEnv operandsLost (.new emptyEnv.program) _ _ rfl).1
  have hpc := congrArg StackMachine.pc hsame
  cases hpc

end Interp

end Codegg.ToolProgram
