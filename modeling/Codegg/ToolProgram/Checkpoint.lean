import Codegg.ToolProgram.Interpreter

/-!
# Loading the journal and restoring a checkpoint

What a restarted interpreter does before its first instruction: it loads the
journal of completed calls and, if there is one, restores a checkpoint.
-/
namespace Codegg.ToolProgram

open Codegg.Library

namespace ProgramValue

mutual
/-- Equality of values as data: structural, with equality of doubles at the leaves. -/
def same : ProgramValue → ProgramValue → Bool
  | none, none => true
  | bool l, bool r => decide (l = r)
  | int l, int r => decide (l = r)
  | float l, float r => l.eq r
  | string l, string r => decide (l = r)
  | list l, list r => sameItems l r
  | dict l, dict r => samePairs l r
  | toolResult l, toolResult r => l.eq r
  | _, _ => false

def sameItems : List ProgramValue → List ProgramValue → Bool
  | [], [] => true
  | l :: ls, r :: rs => same l r && sameItems ls rs
  | _, _ => false

def samePairs : List (ProgramValue × ProgramValue) → List (ProgramValue × ProgramValue) → Bool
  | [], [] => true
  | (k, v) :: ps, (k', v') :: ps' => same k k' && same v v' && samePairs ps ps'
  | _, _ => false
end

mutual
/-- No double inside the value is a NaN. -/
def nanFree : ProgramValue → Bool
  | float f => !f.isNaN
  | list items => nanFreeItems items
  | dict pairs => nanFreePairs pairs
  | _ => true

def nanFreeItems : List ProgramValue → Bool
  | [] => true
  | item :: items => nanFree item && nanFreeItems items

def nanFreePairs : List (ProgramValue × ProgramValue) → Bool
  | [] => true
  | (key, value) :: pairs => nanFree key && nanFree value && nanFreePairs pairs
end

mutual
/-- A value equals itself exactly if no NaN is in it. -/
theorem same_self : ∀ v : ProgramValue, same v v = nanFree v
  | none => rfl
  | bool b => by simp [same, nanFree]
  | int i => by simp [same, nanFree]
  | float f => by cases h : f.isNaN <;> simp [same, nanFree, FloatBits.eq, h]
  | string s => by simp [same, nanFree]
  | list items => by
    unfold same nanFree
    exact sameItems_self items
  | dict pairs => by
    unfold same nanFree
    exact samePairs_self pairs
  | toolResult value => by simp [same, nanFree]

theorem sameItems_self : ∀ items : List ProgramValue, sameItems items items = nanFreeItems items
  | [] => rfl
  | item :: items => by
    unfold sameItems nanFreeItems
    rw [same_self item, sameItems_self items]

theorem samePairs_self : ∀ pairs : List (ProgramValue × ProgramValue),
    samePairs pairs pairs = nanFreePairs pairs
  | [] => rfl
  | (key, value) :: pairs => by
    unfold samePairs nanFreePairs
    rw [same_self key, same_self value, samePairs_self pairs]
end

end ProgramValue

namespace CompletedCall

/-- Equality of journal records. -/
def same (a b : CompletedCall) : Bool :=
  decide (a.sequence = b.sequence) && decide (a.request.toolName = b.request.toolName) &&
    a.request.input.eq b.request.input && decide (a.request.callId = b.request.callId) &&
    a.result.output.same b.result.output && decide (a.result.artifacts = b.result.artifacts) &&
    decide (a.result.success = b.result.success) &&
    decide (a.replayFingerprint = b.replayFingerprint)

/-- A record is equal to itself if its output has no NaN. -/
theorem same_self {c : CompletedCall} (h : c.result.output.nanFree = true) :
    c.same c = true := by
  simp [same, ProgramValue.same_self, h]

end CompletedCall

namespace MeteredInterpreter

def loadCompletedCalls (calls : SortedMap ℕ CompletedCall) (s : MeteredInterpreter) :
    MeteredInterpreter :=
  { s with completedCalls := calls }

/-- A fresh interpreter with a loaded journal and, possibly, a replay context. -/
def started (env : Env) (journal : SortedMap ℕ CompletedCall)
    (fingerprint : Option ReplayFingerprint) : MeteredInterpreter :=
  { (new env.program).loadCompletedCalls journal with replayFingerprint := fingerprint }

end MeteredInterpreter

namespace Interp

/-- Add the calls of a checkpoint to the journal; a call that is already there
has to be the same one. -/
def mergeCompleted : List CompletedCall → SortedMap ℕ CompletedCall →
    Except InterpreterError (SortedMap ℕ CompletedCall)
  | [], journal => .ok journal
  | completed :: calls, journal =>
    match journal.get? completed.sequence with
    | some durable =>
      if durable.same completed then mergeCompleted calls journal
      else .error (.replayDivergence ("conflicting completed call at sequence " ++
        toString completed.sequence))
    | none => mergeCompleted calls (journal.insert completed.sequence completed)

def verifyDigest (env : Env) (cp : InterpreterCheckpoint) : Except InterpreterError Unit :=
  let expected := env.host.materialDigest (checkpointMaterial cp)
  if cp.semanticDigest ≠ "" ∧ cp.semanticDigest ≠ expected ∧
      cp.semanticDigest ≠ env.host.legacyDigest (checkpointMaterial cp) then
    .error (.replayDivergence ("checkpoint semantic digest mismatch: expected=" ++ expected ++
      ", got=" ++ cp.semanticDigest))
  else .ok ()

/-- The stack machine a checkpoint describes, for a given journal. -/
def restoredMachine (cp : InterpreterCheckpoint) (journal : SortedMap ℕ CompletedCall)
    (m : StackMachine) : StackMachine :=
  { m with
    pc := cp.pc
    budget := { m.budget with
      steps := cp.steps
      iterations := cp.iterations
      calls := cp.callsCompleted
      bytes := cp.bytesUsed
      parallelGroups := cp.parallelGroups }
    locals := cp.locals
    stack := cp.stack
    nextCallSeq := nextSequence journal.keys }

/-- Put the operands of an interrupted child job, if there is one, back and return
to its instruction. -/
def reenterChild : Option PendingChildWait → StackMachine → Except InterpreterError StackMachine
  | none, m => .ok m
  | some pending, m =>
    match pending.operationValue, pending.configValue with
    | none, _ =>
      .error (.replayDivergence "pending child checkpoint is missing its operation operand")
    | some _, none =>
      .error (.replayDivergence "pending child checkpoint is missing its config operand")
    | some operation, some config =>
      .ok { m with
        pc := m.pc - 1
        nextCallSeq := pending.instructionSequence
        stack := config :: operation :: m.stack }

/-- Restore a checkpoint, after checking its digest. -/
def restoreCheckpoint (env : Env) (cp : InterpreterCheckpoint) (s : MeteredInterpreter) :
    Except InterpreterError MeteredInterpreter := do
  verifyDigest env cp
  let journal ← mergeCompleted cp.completedCalls s.completedCalls
  let machine ← reenterChild cp.pendingChildWait (restoredMachine cp journal s.machine)
  return { s with
    machine := machine
    completedCalls := journal
    pendingChildWait := cp.pendingChildWait }

/-- What a successful restore has checked and produced. -/
theorem restoreCheckpoint_ok {env : Env} {cp : InterpreterCheckpoint} {s s' : MeteredInterpreter}
    (h : restoreCheckpoint env cp s = .ok s') :
    ∃ journal machine, mergeCompleted cp.completedCalls s.completedCalls = .ok journal ∧
      reenterChild cp.pendingChildWait (restoredMachine cp journal s.machine) = .ok machine ∧
      s' = { s with
        machine := machine
        completedCalls := journal
        pendingChildWait := cp.pendingChildWait } := by
  unfold restoreCheckpoint at h
  cases hd : verifyDigest env cp with
  | error e =>
    rw [hd] at h
    cases h
  | ok _ =>
    cases hj : mergeCompleted cp.completedCalls s.completedCalls with
    | error e =>
      rw [hd, hj] at h
      cases h
    | ok journal =>
      cases hm : reenterChild cp.pendingChildWait (restoredMachine cp journal s.machine) with
      | error e =>
        rw [hd, hj] at h
        simp only [bind, Except.bind, hm, reduceCtorEq] at h
      | ok machine =>
        rw [hd, hj] at h
        simp only [bind, Except.bind, hm] at h
        cases h
        exact ⟨journal, machine, rfl, hm, rfl⟩

theorem reenterChild_budget {pending : Option PendingChildWait} {m m' : StackMachine}
    (h : reenterChild pending m = .ok m') : m'.budget = m.budget := by
  cases pending with
  | none =>
    cases h
    rfl
  | some pending =>
    simp only [reenterChild] at h
    split at h
    · cases h
    · cases h
    · cases h
      rfl

end Interp

end Codegg.ToolProgram
