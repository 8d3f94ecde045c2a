import Codegg.ToolProgram.Calls
import Codegg.ToolProgram.Checkpoint
import Codegg.ToolProgram.Lockstep

/-!
# Replaying a run from its journal

A run is repeated from its first instruction with a prefix of its own journal
loaded. Calls whose sequence number is in the journal are answered from it and do
not reach the broker. As long as checkpoints are accepted, the second run ends
exactly as the first did, or its context differs from the recorded one and it
stops at the first journaled call.
-/
namespace Codegg.ToolProgram

open Codegg.Library Interp

/-- Calls that are not in the journal. -/
def unjournaled (journal : SortedMap ℕ CompletedCall) (calls : List IssuedCall) :
    List IssuedCall :=
  calls.filter fun call => (journal.get? call.sequence).isNone

theorem unjournaled_append (journal : SortedMap ℕ CompletedCall) (calls calls' : List IssuedCall) :
    unjournaled journal (calls ++ calls') = unjournaled journal calls ++ unjournaled journal calls' :=
  List.filter_append _ _

variable {seq : ℕ} {calls : List IssuedCall} {s : MeteredInterpreter}

theorem unjournaled_of_none {journal : SortedMap ℕ CompletedCall} (h : journal.get? seq = none)
    (hc : ∀ call ∈ calls, call.sequence = seq) : unjournaled journal calls = calls := by
  refine List.filter_eq_self.mpr (fun call hm => ?_)
  rw [hc call hm, h]
  rfl

theorem unjournaled_of_some {journal : SortedMap ℕ CompletedCall} {c : CompletedCall}
    (h : journal.get? seq = some c) (hc : ∀ call ∈ calls, call.sequence = seq) :
    unjournaled journal calls = [] := by
  refine List.filter_eq_nil_iff.mpr (fun call hm => ?_)
  rw [hc call hm, h]
  simp

/-! ### Journaled calls are not issued -/

/-- What the loaded journal says about calls to come is still there, and no call of
it has been issued. -/
structure NotIssued (journal : SortedMap ℕ CompletedCall) (s : MeteredInterpreter) : Prop where
  loaded : ∀ q, s.machine.nextCallSeq ≤ q → s.completedCalls.get? q = journal.get? q
  issued : ∀ call ∈ s.issued, journal.get? call.sequence = none

variable {env : Env} {journal : SortedMap ℕ CompletedCall}

/-- Making a call that is not in the journal. -/
theorem NotIssued.of_outside {s' : MeteredInterpreter} (h : NotIssued journal s)
    (hseq : s.completedCalls.get? s.machine.nextCallSeq = none)
    (ho : Outside s.machine.nextCallSeq s.taken s') : NotIssued journal s' where
  loaded := by
    intro q hq
    rw [ho.machine_eq] at hq
    have hlt : s.machine.nextCallSeq < q := hq
    rw [ho.journal_eq q (ne_of_gt hlt)]
    exact h.loaded q hlt.le
  issued := by
    obtain ⟨new, he, hn⟩ := ho.issued_eq
    intro call hc
    rw [he] at hc
    rcases List.mem_append.mp hc with hm | hm
    · exact h.issued call hm
    · rw [hn call hm, ← h.loaded _ le_rfl]
      exact hseq

theorem NotIssued.taken (h : NotIssued journal s) :
    NotIssued journal s.taken where
  loaded := fun q hq => h.loaded q (le_trans (Nat.le_succ _) hq)
  issued := h.issued

theorem NotIssued.completeCall {kind : Interp.CallKind} {request : CallRequest}
    {live : Interp CallResult} (h : NotIssued journal s)
    (hlive : Outside s.machine.nextCallSeq s.taken (finalState (live s.taken)) ∨
      ∃ e, live s.taken = .error e (s.taken.mapInflight (· + 1))) :
    NotIssued journal
      (finalState (completeCall env kind s.machine.nextCallSeq request live s.taken)) := by
  have hreplay : NotIssued journal (finalState
      (replayOr env kind s.machine.nextCallSeq request live s.taken)) := by
    cases hseq : s.taken.completedCalls.get? s.machine.nextCallSeq with
    | some completed =>
      rw [replayOr_of_some hseq, finalState_ofExcept]
      exact h.taken
    | none =>
      rw [replayOr_of_none hseq]
      rcases hlive with ho | ⟨e, he⟩
      · exact h.of_outside hseq ho
      · rw [he]
        exact ⟨h.taken.loaded, h.taken.issued⟩
  unfold Interp.completeCall
  refine bind_cases s.taken (C := fun r => NotIssued journal (finalState r)) ?_ ?_
  · intro result s' hr
    rw [hr] at hreplay
    exact ⟨hreplay.loaded, hreplay.issued⟩
  · intro e s' hr
    rw [hr] at hreplay
    exact hreplay

/-- The invariant as a run in lockstep with itself. -/
def NotIssued.lockstep (env : Env) (journal : SortedMap ℕ CompletedCall) : Lockstep env where
  toPursuit := Pursuit.diagonal InterpreterError (NotIssued journal)
  machine_eq := by
    rintro s t ⟨rfl, -⟩
    rfl
  onMachine := by
    rintro s t m ⟨rfl, h⟩ hm -
    exact ⟨rfl, fun q hq => h.loaded q (hm ▸ hq), h.issued⟩
  moves := fun _ => trivial
  checkpoint := by
    refine Pursuit.diagonal_follows (fun s h => ?_)
    rw [commitCheckpoint_eq]
    cases env.broker.checkpoint (checkpointOf env s) with
    | ok _ => exact ⟨h.loaded, h.issued⟩
    | error e => exact ⟨h.loaded, h.issued⟩
  dispatchCall := by
    intro kind request
    refine Pursuit.diagonal_follows (fun s h => ?_)
    rw [dispatchCall_eq]
    exact h.completeCall (.inl (outside_liveCall _ _ _))
  dispatchChildJob := by
    intro op config
    refine Pursuit.diagonal_follows (fun s h => ?_)
    rw [dispatchChildJob_eq]
    split
    · exact h.taken
    · exact h.completeCall (outside_liveChildJob s.taken
        ⟨s.machine.nextCallSeq, op, config⟩ _)

/-- A run with a loaded journal issues none of its calls, whatever the broker says. -/
theorem run_notIssued (env : Env) (journal : SortedMap ℕ CompletedCall)
    (fingerprint : Option ReplayFingerprint) :
    ∀ call ∈ (run env (.started env journal fingerprint)).state.issued,
      journal.get? call.sequence = none := by
  have hstart : NotIssued journal (.started env journal fingerprint) :=
    ⟨fun _ _ => rfl, fun _ h => by cases h⟩
  rcases (NotIssued.lockstep env journal).run_follows ⟨rfl, hstart⟩ trivial with
    hmatch | ⟨_, _, _, hS⟩
  · cases hr : run env (.started env journal fingerprint) with
    | running s =>
      rw [hr] at hmatch
      cases hmatch with
      | running h => exact h.2.issued
    | done result s =>
      rw [hr] at hmatch
      cases hmatch with
      | done _ h => exact h.2.issued
  · exact hS.elim

/-! ### The replay follows the original -/

/-- A replay under context `fp'` follows an original run under `fp`: it has the same
stack machine, the journal has its answers for the calls to come, which the
original has not made yet, and it has issued what is not in the journal. -/
structure Replays (journal : SortedMap ℕ CompletedCall) (fp fp' : Option ReplayFingerprint)
    (s t : MeteredInterpreter) : Prop where
  machine_eq : t.machine = s.machine
  fresh : ∀ q, s.machine.nextCallSeq ≤ q → s.completedCalls.get? q = none
  loaded : ∀ q, s.machine.nextCallSeq ≤ q → t.completedCalls.get? q = journal.get? q
  waiting : s.pendingChildWait = none
  waiting' : t.pendingChildWait = none
  context : s.replayFingerprint = fp
  context' : t.replayFingerprint = fp'
  issued_eq : t.issued = unjournaled journal s.issued

/-- The original run has journaled the calls of the journal that it has made. -/
def Wrote (journal : SortedMap ℕ CompletedCall) (s : MeteredInterpreter) : Prop :=
  ∀ q c, journal.get? q = some c → q < s.machine.nextCallSeq → s.completedCalls.get? q = some c

/-- The replay stops where its context differs from the recorded one. So far it has
only issued calls that the original has issued. -/
structure Diverges (journal : SortedMap ℕ CompletedCall) (fp fp' : Option ReplayFingerprint)
    (s : MeteredInterpreter) (e : InterpreterError) (t : MeteredInterpreter) : Prop where
  error_eq : ∃ msg, e = .replayDivergence msg
  contexts : ∃ stored current, fp = some stored ∧ fp' = some current ∧ current ≠ stored
  issued_prefix : t.issued <+: unjournaled journal s.issued

def replayPursuit (journal : SortedMap ℕ CompletedCall) (fp fp' : Option ReplayFingerprint) :
    Pursuit InterpreterError MeteredInterpreter where
  R := Replays journal fp fp'
  A := Wrote journal
  M := Extends
  S := Diverges journal fp fp'
  refl := .refl
  trans := .trans
  back := by
    intro s s' hm hA q c hq hlt
    rw [← hm.journal_old q hlt]
    exact hA q c hq (hlt.trans_le hm.seq_le)
  later := by
    intro s s' e t hm hS
    exact ⟨hS.error_eq, hS.contexts, hS.issued_prefix.trans (hm.issued_prefix.filter _)⟩

section

variable {fp fp' : Option ReplayFingerprint} {s t : MeteredInterpreter}

theorem Replays.taken (h : Replays journal fp fp' s t) : Replays journal fp fp' s.taken t.taken :=
  { h with
    machine_eq := by simp only [MeteredInterpreter.taken, h.machine_eq]
    fresh := fun q hq => h.fresh q (le_trans (Nat.le_succ _) hq)
    loaded := fun q hq => h.loaded q (le_trans (Nat.le_succ _) hq) }

/-- Both make a call that is not in the journal. -/
theorem Replays.live (h : Replays journal fp fp' s t) (hseq : journal.get? seq = none)
    (hc : ∀ call ∈ calls, call.sequence = seq) (n n' : ℕ) :
    Replays journal fp fp' { s.traced calls with nextCheckpointSequence := n }
      { t.traced calls with nextCheckpointSequence := n' } :=
  { h with
    issued_eq := by
      show t.issued ++ calls = unjournaled journal (s.issued ++ calls)
      rw [unjournaled_append, unjournaled_of_none hseq hc, h.issued_eq] }

/-- The original makes a call that is in the journal. -/
theorem Replays.skip (h : Replays journal fp fp' s t) {c : CompletedCall}
    (hseq : journal.get? seq = some c) (hc : ∀ call ∈ calls, call.sequence = seq) (n : ℕ) :
    Replays journal fp fp' { s.traced calls with nextCheckpointSequence := n } t :=
  { h with
    issued_eq := by
      show t.issued = unjournaled journal (s.issued ++ calls)
      rw [unjournaled_append, unjournaled_of_some hseq hc, List.append_nil, h.issued_eq] }

/-- The original journals a call that it has made. -/
theorem Replays.record (h : Replays journal fp fp' s t) {seq : ℕ}
    (hseq : seq < s.machine.nextCallSeq) (request : CallRequest) (result : CallResult) :
    Replays journal fp fp' (committed env (s.recorded seq request result)) t :=
  { h with
    fresh := by
      intro q hq
      have hne : q ≠ seq := ne_of_gt (hseq.trans_le hq)
      exact (SortedMap.get?_insert _ _ _ _).trans ((if_neg hne).trans (h.fresh q hq)) }

/-- The replay journals a call that it has made. -/
theorem Replays.record' (h : Replays journal fp fp' s t) (hseq : seq < s.machine.nextCallSeq)
    (request : CallRequest) (result : CallResult) :
    Replays journal fp fp' s (committed env (t.recorded seq request result)) :=
  { h with
    loaded := by
      intro q hq
      have hne : q ≠ seq := ne_of_gt (hseq.trans_le hq)
      exact (SortedMap.get?_insert _ _ _ _).trans ((if_neg hne).trans (h.loaded q hq)) }

theorem Replays.onMachine (h : Replays journal fp fp' s t) {m : StackMachine}
    (hm : m.nextCallSeq = s.machine.nextCallSeq) :
    Replays journal fp fp' { s with machine := m } { t with machine := m } :=
  { h with
    machine_eq := rfl
    fresh := fun q hq => h.fresh q (hm ▸ hq)
    loaded := fun q hq => h.loaded q (hm ▸ hq) }

theorem Replays.counted (h : Replays journal fp fp' s t) :
    Replays journal fp fp' s.counted t.counted := by
  have := h.onMachine (m := s.counted.machine) rfl
  rw [show t.counted = { t with machine := s.counted.machine } by
    simp only [MeteredInterpreter.counted, h.machine_eq]]
  exact this

/-- A journaled call is replayed with its result, unless the contexts differ. -/
theorem replayCompleted_self (kind : Interp.CallKind) (current stored : Option ReplayFingerprint)
    (seq : ℕ) (request : CallRequest) (result : CallResult) :
    replayCompleted env kind current seq request ⟨seq, request, result, stored⟩ =
        .ok result ∨
      (∃ msg, replayCompleted env kind current seq request ⟨seq, request, result, stored⟩ =
        .error (.replayDivergence msg)) ∧
        ∃ a b, stored = some a ∧ current = some b ∧ b ≠ a := by
  unfold replayCompleted
  rw [if_neg (by simp)]
  unfold verifyReplayFingerprint
  cases current with
  | none => exact .inl rfl
  | some b =>
    cases stored with
    | none => exact .inl rfl
    | some a =>
      by_cases hab : b = a
      · simp only [if_pos hab]
        exact .inl trivial
      · simp only [if_neg hab]
        exact .inr ⟨⟨_, rfl⟩, a, b, rfl, rfl, hab⟩

variable (hcp : ∀ cp, env.broker.checkpoint cp = .ok ())

include hcp

/-- The second half of a call, made by the original and followed by the replay. -/
theorem Replays.completeCall (h : Replays journal fp fp' s t) {kind : Interp.CallKind}
    {request : CallRequest} {live : Interp CallResult}
    (hl : Interp.LiveCall env s.machine.nextCallSeq request live)
    (hA : Wrote journal (finalState
      (completeCall env kind s.machine.nextCallSeq request live s.taken))) :
    Matched (Replays journal fp fp')
        (completeCall env kind s.machine.nextCallSeq request live s.taken)
        (completeCall env kind s.machine.nextCallSeq request live t.taken) ∨
      ∃ e t', completeCall env kind s.machine.nextCallSeq request live t.taken =
          .error e t' ∧
        Diverges journal fp fp' (finalState
          (completeCall env kind s.machine.nextCallSeq request live s.taken)) e t' := by
  have htaken := h.taken
  have hlt : s.machine.nextCallSeq < s.taken.machine.nextCallSeq := Nat.lt_succ_self _
  have hfresh : s.taken.completedCalls.get? s.machine.nextCallSeq = none := h.fresh _ le_rfl
  have hloaded : t.taken.completedCalls.get? s.machine.nextCallSeq =
      journal.get? s.machine.nextCallSeq := h.loaded _ le_rfl
  obtain ⟨n, hn⟩ := hl.run_eq s.taken htaken.waiting
  have hs : replayOr env kind s.machine.nextCallSeq request live s.taken = _ :=
    (replayOr_of_none hfresh).trans hn
  cases hj : journal.get? s.machine.nextCallSeq with
  | none =>
    -- Both make the call and get the same answer.
    rw [hj] at hloaded
    obtain ⟨n', hn'⟩ := hl.run_eq t.taken htaken.waiting'
    have ht : replayOr env kind s.machine.nextCallSeq request live t.taken = _ :=
      (replayOr_of_none hloaded).trans hn'
    have hlive := htaken.live hj hl.sequence_eq n n'
    left
    cases hans : hl.answer with
    | error e =>
      rw [hans] at hs ht
      rw [completeCall_of_error hs, completeCall_of_error ht]
      exact .error e hlive
    | ok result =>
      rw [hans] at hs ht
      by_cases hsucc : result.success = true
      · simp only [settle, if_pos hsucc, journalCall_of_accepts hcp] at hs ht
        rw [completeCall_of_ok hs, completeCall_of_ok ht]
        exact .ok _ ((hlive.record hlt request result).record' hlt request result).counted
      · simp only [settle, if_neg hsucc] at hs ht
        rw [completeCall_of_ok hs, completeCall_of_ok ht]
        exact .ok _ hlive.counted
  | some c =>
    rw [hj] at hloaded
    have hskip := htaken.skip hj hl.sequence_eq n
    cases hans : hl.answer with
    | error e =>
      -- A call that failed is not in the journal.
      rw [hans] at hs
      rw [completeCall_of_error hs] at hA
      have hw := hA _ c hj hlt
      exact absurd (hfresh.symm.trans hw) (by simp)
    | ok result =>
      rw [hans] at hs
      by_cases hsucc : result.success = true
      · simp only [settle, if_pos hsucc, journalCall_of_accepts hcp] at hs
        rw [completeCall_of_ok hs] at hA ⊢
        have hw := hA _ c hj hlt
        have hc : c = ⟨s.machine.nextCallSeq, request, result, s.replayFingerprint⟩ := by
          have hget := SortedMap.get?_insert s.completedCalls s.machine.nextCallSeq
            s.machine.nextCallSeq ⟨s.machine.nextCallSeq, request, result, s.replayFingerprint⟩
          rw [if_pos rfl] at hget
          exact Option.some.inj (hw.symm.trans hget)
        have ht := @replayOr_of_some env kind _ request live _ _ hloaded
        have hrecord := @Replays.record env _ _ _ _ _ hskip _ hlt request result
        rw [hc] at ht
        rcases replayCompleted_self kind t.taken.replayFingerprint s.replayFingerprint
          s.machine.nextCallSeq request result with hok | ⟨⟨msg, herr⟩, a, b, ha, hb, hab⟩
        · rw [hok] at ht
          rw [completeCall_of_ok ht]
          exact .inl (.ok _ hrecord.counted)
        · rw [herr] at ht
          right
          refine ⟨_, _, completeCall_of_error ht, ⟨msg, rfl⟩, ⟨a, b, ?_, ?_, hab⟩, ?_⟩
          · exact h.context.symm.trans ha
          · exact h.context'.symm.trans hb
          · exact hrecord.issued_eq ▸ List.prefix_rfl
      · simp only [settle, if_neg hsucc] at hs
        rw [completeCall_of_ok hs] at hA
        have hw := hA _ c hj hlt
        exact absurd (hfresh.symm.trans hw) (by simp)

end

/-- A replay in lockstep with the original run. -/
def replayLockstep (env : Env) (journal : SortedMap ℕ CompletedCall)
    (fp fp' : Option ReplayFingerprint) (hcp : ∀ cp, env.broker.checkpoint cp = .ok ()) :
    Lockstep env where
  toPursuit := replayPursuit journal fp fp'
  machine_eq := fun h => h.machine_eq
  onMachine := fun h hm _ => h.onMachine hm
  moves := fun h => h
  checkpoint := by
    refine ⟨fun s => (progress_commitCheckpoint s).toExtends, fun s t h _ => ?_⟩
    rw [commitCheckpoint_eq, commitCheckpoint_eq, hcp, hcp]
    exact .inl (.ok () ⟨h.machine_eq, h.fresh, h.loaded, h.waiting, h.waiting', h.context,
      h.context', h.issued_eq⟩)
  dispatchCall := by
    intro kind request
    refine ⟨fun s => (progress_dispatchCall kind request s).toExtends, fun s t h hA => ?_⟩
    rw [dispatchCall_eq] at hA
    rw [dispatchCall_eq, dispatchCall_eq, h.machine_eq]
    exact h.completeCall hcp (.tool env _ _) hA
  dispatchChildJob := by
    intro op config
    refine ⟨fun s => (progress_dispatchChildJob op config s).toExtends,
      fun s t h hA => ?_⟩
    rw [dispatchChildJob_eq] at hA
    rw [dispatchChildJob_eq, dispatchChildJob_eq, h.machine_eq]
    split
    · exact .inl (.error _ h.taken)
    · rename_i hcalls
      rw [if_neg hcalls] at hA
      exact h.completeCall hcp (.child env ⟨s.machine.nextCallSeq, op, config⟩ _) hA

/-- A replay with a prefix of the journal of a run issues no call of that prefix. If
the checkpoint hook accepts, it ends with the same result and the same machine,
having issued exactly the other calls of the original; or it stops with a replay
divergence, its context being another one, before it has issued a call that the
original did not issue. -/
theorem replay_repeats_nothing (env : Env) (fp fp' : Option ReplayFingerprint) (n : ℕ) :
    let original := run env (.started env .empty fp)
    let journal := original.state.completedCalls.take n
    let replay := run env (.started env journal fp')
    (∀ call ∈ replay.state.issued, journal.get? call.sequence = none) ∧
      ((∀ cp, env.broker.checkpoint cp = .ok ()) →
        (∃ result s t, original = .done result s ∧ replay = .done result t ∧
          t.machine = s.machine ∧ t.issued = unjournaled journal s.issued) ∨
        (∃ msg t, replay = .done (errorResult (.replayDivergence msg) t.machine.budget) t ∧
          (∃ stored current, fp = some stored ∧ fp' = some current ∧ current ≠ stored) ∧
          t.issued <+: unjournaled journal original.state.issued)) := by
  intro original journal replay
  refine ⟨run_notIssued env journal fp', fun hcp => ?_⟩
  have hstart : Replays journal fp fp' (.started env .empty fp) (.started env journal fp') :=
    ⟨rfl, fun _ _ => rfl, fun _ _ => rfl, rfl, rfl, rfl, rfl, rfl⟩
  have hwrote : Wrote journal original.state := fun q c hq _ => SortedMap.get?_of_get?_take hq
  rcases (replayLockstep env journal fp fp' hcp).run_follows hstart hwrote with
    hmatch | ⟨e, t, ht, hS⟩
  · left
    obtain ⟨result, s, hs⟩ := run_done env (.started env .empty fp)
    obtain ⟨result', t, ht⟩ := run_done env (.started env journal fp')
    rw [hs, ht] at hmatch
    cases hmatch with
    | done _ h => exact ⟨result, s, t, hs, ht, h.machine_eq, h.issued_eq⟩
  · right
    obtain ⟨msg, rfl⟩ := hS.error_eq
    exact ⟨msg, t, ht, hS.contexts, hS.issued_prefix⟩

/-- The program `x = call({"tool": "t"})`, then `emit(x)`. -/
def callProgram : IrProgram where
  instructions := [.loadString 0, .loadString 1, .makeDict 1, .constructCall, .executeCall,
    .storeLocal 0, .loadLocal 0, .emit, .return_]
  localCount := 1
  bounds := ⟨100, 0, 0, 1, 1, 0, 0, 1, 10000⟩
  strings := ["tool", "t"]
  integers := []
  floats := []

def callEnv : Env := .plain callProgram (.fromBounds callProgram.bounds)

/-- The journal of the program holds its call; the replay completes and issues nothing. -/
theorem replay_repeats_nothing_callProgram :
    let original := run callEnv (.started callEnv .empty none)
    let journal := original.state.completedCalls.take 1
    let replay := run callEnv (.started callEnv journal none)
    original.state.issued.map (·.sequence) = [0] ∧ journal.keys = [0] ∧
      replay.status = some .completed ∧ replay.state.issued = [] := by
  intro original journal replay
  have hissued : original.state.issued.map (·.sequence) = [0] := by decide +kernel
  have hkeys : journal.keys = [0] := by decide +kernel
  have hstatus : original.status = some .completed := by decide +kernel
  have hnone : replay.state.issued.map (·.sequence) = [] := by decide +kernel
  refine ⟨hissued, hkeys, ?_, List.map_eq_nil_iff.mp hnone⟩
  rcases (replay_repeats_nothing callEnv none none 1).2 (fun _ => rfl) with
    ⟨result, s, t, hs, ht, -, -⟩ | ⟨-, -, -, ⟨_, _, h, -⟩, -⟩
  · rw [show original = .done result s from hs] at hstatus
    rw [show replay = .done result t from ht]
    exact hstatus
  · cases h

/-- The same program with a checkpoint hook that refuses. -/
def refusingEnv : Env :=
  { callEnv with broker := { Broker.plain with checkpoint := fun _ => .error (.brokerError "disk full") } }

/-- The run fails at the checkpoint after its call has been journaled; the replay
with that journal passes the call and completes. -/
theorem refused_checkpoint_replays_differently :
    let original := run refusingEnv (.started refusingEnv .empty none)
    let journal := original.state.completedCalls.take 1
    original.status = some .failed ∧
      (run refusingEnv (.started refusingEnv journal none)).status = some .completed := by
  decide +kernel

end Codegg.ToolProgram
