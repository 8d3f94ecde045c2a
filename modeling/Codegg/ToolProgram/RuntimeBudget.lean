import Codegg.ToolProgram.Checkpoint
import Codegg.ToolProgram.Effects

/-!
# The runtime budgets

In every state that a run reaches between two instructions, also after any
number of restarts from checkpoints, the consumption is within the limits and no
call is in flight, provided that no loop is entered with more items than the
total iteration budget has left: the entry of a loop is checked against the
per-loop limit only.
-/
namespace Codegg.ToolProgram

open Codegg.Library Interp Exec

structure WithinLimits (limits : RuntimeLimits) (budget : BudgetSnapshot) : Prop where
  steps_le : budget.steps ≤ limits.maxSteps
  bytes_le : budget.bytes ≤ limits.maxValueGrowth
  calls_le : budget.calls ≤ limits.maxDynamicCalls
  iterations_le : budget.iterations ≤ limits.maxTotalIterations

/-- The current consumption and that of every checkpoint are within the limits. -/
structure Safe (env : Env) (s : MeteredInterpreter) : Prop where
  current : WithinLimits env.limits s.machine.budget
  recorded : ∀ cp ∈ s.checkpoints, WithinLimits env.limits cp.budget

/-- The states between instructions of runs whose every step starts in `C`. A run
may be cut at any step and resumed, in a fresh interpreter with any journal, from
any checkpoint committed so far. -/
inductive Reachable (env : Env) (C : MeteredInterpreter → Prop) : MeteredInterpreter → Prop
  | start (journal : SortedMap ℕ CompletedCall) (fingerprint : Option ReplayFingerprint) :
    Reachable env C (.started env journal fingerprint)
  | step {s s' : MeteredInterpreter} : Reachable env C s → C s → step env s = .running s' →
    Reachable env C s'
  | resume {s s' : MeteredInterpreter} {cp : InterpreterCheckpoint}
    (journal : SortedMap ℕ CompletedCall) (fingerprint : Option ReplayFingerprint) :
    Reachable env C s → C s → cp ∈ (ToolProgram.step env s).state.checkpoints →
    restoreCheckpoint env cp (.started env journal fingerprint) = .ok s' →
    Reachable env C s'

/-- If the next instruction enters a loop that the per-loop limit admits, its items
fit into what is left of the total iteration budget. -/
def LoopEntryFits (env : Env) (s : MeteredInterpreter) : Prop :=
  ∀ bodyStart loopEnd items m',
    env.program.instructions[s.machine.pc]? = some (.forLoopStart bodyStart loopEnd) →
    isResume s.fetched.machine = false →
    resumeForLoop env s.fetched.machine = .ok items m' →
    items.length ≤ env.limits.maxLoopIterations →
    s.machine.budget.iterations + items.length ≤ env.limits.maxTotalIterations

/-! ### One instruction -/

/-- During an instruction that started in `s₀`: the budgets hold, and the calls
issued since have the next sequence numbers, no more than the call budget had
left. -/
structure Interrupted (env : Env) (s₀ s : MeteredInterpreter) : Prop where
  safe : Safe env s
  steps_eq : s.machine.budget.steps = s₀.machine.budget.steps
  issued_within : ∃ new, s.issued = s₀.issued ++ new ∧ ∀ call ∈ new,
    s₀.machine.nextCallSeq ≤ call.sequence ∧
    call.sequence + s₀.machine.budget.calls <
      s₀.machine.nextCallSeq + env.limits.maxDynamicCalls

/-- As long as it has not failed: every sequence number taken belongs to a counted
call, and no call is left in flight. -/
structure Aligned (env : Env) (s₀ s : MeteredInterpreter) : Prop extends
    Interrupted env s₀ s where
  seq_le : s₀.machine.nextCallSeq ≤ s.machine.nextCallSeq
  seq_eq : s.machine.nextCallSeq + s₀.machine.budget.calls =
    s₀.machine.nextCallSeq + s.machine.budget.calls
  inflight_eq : s.machine.budget.inflightCalls = s₀.machine.budget.inflightCalls

variable {env : Env} {s₀ : MeteredInterpreter}

theorem Aligned.refl (h : Safe env s₀) : Aligned env s₀ s₀ where
  safe := h
  steps_eq := rfl
  issued_within := ⟨[], by simp, by simp⟩
  seq_le := le_rfl
  seq_eq := rfl
  inflight_eq := rfl

variable {s s' : MeteredInterpreter} {op : IrOp}

/-- The counters of a local instruction. -/
theorem Aligned.of_frame {m : StackMachine} (h : Aligned env s₀ s)
    (hf : Frame env.limits s.machine m) : Aligned env s₀ { s with machine := m } where
  safe :=
    { current :=
        { steps_le := hf.steps_eq ▸ h.safe.current.steps_le
          bytes_le := hf.bytes_le h.safe.current.bytes_le
          calls_le := hf.calls_eq ▸ h.safe.current.calls_le
          iterations_le := hf.iterations_eq ▸ h.safe.current.iterations_le }
      recorded := h.safe.recorded }
  steps_eq := hf.steps_eq.trans h.steps_eq
  issued_within := h.issued_within
  seq_le := hf.seq_eq ▸ h.seq_le
  seq_eq := by
    rw [hf.seq_eq, hf.calls_eq, h.seq_eq]
  inflight_eq := hf.inflight_eq.trans h.inflight_eq

theorem aligned_onMachine {α : Type} {x : Exec α} (hx : Moves (Frame env.limits) x) :
    Triple (Aligned env s₀) (onMachine x) (fun _ => Aligned env s₀)
      (fun _ => Interrupted env s₀) := by
  intro s hs
  exact meets_onMachine (hs.of_frame (hx s.machine)) fun _ h => h.toInterrupted

theorem aligned_ofExcept {α : Type} (x : Except InterpreterError α) :
    Triple (Aligned env s₀) (ofExcept x) (fun _ => Aligned env s₀)
      (fun _ => Interrupted env s₀) := by
  cases x with
  | ok a => exact .pure fun _ h => h
  | error e => exact .throw fun _ h => h.toInterrupted

/-- A frame keeps the room in the call budget. -/
theorem aligned_room_onMachine {α : Type} {x : Exec α} (hx : Moves (Frame env.limits) x) :
    Triple (fun s => Aligned env s₀ s ∧ s.machine.budget.calls < env.limits.maxDynamicCalls)
      (onMachine x)
      (fun _ s => Aligned env s₀ s ∧ s.machine.budget.calls < env.limits.maxDynamicCalls)
      (fun _ => Interrupted env s₀) := by
  rintro s ⟨hs, hlt⟩
  have hm := hx s.machine
  unfold onMachine
  cases hr : x s.machine with
  | ok a m =>
    rw [hr] at hm
    exact ⟨hs.of_frame hm, hm.calls_eq.symm ▸ hlt⟩
  | error e m =>
    rw [hr] at hm
    exact (hs.of_frame hm).toInterrupted

/-- Past the check there is room for one more call. -/
theorem aligned_checkCallBudget :
    Triple (Aligned env s₀) (onMachine (checkCallBudget env))
      (fun _ s => Aligned env s₀ s ∧ s.machine.budget.calls < env.limits.maxDynamicCalls)
      (fun _ => Interrupted env s₀) := by
  intro s hs
  rw [checkCallBudget_eq]
  split
  · exact hs.toInterrupted
  · rename_i h
    exact ⟨hs, not_le.mp h⟩

/-- Work outside keeps the budgets: a new checkpoint records the current ones. -/
theorem Safe.of_outside {seq : ℕ} (h : Safe env s) (ho : Outside seq s s') : Safe env s' where
  current := ho.machine_eq ▸ h.current
  recorded := by
    intro cp hcp
    rcases ho.checkpoints_of cp hcp with hm | he
    · exact h.recorded cp hm
    · rw [he]
      exact ⟨h.current.steps_le, h.current.bytes_le, h.current.calls_le, h.current.iterations_le⟩

/-- A checkpoint outside of any call. -/
theorem aligned_commitCheckpoint :
    Triple (Aligned env s₀) (commitCheckpoint env) (fun _ => Aligned env s₀)
      (fun _ => Interrupted env s₀) := by
  intro s hs
  rw [commitCheckpoint_eq]
  cases env.broker.checkpoint (checkpointOf env s) with
  | error e => exact ⟨⟨hs.safe.current, hs.safe.recorded⟩, hs.steps_eq, hs.issued_within⟩
  | ok _ =>
    have hsafe : Safe env (committed env s) :=
      hs.safe.of_outside (outside_committed 0 s)
    exact ⟨⟨hsafe, hs.steps_eq, hs.issued_within⟩, hs.seq_le, hs.seq_eq, hs.inflight_eq⟩

theorem Aligned.taken_interrupted (h : Aligned env s₀ s) :
    Interrupted env s₀ s.taken where
  safe := ⟨h.safe.current, h.safe.recorded⟩
  steps_eq := h.steps_eq
  issued_within := h.issued_within

/-- While a call with room in the budget is being made. -/
theorem Aligned.outside_interrupted (h : Aligned env s₀ s)
    (hlt : s.machine.budget.calls < env.limits.maxDynamicCalls)
    (ho : Outside s.machine.nextCallSeq s.taken s') : Interrupted env s₀ s' where
  safe := h.taken_interrupted.safe.of_outside ho
  steps_eq := by
    rw [ho.machine_eq]
    exact h.steps_eq
  issued_within := by
    obtain ⟨new, he, hn⟩ := h.issued_within
    obtain ⟨new', he', hn'⟩ := ho.issued_eq
    refine ⟨new ++ new', ?_, ?_⟩
    · rw [he', ← List.append_assoc, ← he]
      rfl
    · intro call hc
      rcases List.mem_append.mp hc with hm | hm
      · exact hn call hm
      · have := h.seq_le
        have := h.seq_eq
        rw [hn' call hm]
        omega

/-- Once the call has been made and counted. -/
theorem Aligned.outside_counted (h : Aligned env s₀ s)
    (hlt : s.machine.budget.calls < env.limits.maxDynamicCalls)
    (ho : Outside s.machine.nextCallSeq s.taken s') : Aligned env s₀ s'.counted where
  safe := by
    have hs := (h.outside_interrupted hlt ho).safe
    refine ⟨⟨hs.current.steps_le, hs.current.bytes_le, ?_, hs.current.iterations_le⟩, hs.recorded⟩
    show s'.machine.budget.calls + 1 ≤ _
    rw [ho.machine_eq]
    exact hlt
  steps_eq := (h.outside_interrupted hlt ho).steps_eq
  issued_within := (h.outside_interrupted hlt ho).issued_within
  seq_le := by
    show _ ≤ s'.machine.nextCallSeq
    rw [ho.machine_eq]
    exact le_trans h.seq_le (Nat.le_succ _)
  seq_eq := by
    show s'.machine.nextCallSeq + _ = _ + (s'.machine.budget.calls + 1)
    rw [ho.machine_eq]
    have := h.seq_eq
    show s.machine.nextCallSeq + 1 + _ = _ + (s.machine.budget.calls + 1)
    omega
  inflight_eq := by
    show s'.machine.budget.inflightCalls = _
    rw [ho.machine_eq]
    exact h.inflight_eq

/-- The second half of a call: make it, count it and return its output. -/
theorem Aligned.complete_call {x : Interp CallResult} (h : Aligned env s₀ s)
    (hlt : s.machine.budget.calls < env.limits.maxDynamicCalls)
    (hx : Outside s.machine.nextCallSeq s.taken (finalState (x s.taken)) ∨
      ∃ e, x s.taken = .error e (s.taken.mapInflight (· + 1))) :
    Meets (fun _ => Aligned env s₀) (fun _ => Interrupted env s₀)
      ((x >>= fun result => onMachine countCall >>= fun _ => pure result.output) s.taken) := by
  rcases hx with ho | ⟨e, he⟩
  · cases hr : x s.taken with
    | ok result s' =>
      rw [hr] at ho
      rw [bind_of_ok hr]
      exact h.outside_counted hlt ho
    | error e s' =>
      rw [hr] at ho
      rw [bind_of_error hr]
      exact h.outside_interrupted hlt ho
  · rw [bind_of_error he]
    have ht := h.taken_interrupted
    refine ⟨⟨?_, ht.safe.recorded⟩, ht.steps_eq, ht.issued_within⟩
    have hc := ht.safe.current
    exact ⟨hc.steps_le, hc.bytes_le, hc.calls_le, hc.iterations_le⟩

theorem aligned_dispatchCall (kind : Interp.CallKind) (request : CallRequest) :
    Triple (fun s => Aligned env s₀ s ∧ s.machine.budget.calls < env.limits.maxDynamicCalls)
      (dispatchCall env kind request) (fun _ => Aligned env s₀)
      (fun _ => Interrupted env s₀) := by
  rintro s ⟨hs, hlt⟩
  exact hs.complete_call hlt (.inl (outside_replayOr (outside_liveCall _ _ _)))

theorem aligned_dispatchChildJob (op : ChildJobOp) (config : ChildJobConfig) :
    Triple (Aligned env s₀) (dispatchChildJob env op config) (fun _ => Aligned env s₀)
      (fun _ => Interrupted env s₀) := by
  intro s hs
  unfold dispatchChildJob
  rw [bind_of_ok (show onMachine takeCallSeq s = .ok s.machine.nextCallSeq s.taken from rfl)]
  have hcheck := @checkCallBudget_eq env s.taken
  by_cases h : s.taken.machine.budget.calls ≥ env.limits.maxDynamicCalls
  · rw [if_pos h] at hcheck
    rw [bind_of_error hcheck]
    exact hs.taken_interrupted
  · rw [if_neg h] at hcheck
    rw [bind_of_ok hcheck]
    refine hs.complete_call (show s.machine.budget.calls < _ from not_le.mp h) ?_
    -- A journaled child job is not submitted again, so nothing is in flight then.
    cases hseq : s.taken.completedCalls.get? s.machine.nextCallSeq with
    | some completed =>
      rw [replayOr_of_some hseq, finalState_ofExcept]
      exact .inl (Outside.refl s.taken)
    | none =>
      rw [replayOr_of_none hseq]
      exact outside_liveChildJob s.taken ⟨s.machine.nextCallSeq, op, config⟩ _

theorem aligned_executeGroup (reqVals results : List ProgramValue) :
    Triple (Aligned env s₀) (executeGroup env reqVals results) (fun _ => Aligned env s₀)
      (fun _ => Interrupted env s₀) := by
  induction reqVals generalizing results with
  | nil => exact .pure fun _ h => h
  | cons reqVal reqVals ih =>
    cases reqVal with
    | string text =>
      refine .bind (aligned_ofExcept _) (fun request => ?_)
      refine .bind aligned_checkCallBudget (fun _ => ?_)
      exact .bind (aligned_dispatchCall _ _) (fun output => ih _)
    | _ => exact .throw fun _ h => h.toInterrupted

theorem aligned_executeCall :
    Triple (Aligned env s₀) (executeCall env) (fun _ => Aligned env s₀)
      (fun _ => Interrupted env s₀) := by
  refine .bind (aligned_onMachine frame_pop) (fun reqVal => ?_)
  cases reqVal with
  | string text =>
    refine .bind (aligned_ofExcept _) (fun request => ?_)
    refine .bind aligned_checkCallBudget (fun _ => ?_)
    refine .bind (aligned_room_onMachine frame_checkInflightBudget) (fun _ => ?_)
    exact .bind (aligned_dispatchCall _ _) (fun output =>
      aligned_onMachine (frame_push _))
  | _ => exact .throw fun _ h => h.toInterrupted

theorem aligned_parallelExecute :
    Triple (Aligned env s₀) (parallelExecute env) (fun _ => Aligned env s₀)
      (fun _ => Interrupted env s₀) := by
  refine .bind (aligned_onMachine frame_pop) (fun reqList => ?_)
  cases reqList with
  | list reqVals =>
    refine .bind (aligned_onMachine (frame_checkParallelBudget _)) (fun _ => ?_)
    exact .bind (aligned_executeGroup _ _) (fun results =>
      aligned_onMachine (frame_push _))
  | _ => exact .throw fun _ h => h.toInterrupted

theorem aligned_executeChildJob :
    Triple (Aligned env s₀) (executeChildJob env) (fun _ => Aligned env s₀)
      (fun _ => Interrupted env s₀) := by
  refine .bind (aligned_onMachine frame_pop) (fun configVal => ?_)
  refine .bind (aligned_onMachine frame_pop) (fun opVal => ?_)
  refine .bind (aligned_ofExcept _) (fun operands => ?_)
  exact .bind (aligned_dispatchChildJob _ _) (fun output =>
    aligned_onMachine (frame_push _))

/-- A loop entry whose items fit keeps the budgets. -/
theorem Aligned.of_loop_entry {m₁ m : StackMachine} {n : ℕ} (h : Aligned env s₀ s)
    (hf : Frame env.limits s.machine m₁)
    (hn : s.machine.budget.iterations + n ≤ env.limits.maxTotalIterations)
    (hm : Frame env.limits (countedItems n m₁) m) :
    Aligned env s₀ { s with machine := m } := by
  have h₁ := h.of_frame hf
  have h₂ : Aligned env s₀ { s with machine := countedItems n m₁ } := by
    refine ⟨⟨⟨?_, h₁.safe.recorded⟩, h₁.steps_eq, h₁.issued_within⟩, h₁.seq_le, h₁.seq_eq,
      h₁.inflight_eq⟩
    have hc := h₁.safe.current
    refine ⟨hc.steps_le, hc.bytes_le, hc.calls_le, ?_⟩
    show m₁.budget.iterations + n ≤ env.limits.maxTotalIterations
    rw [hf.iterations_eq]
    exact hn
  exact h₂.of_frame hm

/-- If `op` enters a loop that the per-loop limit admits, its items fit. -/
def EntryFits (env : Env) (op : IrOp) (s : MeteredInterpreter) : Prop :=
  ∀ bodyStart loopEnd items m', op = .forLoopStart bodyStart loopEnd →
    isResume s.machine = false → resumeForLoop env s.machine = .ok items m' →
    items.length ≤ env.limits.maxLoopIterations →
    s.machine.budget.iterations + items.length ≤ env.limits.maxTotalIterations

theorem aligned_executeLocal {x : Exec Unit} (hsafe : Safe env s₀)
    (hl : executeLocal env op = some x) (hfits : EntryFits env op s₀) :
    Aligned env s₀ { s₀ with machine := finalState (x s₀.machine) } := by
  have h₀ := Aligned.refl hsafe
  by_cases hop : ∃ bodyStart loopEnd, op = .forLoopStart bodyStart loopEnd
  · obtain ⟨bodyStart, loopEnd, rfl⟩ := hop
    cases hl
    rcases forLoopStart_effect bodyStart loopEnd s₀.machine with
      hf | ⟨hres, items, m₁, hr, hlen, hm⟩
    · exact h₀.of_frame hf
    · have hf : Frame env.limits s₀.machine (finalState (resumeForLoop env s₀.machine)) :=
        frame_resumeForLoop s₀.machine
      rw [hr] at hf
      exact h₀.of_loop_entry hf (hfits bodyStart loopEnd items m₁ rfl hres hr hlen) hm
  · have hx := frame_executeLocal hl (fun bodyStart loopEnd he =>
      hop ⟨bodyStart, loopEnd, he⟩)
    exact h₀.of_frame (hx s₀.machine)

/-- What a whole instruction does, from the state in which it is executed. -/
theorem aligned_executeInstruction (hsafe : Safe env s₀) (hfits : EntryFits env op s₀) :
    Meets (fun _ => Aligned env s₀) (fun _ => Interrupted env s₀)
      (executeInstruction env op s₀) := by
  have h₀ := Aligned.refl hsafe
  refine executeInstruction_cases op
    (C := fun x => Meets (fun _ => Aligned env s₀) (fun _ => Interrupted env s₀) (x s₀))
    ?_ ?_ ?_ ?_ ?_ ?_ ?_
  · intro x hl
    exact Meets.then_pure (meets_onMachine (aligned_executeLocal hsafe hl hfits)
      fun _ h => h.toInterrupted) _
  · exact Meets.then_pure (aligned_executeCall s₀ h₀) _
  · exact Meets.then_pure (aligned_parallelExecute s₀ h₀) _
  · exact Meets.then_pure (aligned_executeChildJob s₀ h₀) _
  · intro _
    exact Meets.then_pure (aligned_commitCheckpoint s₀ h₀) _
  · intro result
    exact aligned_onMachine (frame_finish _) s₀ h₀
  · exact Meets.then_pure (aligned_onMachine frame_terminate s₀ h₀) _

/-! ### Whole runs -/

theorem Safe.fetched (h : Safe env s) (hs : s.machine.budget.steps < env.limits.maxSteps) :
    Safe env s.fetched where
  current := ⟨hs, h.current.bytes_le, h.current.calls_le, h.current.iterations_le⟩
  recorded := h.recorded

/-- One turn of the main loop, from a safe state. -/
theorem step_safe (h : Safe env s) (hfits : LoopEntryFits env s) :
    Safe env (step env s).state ∧
      (∃ new, (step env s).state.issued = s.issued ++ new ∧ ∀ call ∈ new,
        s.machine.nextCallSeq ≤ call.sequence ∧ call.sequence + s.machine.budget.calls <
          s.machine.nextCallSeq + env.limits.maxDynamicCalls) ∧
      ∀ s', step env s = .running s' →
        s'.machine.budget.inflightCalls = s.machine.budget.inflightCalls := by
  have stay : ∀ result, Safe env (Outcome.done result s).state ∧
      (∃ new, (Outcome.done result s).state.issued = s.issued ++ new ∧ ∀ call ∈ new,
        s.machine.nextCallSeq ≤ call.sequence ∧ call.sequence + s.machine.budget.calls <
          s.machine.nextCallSeq + env.limits.maxDynamicCalls) ∧
      ∀ s', Outcome.done result s = .running s' →
        s'.machine.budget.inflightCalls = s.machine.budget.inflightCalls :=
    fun _ => ⟨h, ⟨[], (List.append_nil _).symm, by simp⟩, fun _ he => by cases he⟩
  unfold step
  split
  · exact stay _
  split
  · exact stay _
  split
  · exact stay _
  rename_i hsteps
  split
  · exact stay _
  rename_i op hop
  have hentry : EntryFits env op s.fetched := fun bodyStart loopEnd items m' ho =>
    hfits bodyStart loopEnd items m' (ho ▸ hop)
  have hm := aligned_executeInstruction (h.fetched (not_le.mp hsteps)) hentry
  cases hr : executeInstruction env op s.fetched with
  | error e s' =>
    rw [hr] at hm
    exact ⟨hm.safe, hm.issued_within, fun _ he => by cases he⟩
  | ok result s' =>
    rw [hr] at hm
    cases result with
    | continue_ =>
      refine ⟨hm.safe, hm.issued_within, ?_⟩
      rintro s'' he
      cases he
      exact hm.inflight_eq
    | yield_ value => exact ⟨hm.safe, hm.issued_within, fun _ he => by cases he⟩
    | fail reason => exact ⟨hm.safe, hm.issued_within, fun _ he => by cases he⟩

/-- A restored interpreter has consumed what its checkpoint records. -/
theorem restoreCheckpoint_budget {cp : InterpreterCheckpoint}
    (h : restoreCheckpoint env cp s = .ok s') :
    s'.machine.budget = { cp.budget with inflightCalls := s.machine.budget.inflightCalls } ∧
      s'.checkpoints = s.checkpoints := by
  obtain ⟨journal, machine, -, hm, rfl⟩ := restoreCheckpoint_ok h
  exact ⟨reenterChild_budget hm, rfl⟩

/-- The invariant of runs and restarts. -/
theorem reachable_safe (h : Reachable env (LoopEntryFits env) s) :
    Safe env s ∧ s.machine.budget.inflightCalls = 0 := by
  induction h with
  | start journal fingerprint =>
    refine ⟨⟨⟨Nat.zero_le _, Nat.zero_le _, Nat.zero_le _, Nat.zero_le _⟩, ?_⟩, rfl⟩
    intro cp hcp
    cases hcp
  | step _ hfits hstep ih =>
    obtain ⟨hsafe, -, hinflight⟩ := step_safe ih.1 hfits
    rw [hstep] at hsafe
    exact ⟨hsafe, (hinflight _ hstep).trans ih.2⟩
  | resume journal fingerprint _ hfits hcp hrestore ih =>
    obtain ⟨hb, hc⟩ := restoreCheckpoint_budget hrestore
    have hrec := (step_safe ih.1 hfits).1.recorded _ hcp
    refine ⟨⟨?_, ?_⟩, ?_⟩
    · rw [hb]
      exact ⟨hrec.steps_le, hrec.bytes_le, hrec.calls_le, hrec.iterations_le⟩
    · rw [hc]
      intro cp' hmem
      cases hmem
    · rw [hb]
      rfl

/-! ### Stopping before the excess

Under looser limits an instruction does the same, unless the given limits stop it
with an exceeded budget. -/

/-- Limits that are at least as large; what is not a budget stays the same. -/
structure RuntimeLimits.Looser (limits limits' : RuntimeLimits) : Prop where
  steps_le : limits.maxSteps ≤ limits'.maxSteps
  loop_le : limits.maxLoopIterations ≤ limits'.maxLoopIterations
  total_le : limits.maxTotalIterations ≤ limits'.maxTotalIterations
  calls_le : limits.maxDynamicCalls ≤ limits'.maxDynamicCalls
  width_le : limits.maxParallelWidth ≤ limits'.maxParallelWidth
  growth_le : limits.maxValueGrowth ≤ limits'.maxValueGrowth
  inflight_le : limits.maxInflightCalls ≤ limits'.maxInflightCalls
  perCall_eq : limits'.maxPerCallTimeMs = limits.maxPerCallTimeMs
  retries_eq : limits'.maxRetries = limits.maxRetries

/-- The environment under other limits. -/
def Env.under (env : Env) (limits : RuntimeLimits) : Env := { env with limits := limits }

/-- The error of an exceeded budget. -/
def OverBudget (e : InterpreterError) : Prop := e.failureClass = .budgetExhausted

variable {limits' : RuntimeLimits}

theorem tighter_refuseIf {σ : Type} {p q : Prop} [Decidable p] [Decidable q] (hpq : q → p)
    (msg msg' : String) :
    Tighter OverBudget (refuseIf p msg : EStateM InterpreterError σ Unit) (refuseIf q msg') :=
  Tighter.guard hpq (show OverBudget (.budgetExceeded msg) from rfl) (Tighter.refl _)

theorem tighter_ofExcept {σ α : Type} {x y : Except InterpreterError α}
    (h : x = y ∨ ∃ e, x = .error e ∧ OverBudget e) :
    Tighter OverBudget (ofExcept x : EStateM InterpreterError σ α) (ofExcept y) := by
  rcases h with rfl | ⟨e, rfl, he⟩
  · exact .refl _
  · exact .throw he _

theorem tighter_onMachine {α : Type} {x y : Exec α} (h : Tighter OverBudget x y) :
    Tighter OverBudget (onMachine x) (onMachine y) := by
  intro s
  unfold onMachine
  rcases h s.machine with he | ⟨e, m, hm, hstop⟩
  · rw [he]
    exact .inl rfl
  · rw [hm]
    exact .inr ⟨e, _, rfl, hstop⟩

theorem errorResult_overBudget {e : InterpreterError} (h : OverBudget e)
    (budget : BudgetSnapshot) :
    (errorResult e budget).failureClass = some .budgetExhausted := by
  cases e with
  | budgetExceeded msg => rfl
  | _ => cases h

section Looser

variable (hl : env.limits.Looser limits')

include hl

theorem tighter_push (val : ProgramValue) :
    Tighter OverBudget (push env val) (push (env.under limits') val) := by
  refine .after (fun m => .bind (tighter_refuseIf ?_ _ _)
    (fun _ => .refl _))
  exact fun h => lt_of_le_of_lt hl.growth_le h

theorem tighter_pushConstant {α : Type} (kind : String) (pool : List α)
    (wrap : α → ProgramValue) (idx : ℕ) :
    Tighter OverBudget (pushConstant env kind pool wrap idx)
      (pushConstant (env.under limits') kind pool wrap idx) := by
  unfold pushConstant
  split
  · exact tighter_push hl _
  · exact .refl _

theorem tighter_binary
    (op : ProgramValue → ProgramValue → Except InterpreterError ProgramValue) :
    Tighter OverBudget (binary env op) (binary (env.under limits') op) :=
  .after (fun _ => .after (fun _ =>
    .after (fun _ => tighter_push hl _)))

theorem tighter_unary (op : ProgramValue → Except InterpreterError ProgramValue) :
    Tighter OverBudget (unary env op) (unary (env.under limits') op) :=
  .after (fun _ =>
    .after (fun _ => tighter_push hl _))

theorem tighter_rangeLoopItems (start stop step : ℤ) :
    rangeLoopItems env start stop step =
        rangeLoopItems (env.under limits') start stop step ∨
      ∃ e, rangeLoopItems env start stop step = .error e ∧ OverBudget e := by
  unfold rangeLoopItems
  by_cases h0 : step = 0
  · rw [if_pos h0, if_pos h0]
    exact .inl rfl
  · rw [if_neg h0, if_neg h0]
    by_cases h : ProgramValue.rangeCount start stop step > env.limits.maxLoopIterations
    · simp only [if_pos h]
      exact .inr ⟨_, rfl, rfl⟩
    · have h' : ¬ ProgramValue.rangeCount start stop step >
          (env.under limits').limits.maxLoopIterations :=
        fun hgt => h (lt_of_le_of_lt hl.loop_le hgt)
      simp only [if_neg h, if_neg h']
      exact .inl trivial

theorem tighter_resumeForLoop :
    Tighter OverBudget (resumeForLoop env) (resumeForLoop (env.under limits')) := by
  refine .after (fun m => ?_)
  split
  · exact .after (fun _ =>
      tighter_ofExcept (tighter_rangeLoopItems hl _ _ _))
  · exact .refl _

theorem tighter_forLoopStart (bodyStart loopEnd : ℕ) :
    Tighter OverBudget (forLoopStart env bodyStart loopEnd)
      (forLoopStart (env.under limits') bodyStart loopEnd) := by
  refine .after (fun m => ?_)
  split
  · refine .bind (tighter_refuseIf ?_ _ _) (fun _ => .refl _)
    exact fun h => lt_of_le_of_lt hl.total_le h
  · refine .bind (tighter_resumeForLoop hl) (fun items => ?_)
    refine .bind (tighter_refuseIf ?_ _ _) (fun _ => ?_)
    · exact fun h => lt_of_le_of_lt hl.loop_le h
    · refine .after (fun _ => .bind (tighter_push hl _) (fun _ => ?_))
      exact .bind (tighter_push hl _) (fun _ => .refl _)

theorem tighter_forLoopIter :
    Tighter OverBudget (forLoopIter env) (forLoopIter (env.under limits')) := by
  refine .after (fun idxVal => .bind (.refl _)
    (fun listVal => ?_))
  split
  · split
    · exact .bind (tighter_push hl _) (fun _ => .bind (tighter_push hl _)
        (fun _ => tighter_push hl _))
    · exact .refl _
  · exact .refl _

theorem tighter_forLoopNext (loopStart : ℕ) :
    Tighter OverBudget (forLoopNext env loopStart)
      (forLoopNext (env.under limits') loopStart) := by
  refine .after (fun idxVal => .bind (.refl _)
    (fun listVal => ?_))
  split
  · split
    · exact .bind (tighter_push hl _) (fun _ => .bind (tighter_push hl _)
        (fun _ => .refl _))
    · exact .refl _
  · exact .refl _

/-- Local instructions, one after the other. -/
theorem tighter_executeLocal {x : Exec Unit} (h : executeLocal env op = some x) :
    ∃ y, executeLocal (env.under limits') op = some y ∧ Tighter OverBudget x y := by
  cases op <;> simp only [executeLocal, Option.some.injEq, reduceCtorEq] at h <;>
    subst h <;> refine ⟨_, rfl, ?_⟩
  case loadInt | loadFloat | loadString => exact tighter_pushConstant hl _ _ _ _
  case loadTrue | loadFalse | loadNone => exact tighter_push hl _
  case loadLocal slot => exact .after (fun _ => tighter_push hl _)
  case storeLocal slot => exact .refl _
  case makeList | makeTuple | makeDict =>
    exact .after (fun _ => tighter_push hl _)
  case binOp | compare | boolAnd | boolOr | index => exact tighter_binary hl _
  case unaryOp | boolNot | len | str | int | bool | constructCall => exact tighter_unary hl _
  case pop => exact .refl _
  case dup => exact .after (fun _ => tighter_push hl _)
  case slice =>
    refine .after (fun _ => .after (fun _ => ?_))
    refine .after (fun _ => .after (fun _ => ?_))
    exact .after (fun _ => tighter_push hl _)
  case jumpIfFalse | jump => exact .refl _
  case forLoopStart bodyStart loopEnd => exact tighter_forLoopStart hl _ _
  case forLoopIter => exact tighter_forLoopIter hl
  case forLoopNext loopStart loopEnd => exact tighter_forLoopNext hl _
  case parallelStart count => exact .after (fun _ => tighter_push hl _)

/-- Calls do not look at the budgets once they have been dispatched. -/
theorem executeCallWithRetry_under (seq : ℕ) (request : CallRequest) (retries attempt : ℕ) :
    executeCallWithRetry (env.under limits') seq request retries attempt =
      executeCallWithRetry env seq request retries attempt := by
  have hout : ∀ attempt, attemptOutcome (env.under limits') seq attempt request =
      attemptOutcome env seq attempt request := by
    intro attempt
    simp only [attemptOutcome, Env.under, hl.perCall_eq]
  induction retries generalizing attempt with
  | zero => simp only [executeCallWithRetry, hout]
  | succ retries ih => simp only [executeCallWithRetry, hout, ih]

theorem dispatchCall_under (kind : Interp.CallKind) (request : CallRequest) :
    dispatchCall (env.under limits') kind request =
      dispatchCall env kind request := by
  have hlive : ∀ seq request, liveCall (env.under limits') seq request =
      liveCall env seq request := by
    intro seq request
    unfold liveCall
    rw [show (env.under limits').limits.maxRetries = env.limits.maxRetries from hl.retries_eq]
    simp only [executeCallWithRetry_under hl]
    rfl
  unfold dispatchCall
  simp only [hlive]
  rfl

theorem tighter_checkCallBudget :
    Tighter OverBudget (onMachine (checkCallBudget env))
      (onMachine (checkCallBudget (env.under limits'))) := by
  refine tighter_onMachine (.after (fun m => tighter_refuseIf ?_ _ _))
  exact fun h => le_trans hl.calls_le h

theorem tighter_executeCall :
    Tighter OverBudget (executeCall env) (executeCall (env.under limits')) := by
  refine .after (fun reqVal => ?_)
  split
  · refine .after (fun request => ?_)
    refine .bind (tighter_checkCallBudget hl) (fun _ => ?_)
    refine .bind (tighter_onMachine (.bind (.refl _)
      (fun m => tighter_refuseIf ?_ _ _))) (fun _ => ?_)
    · exact fun h => le_trans hl.inflight_le h
    · rw [dispatchCall_under hl]
      exact .after (fun _ => tighter_onMachine (tighter_push hl _))
  · exact .refl _

theorem tighter_executeGroup (reqVals results : List ProgramValue) :
    Tighter OverBudget (executeGroup env reqVals results)
      (executeGroup (env.under limits') reqVals results) := by
  induction reqVals generalizing results with
  | nil => exact .refl _
  | cons reqVal reqVals ih =>
    cases reqVal with
    | string text =>
      refine .after (fun request => ?_)
      refine .bind (tighter_checkCallBudget hl) (fun _ => ?_)
      rw [dispatchCall_under hl]
      exact .after (fun output => ih _)
    | _ => exact .refl _

theorem tighter_checkParallelBudget (count : ℕ) :
    Tighter OverBudget (checkParallelBudget env count)
      (checkParallelBudget (env.under limits') count) := by
  refine .after (fun m => ?_)
  refine .bind (tighter_refuseIf (fun h => lt_of_le_of_lt hl.width_le h) _ _) (fun _ => ?_)
  exact .bind (tighter_refuseIf (fun h => lt_of_le_of_lt hl.inflight_le h) _ _)
    (fun _ => .refl _)

theorem tighter_parallelExecute :
    Tighter OverBudget (parallelExecute env)
      (parallelExecute (env.under limits')) := by
  refine .after (fun reqList => ?_)
  split
  · refine .bind (tighter_onMachine (tighter_checkParallelBudget hl _)) (fun _ => ?_)
    exact .bind (tighter_executeGroup hl _ _) (fun _ =>
      tighter_onMachine (tighter_push hl _))
  · exact .refl _

theorem tighter_executeChildJob :
    Tighter OverBudget (executeChildJob env)
      (executeChildJob (env.under limits')) := by
  refine .after (fun configVal => ?_)
  refine .after (fun opVal => ?_)
  refine .after (fun operands => ?_)
  refine .bind ?_ (fun output => tighter_onMachine (tighter_push hl _))
  refine .after (fun seq => ?_)
  exact .bind (tighter_checkCallBudget hl) (fun _ => .refl _)

theorem tighter_executeInstruction (op : IrOp) :
    Tighter OverBudget (executeInstruction env op)
      (executeInstruction (env.under limits') op) := by
  cases hx : executeLocal env op with
  | some x =>
    obtain ⟨y, hy, hxy⟩ := tighter_executeLocal hl hx
    unfold executeInstruction
    rw [hx, hy]
    exact .bind (tighter_onMachine hxy) (fun _ => .refl _)
  | none =>
    cases op <;> simp only [executeLocal, reduceCtorEq] at hx
    case executeCall => exact .bind (tighter_executeCall hl) (fun _ => .refl _)
    case parallelExecute => exact .bind (tighter_parallelExecute hl) (fun _ => .refl _)
    case executeChildJob => exact .bind (tighter_executeChildJob hl) (fun _ => .refl _)
    case checkpoint | emit | fail | return_ => exact .refl _

/-- A turn of the main loop under looser limits is the same, or the given limits
end the program with an exhausted budget. -/
theorem step_tighter (s : MeteredInterpreter) :
    step env s = step (env.under limits') s ∨
      ∃ result s', step env s = .done result s' ∧
        result.failureClass = some .budgetExhausted := by
  unfold step
  have hpoll : (env.under limits').poll = env.poll := rfl
  rw [hpoll]
  cases env.poll s.machine.budget.steps with
  | some i => exact .inl rfl
  | none =>
    dsimp only
    split
    · exact .inl rfl
    by_cases hs : s.machine.budget.steps ≥ env.limits.maxSteps
    · rw [if_pos hs]
      exact .inr ⟨_, _, rfl, rfl⟩
    have hs' : ¬ s.machine.budget.steps ≥ (env.under limits').limits.maxSteps :=
      fun h => hs (le_trans hl.steps_le h)
    rw [if_neg hs, if_neg hs']
    have hprogram : (env.under limits').program = env.program := rfl
    rw [hprogram]
    cases env.program.instructions[s.machine.pc]? with
    | none => exact .inl rfl
    | some op =>
      rcases tighter_executeInstruction hl op s.fetched with he | ⟨e, s', he, hstop⟩
      · left
        show afterInstruction env _ = afterInstruction (env.under limits') _
        rw [he]
        rfl
      · right
        refine ⟨errorResult e s'.machine.budget, s', ?_, errorResult_overBudget hstop _⟩
        show afterInstruction env _ = _
        rw [he]
        rfl

end Looser

/-! ### The budgets of a run -/

/-- In every state reached by runs whose loop entries fit the total budget: the
consumption is within the limits and no call is in flight. From there a turn of
the main loop stays within the limits, also where it fails, and issues no more
calls than the budget has left; and if some looser limits would let it exceed the
given ones, then it ends with an exhausted budget. -/
theorem runtime_budget_safe (env : Env) (s : MeteredInterpreter)
    (h : Reachable env (LoopEntryFits env) s) :
    WithinLimits env.limits s.machine.budget ∧ s.machine.budget.inflightCalls = 0 ∧
      (LoopEntryFits env s →
        WithinLimits env.limits (step env s).state.machine.budget ∧
        (∃ new, (step env s).state.issued = s.issued ++ new ∧ ∀ call ∈ new,
          s.machine.nextCallSeq ≤ call.sequence ∧ call.sequence + s.machine.budget.calls <
            s.machine.nextCallSeq + env.limits.maxDynamicCalls) ∧
        ∀ limits', env.limits.Looser limits' →
          ¬ WithinLimits env.limits (step (env.under limits') s).state.machine.budget →
          ∃ result s', step env s = .done result s' ∧
            result.failureClass = some .budgetExhausted) := by
  obtain ⟨hsafe, hinflight⟩ := reachable_safe h
  refine ⟨hsafe.current, hinflight, fun hfits => ?_⟩
  obtain ⟨hnext, hissued, -⟩ := step_safe hsafe hfits
  refine ⟨hnext.current, hissued, ?_⟩
  intro limits' hl hexcess
  rcases step_tighter hl s with he | hdone
  · rw [← he] at hexcess
    exact absurd hnext.current hexcess
  · exact hdone

/-- The program `for c in "abc": pass`. -/
def loopProgram : IrProgram where
  instructions := [.loadString 0, .forLoopStart 2 6, .forLoopIter, .storeLocal 0, .checkpoint,
    .forLoopNext 1 0, .return_]
  localCount := 1
  bounds := ⟨100, 100, 100, 0, 0, 0, 0, 1, 10000⟩
  strings := ["abc"]
  integers := []
  floats := []

/-- Limits that leave room for that many iterations in total. -/
def totalIterations (n : ℕ) : RuntimeLimits := ⟨100, 100, n, 0, 0, 10000, 0, 0, 0⟩

/-- With room for three iterations, the loop over three items is entered and stays
within the limits. -/
theorem runtime_budget_safe_loopProgram :
    ∃ s, Reachable (.plain loopProgram (totalIterations 3))
        (LoopEntryFits (.plain loopProgram (totalIterations 3))) s ∧
      s.machine.budget.iterations = 3 ∧
      WithinLimits (totalIterations 3) s.machine.budget := by
  have h₀ : Reachable (.plain loopProgram (totalIterations 3))
      (LoopEntryFits (.plain loopProgram (totalIterations 3)))
      (.started (.plain loopProgram (totalIterations 3)) .empty none) := .start _ _
  have h₁ := h₀.step (fun _ _ _ _ hop => by cases hop) rfl
  have h₂ := h₁.step (fun _ _ _ _ _ _ hitems _ => by cases hitems; decide) rfl
  exact ⟨_, h₂, rfl, (runtime_budget_safe _ _ h₂).1⟩

/-- A loop over three items is entered although the total budget is two. -/
theorem loop_entry_exceeds_total :
    ∃ s, Reachable (.plain loopProgram (totalIterations 2)) (fun _ => True) s ∧
      s.machine.budget.iterations = 3 ∧
      ¬ WithinLimits (Env.plain loopProgram (totalIterations 2)).limits s.machine.budget := by
  have h₀ : Reachable (.plain loopProgram (totalIterations 2)) (fun _ => True)
      (.started (.plain loopProgram (totalIterations 2)) .empty none) := .start _ _
  have h₁ := h₀.step trivial rfl
  have h₂ := h₁.step trivial rfl
  refine ⟨_, h₂, rfl, fun h => ?_⟩
  exact absurd h.iterations_le (by decide)

end Codegg.ToolProgram
