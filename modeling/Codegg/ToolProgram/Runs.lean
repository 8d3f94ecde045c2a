import Codegg.ToolProgram.Effects

/-!
# Progress of runs

Every instruction, whatever its outcome, only adds to what has happened: the
sequence numbers grow, the journal keeps what it has below them, and the issued
calls are extended. A run ends because every turn of the main loop but the last
one charges a step.
-/
namespace Codegg.ToolProgram

open Codegg.Library Exec Interp

/-- A local instruction leaves the steps, the sequence numbers and the calls in
flight alone. -/
structure Quiet (m m' : StackMachine) : Prop where
  steps_eq : m'.budget.steps = m.budget.steps
  seq_eq : m'.nextCallSeq = m.nextCallSeq
  inflight_eq : m'.budget.inflightCalls = m.budget.inflightCalls

variable {m : StackMachine} {s s' : MeteredInterpreter}

theorem Frame.quiet {limits : RuntimeLimits} {m' : StackMachine} (h : Frame limits m m') :
    Quiet m m' :=
  ⟨h.steps_eq, h.seq_eq, h.inflight_eq⟩

theorem quiet_of_frame (limits : RuntimeLimits) {α : Type} {x : Exec α}
    (h : Moves (Frame limits) x) : Moves Quiet x := fun m => (h m).quiet

theorem quiet_executeLocal {env : Env} {op : IrOp} {x : Exec Unit}
    (h : executeLocal env op = some x) : Moves Quiet x := by
  by_cases hop : ∃ bodyStart loopEnd, op = .forLoopStart bodyStart loopEnd
  · obtain ⟨bodyStart, loopEnd, rfl⟩ := hop
    cases h
    intro m
    rcases forLoopStart_effect bodyStart loopEnd m with hf | ⟨-, items, m₁, hr, -, hm⟩
    · exact hf.quiet
    · have hf : Frame env.limits m (finalState (resumeForLoop env m)) :=
        frame_resumeForLoop m
      rw [hr] at hf
      exact ⟨hm.steps_eq.trans hf.steps_eq, hm.seq_eq.trans hf.seq_eq,
        hm.inflight_eq.trans hf.inflight_eq⟩
  · exact quiet_of_frame env.limits (frame_executeLocal h fun bodyStart loopEnd he =>
      hop ⟨bodyStart, loopEnd, he⟩)

/-- What has happened in `s` has also happened in `s'`. -/
structure Extends (s s' : MeteredInterpreter) : Prop where
  fingerprint_eq : s'.replayFingerprint = s.replayFingerprint
  seq_le : s.machine.nextCallSeq ≤ s'.machine.nextCallSeq
  journal_old : ∀ q < s.machine.nextCallSeq, s'.completedCalls.get? q = s.completedCalls.get? q
  issued_prefix : s.issued <+: s'.issued

namespace Extends

theorem refl (s : MeteredInterpreter) : Extends s s :=
  ⟨rfl, le_rfl, fun _ _ => rfl, List.prefix_rfl⟩

theorem trans (a b c : MeteredInterpreter) (hab : Extends a b) (hbc : Extends b c) :
    Extends a c where
  fingerprint_eq := hbc.fingerprint_eq.trans hab.fingerprint_eq
  seq_le := hab.seq_le.trans hbc.seq_le
  journal_old := fun q hq =>
    (hbc.journal_old q (hq.trans_le hab.seq_le)).trans (hab.journal_old q hq)
  issued_prefix := hab.issued_prefix.trans hbc.issued_prefix

/-- A change of the stack machine that takes no sequence number. -/
theorem of_machine (h : m.nextCallSeq = s.machine.nextCallSeq) :
    Extends s { s with machine := m } :=
  ⟨rfl, h.ge, fun _ _ => rfl, List.prefix_rfl⟩

end Extends

/-- What one instruction does: no step is charged while it is executed. -/
structure Progress (s s' : MeteredInterpreter) : Prop extends Extends s s' where
  steps_eq : s'.machine.budget.steps = s.machine.budget.steps

namespace Progress

theorem refl (s : MeteredInterpreter) : Progress s s := ⟨.refl s, rfl⟩

theorem trans (a b c : MeteredInterpreter) (hab : Progress a b) (hbc : Progress b c) :
    Progress a c :=
  ⟨.trans _ _ _ hab.toExtends hbc.toExtends, hbc.steps_eq.trans hab.steps_eq⟩

theorem of_quiet (h : Quiet s.machine m) :
    Progress s { s with machine := m } :=
  ⟨.of_machine h.seq_eq, h.steps_eq⟩

/-- Making the call whose sequence number has just been taken. -/
theorem of_outside (h : Outside s.machine.nextCallSeq s.taken s') : Progress s s' where
  steps_eq := by rw [h.machine_eq]; rfl
  fingerprint_eq := h.fingerprint_eq
  seq_le := by
    rw [h.machine_eq]
    exact Nat.le_succ _
  journal_old := fun q hq => h.journal_eq q (ne_of_lt hq)
  issued_prefix := by
    obtain ⟨new, he, -⟩ := h.issued_eq
    exact ⟨new, he.symm⟩

theorem counted (h : Progress s s') : Progress s s'.counted :=
  ⟨⟨h.fingerprint_eq, h.seq_le, h.journal_old, h.issued_prefix⟩, h.steps_eq⟩

end Progress

namespace Interp

variable {env : Env}

theorem progress_bind {α β : Type} {x : Interp α} {f : α → Interp β} (hx : Moves Progress x)
    (hf : ∀ a, Moves Progress (f a)) : Moves Progress (x >>= f) :=
  Moves.bind Progress.trans hx hf

theorem progress_onMachine {α : Type} {x : Exec α} (hx : Moves Quiet x) :
    Moves Progress (onMachine x) := by
  intro s
  have h := Progress.of_quiet (hx s.machine)
  unfold onMachine
  cases hr : x s.machine with
  | ok a m =>
    rw [hr] at h
    exact h
  | error e m =>
    rw [hr] at h
    exact h

theorem progress_commitCheckpoint : Moves Progress (commitCheckpoint env) := by
  intro s
  rw [commitCheckpoint_eq]
  cases env.broker.checkpoint (checkpointOf env s) with
  | ok _ => exact ⟨⟨rfl, le_rfl, fun _ _ => rfl, List.prefix_rfl⟩, rfl⟩
  | error e => exact ⟨⟨rfl, le_rfl, fun _ _ => rfl, List.prefix_rfl⟩, rfl⟩

/-- The second half of a call. -/
theorem progress_complete {x : Interp CallResult} (hx : Progress s (finalState (x s.taken))) :
    Progress s (finalState ((x >>= fun result => onMachine countCall >>= fun _ =>
      pure result.output) s.taken)) := by
  refine bind_cases s.taken (C := fun r => Progress s (finalState r)) ?_ ?_
  · intro result s' hr
    rw [hr] at hx
    exact hx.counted
  · intro e s' hr
    rw [hr] at hx
    exact hx

theorem progress_dispatchCall (kind : CallKind) (request : CallRequest) :
    Moves Progress (dispatchCall env kind request) := by
  intro s
  refine progress_complete (.of_outside ?_)
  exact outside_replayOr (outside_liveCall _ _ _)

theorem progress_dispatchChildJob (op : ChildJobOp) (config : ChildJobConfig) :
    Moves Progress (dispatchChildJob env op config) := by
  intro s
  have htaken : Progress s s.taken := .of_outside (Outside.refl _)
  have hcheck := @checkCallBudget_eq env s.taken
  unfold dispatchChildJob
  rw [bind_of_ok (show onMachine takeCallSeq s = .ok s.machine.nextCallSeq s.taken from rfl)]
  by_cases h : s.taken.machine.budget.calls ≥ env.limits.maxDynamicCalls
  · rw [if_pos h] at hcheck
    rw [bind_of_error hcheck]
    exact htaken
  · rw [if_neg h] at hcheck
    rw [bind_of_ok hcheck]
    refine progress_complete ?_
    cases hseq : s.taken.completedCalls.get? s.machine.nextCallSeq with
    | some completed =>
      rw [replayOr_of_some hseq, finalState_ofExcept]
      exact htaken
    | none =>
      rw [replayOr_of_none hseq]
      rcases outside_liveChildJob s.taken ⟨s.machine.nextCallSeq, op, config⟩
          (childCallRequest env ⟨s.machine.nextCallSeq, op, config⟩) with ho | ⟨e, he⟩
      · exact .of_outside ho
      · rw [he]
        exact ⟨⟨rfl, Nat.le_succ _, fun _ _ => rfl, List.prefix_rfl⟩, rfl⟩

theorem progress_executeGroup (reqVals results : List ProgramValue) :
    Moves Progress (executeGroup env reqVals results) := by
  induction reqVals generalizing results with
  | nil => exact .pure .refl _
  | cons reqVal reqVals ih =>
    cases reqVal with
    | string text =>
      refine progress_bind (moves_ofExcept .refl _) (fun request => ?_)
      refine progress_bind (progress_onMachine (quiet_of_frame env.limits frame_checkCallBudget))
        (fun _ => ?_)
      exact progress_bind (progress_dispatchCall _ _) (fun output => ih _)
    | _ => exact .throw .refl _

theorem progress_push (val : ProgramValue) : Moves Progress (onMachine (push env val)) :=
  progress_onMachine (quiet_of_frame env.limits (frame_push val))

theorem progress_pop (env : Env) : Moves Progress (onMachine pop) :=
  progress_onMachine (quiet_of_frame env.limits frame_pop)

theorem progress_executeInstruction (op : IrOp) : Moves Progress (executeInstruction env op) := by
  have after : ∀ {x : Interp Unit} (r : StepResult), Moves Progress x →
      Moves Progress (x >>= fun _ => pure r) :=
    fun r hx => progress_bind hx fun _ => .pure .refl r
  refine executeInstruction_cases op ?_ ?_ ?_ ?_ ?_ ?_ ?_
  · intro x hx
    exact after _ (progress_onMachine (quiet_executeLocal hx))
  · refine after _ (progress_bind (progress_pop env) (fun reqVal => ?_))
    split
    · refine progress_bind (moves_ofExcept .refl _) (fun request => ?_)
      refine progress_bind (progress_onMachine (quiet_of_frame env.limits frame_checkCallBudget))
        (fun _ => ?_)
      refine progress_bind (progress_onMachine (quiet_of_frame env.limits frame_checkInflightBudget))
        (fun _ => ?_)
      exact progress_bind (progress_dispatchCall _ _) (fun output => progress_push _)
    · exact .throw .refl _
  · refine after _ (progress_bind (progress_pop env) (fun reqList => ?_))
    split
    · refine progress_bind (progress_onMachine (quiet_of_frame env.limits
        (frame_checkParallelBudget _))) (fun _ => ?_)
      exact progress_bind (progress_executeGroup _ _) (fun results => progress_push _)
    · exact .throw .refl _
  · refine after _ (progress_bind (progress_pop env) (fun configVal => ?_))
    refine progress_bind (progress_pop env) (fun opVal => ?_)
    refine progress_bind (moves_ofExcept .refl _) (fun operands => ?_)
    exact progress_bind (progress_dispatchChildJob _ _) (fun output => progress_push _)
  · intro _
    exact after _ progress_commitCheckpoint
  · intro result
    exact progress_onMachine (quiet_of_frame env.limits (frame_finish result))
  · exact after _ (progress_onMachine (quiet_of_frame env.limits frame_terminate))

end Interp

/-! ### Turns of the main loop -/

variable {env : Env}

/-- A turn after which the program goes on has executed one instruction. -/
theorem step_running (h : step env s = .running s') :
    s.machine.budget.steps < env.limits.maxSteps ∧
      ∃ op, env.program.instructions[s.machine.pc]? = some op ∧
        executeInstruction env op s.fetched = .ok .continue_ s' := by
  unfold step at h
  split at h
  · cases h
  split at h
  · cases h
  split at h
  · cases h
  rename_i hsteps
  split at h
  · cases h
  rename_i op hop
  refine ⟨not_le.mp hsteps, op, hop, ?_⟩
  cases hr : executeInstruction env op s.fetched with
  | error e s₁ =>
    rw [hr] at h
    cases h
  | ok result s₁ =>
    rw [hr] at h
    cases result with
    | continue_ =>
      cases h
      rfl
    | yield_ value => cases h
    | fail reason => cases h

/-- Such a turn has charged one step. -/
theorem steps_of_running (h : step env s = .running s') :
    s'.machine.budget.steps = s.machine.budget.steps + 1 := by
  obtain ⟨-, op, -, hx⟩ := step_running h
  have hp := @progress_executeInstruction env op s.fetched
  rw [hx] at hp
  exact hp.steps_eq

/-- A run goes on from the next state. -/
theorem run_step (h : step env s = .running s') :
    run env s = run env s' := by
  have hlt := (step_running h).1
  have hfuel : env.limits.maxSteps - s.machine.budget.steps + 1 =
      (env.limits.maxSteps - s'.machine.budget.steps + 1) + 1 := by
    rw [steps_of_running h]
    omega
  unfold run
  rw [hfuel]
  conv_lhs => unfold runFor
  rw [h]

theorem run_of_done {result : ProgramResult} (h : step env s = .done result s') :
    run env s = .done result s' := by
  unfold run runFor
  rw [h]

/-- Induction along a run: what holds of every last turn and is passed back from
each turn to the one before holds of every state. -/
theorem run_induction (env : Env) {P : MeteredInterpreter → Prop}
    (last : ∀ s result s', step env s = .done result s' → P s)
    (next : ∀ s s', step env s = .running s' → P s' → P s) (s : MeteredInterpreter) : P s := by
  induction hn : env.limits.maxSteps - s.machine.budget.steps generalizing s with
  | zero =>
    cases h : step env s with
    | done result s' => exact last s result s' h
    | running s' =>
      have := (step_running h).1
      omega
  | succ n ih =>
    cases h : step env s with
    | done result s' => exact last s result s' h
    | running s' =>
      refine next s s' h (ih s' ?_)
      rw [steps_of_running h]
      omega

theorem extends_step (env : Env) (s : MeteredInterpreter) : Extends s (step env s).state := by
  unfold step
  split
  · exact Extends.refl s
  split
  · exact .refl s
  split
  · exact .refl s
  split
  · exact .refl s
  rename_i op _
  have hfetch : Extends s s.fetched := .of_machine rfl
  have hx := Extends.trans _ _ _ hfetch
    (@progress_executeInstruction env op s.fetched).toExtends
  cases hr : executeInstruction env op s.fetched with
  | error e s' =>
    rw [hr] at hx
    exact hx
  | ok result s' =>
    rw [hr] at hx
    cases result <;> exact hx

theorem extends_run (env : Env) (s : MeteredInterpreter) : Extends s (run env s).state := by
  refine run_induction env (P := fun s => Extends s (run env s).state) ?_ ?_ s
  · intro s result s' h
    have hm := extends_step env s
    rw [h] at hm
    rw [run_of_done h]
    exact hm
  · intro s s' h ih
    have hm := extends_step env s
    rw [h] at hm
    rw [run_step h]
    exact .trans _ _ _ hm ih

/-- Every run ends with a result. -/
theorem run_done (env : Env) (s : MeteredInterpreter) :
    ∃ result s', run env s = .done result s' := by
  refine run_induction env (P := fun s => ∃ result s', run env s = .done result s') ?_ ?_ s
  · intro s result s' h
    exact ⟨result, s', run_of_done h⟩
  · intro s s' h ih
    rw [run_step h]
    exact ih

/-- The states that a run reaches between instructions. -/
def Reaches (env : Env) : MeteredInterpreter → MeteredInterpreter → Prop :=
  Relation.ReflTransGen fun s s' => step env s = .running s'

theorem run_of_reaches (h : Reaches env s s') :
    run env s = run env s' := by
  induction h with
  | refl => rfl
  | tail _ hstep ih => rw [ih, run_step hstep]

end Codegg.ToolProgram
