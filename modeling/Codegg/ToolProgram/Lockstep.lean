import Codegg.Library.Pursuit
import Codegg.ToolProgram.Runs

/-!
# Two interpreters in lockstep

A pursuit of one interpreter by another that share their stack machine. If the
second one follows through checkpoints and calls, it follows through every
instruction and so through the whole run.
-/
namespace Codegg.ToolProgram

open Codegg.Library Interp Exec

structure Lockstep (env : Env) extends Pursuit InterpreterError MeteredInterpreter where
  machine_eq : ∀ {s t}, R s t → t.machine = s.machine
  /-- Both machines may be replaced, as long as no sequence number is taken. -/
  onMachine : ∀ {s t m}, R s t → m.nextCallSeq = s.machine.nextCallSeq →
    m.budget.inflightCalls = s.machine.budget.inflightCalls →
    R { s with machine := m } { t with machine := m }
  moves : ∀ {s s'}, Extends s s' → M s s'
  checkpoint : toPursuit.Follows (commitCheckpoint env)
  dispatchCall : ∀ kind request, toPursuit.Follows (dispatchCall env kind request)
  dispatchChildJob : ∀ op config, toPursuit.Follows (dispatchChildJob env op config)

namespace Lockstep

variable {env : Env} (L : Lockstep env)

theorem follows_onMachine {α : Type} {x : Exec α} (hx : Moves Quiet x) :
    L.Follows (ToolProgram.onMachine x) := by
  refine ⟨fun s => L.moves (progress_onMachine hx s).toExtends, ?_⟩
  intro s t h _
  have hq := hx s.machine
  left
  unfold ToolProgram.onMachine
  rw [L.machine_eq h]
  cases hr : x s.machine with
  | ok a m =>
    rw [hr] at hq
    exact .ok a (L.onMachine h hq.seq_eq hq.inflight_eq)
  | error e m =>
    rw [hr] at hq
    exact .error e (L.onMachine h hq.seq_eq hq.inflight_eq)

theorem follows_frame {α : Type} {x : Exec α} (hx : Moves (Frame env.limits) x) :
    L.Follows (ToolProgram.onMachine x) :=
  L.follows_onMachine (quiet_of_frame env.limits hx)

theorem follows_ofExcept {α : Type} (x : Except InterpreterError α) :
    L.Follows (ofExcept x) := by
  cases x with
  | ok a => exact .pure a
  | error e => exact .throw e

theorem follows_executeGroup (reqVals results : List ProgramValue) :
    L.Follows (executeGroup env reqVals results) := by
  induction reqVals generalizing results with
  | nil => exact .pure _
  | cons reqVal reqVals ih =>
    cases reqVal with
    | string text =>
      refine .bind (L.follows_ofExcept _) (fun request => ?_)
      refine .bind (L.follows_frame frame_checkCallBudget) (fun _ => ?_)
      exact .bind (L.dispatchCall _ _) (fun output => ih _)
    | _ => exact .throw _

theorem follows_executeInstruction (op : IrOp) :
    L.Follows (executeInstruction env op) := by
  refine executeInstruction_cases op ?_ ?_ ?_ ?_ ?_ ?_ ?_
  · intro x hx
    exact .bind (L.follows_onMachine (quiet_executeLocal hx)) (fun _ => .pure _)
  · refine .bind (.bind (L.follows_frame frame_pop) (fun reqVal => ?_)) (fun _ => .pure _)
    split
    · refine .bind (L.follows_ofExcept _) (fun request => ?_)
      refine .bind (L.follows_frame frame_checkCallBudget) (fun _ => ?_)
      refine .bind (L.follows_frame frame_checkInflightBudget) (fun _ => ?_)
      exact .bind (L.dispatchCall _ _) (fun output => L.follows_frame (frame_push _))
    · exact .throw _
  · refine .bind (.bind (L.follows_frame frame_pop) (fun reqList => ?_)) (fun _ => .pure _)
    split
    · refine .bind (L.follows_frame (frame_checkParallelBudget _)) (fun _ => ?_)
      exact .bind (L.follows_executeGroup _ _) (fun results => L.follows_frame (frame_push _))
    · exact .throw _
  · refine .bind (.bind (L.follows_frame frame_pop) (fun configVal => ?_)) (fun _ => .pure _)
    refine .bind (L.follows_frame frame_pop) (fun opVal => ?_)
    refine .bind (L.follows_ofExcept _) (fun operands => ?_)
    exact .bind (L.dispatchChildJob _ _) (fun output => L.follows_frame (frame_push _))
  · intro _
    exact .bind L.checkpoint (fun _ => .pure _)
  · intro result
    exact L.follows_frame (frame_finish result)
  · exact .bind (L.follows_frame frame_terminate) (fun _ => .pure _)

/-! ### Turns and runs -/

/-- The same outcome of a turn, in related states. -/
inductive MatchedTurn : Outcome → Outcome → Prop
  | running {s t : MeteredInterpreter} (h : L.R s t) : MatchedTurn (.running s) (.running t)
  | done (result : ProgramResult) {s t : MeteredInterpreter} (h : L.R s t) :
    MatchedTurn (.done result s) (.done result t)

theorem matched_afterInstruction {r r' : EStateM.Result InterpreterError MeteredInterpreter StepResult}
    (h : Matched L.R r r') :
    L.MatchedTurn (afterInstruction env r) (afterInstruction env r') := by
  cases h with
  | error e hR =>
    simp only [afterInstruction, L.machine_eq hR]
    exact .done _ hR
  | ok result hR =>
    cases result with
    | continue_ => exact .running hR
    | yield_ value =>
      simp only [afterInstruction, L.machine_eq hR]
      exact .done _ hR
    | fail reason =>
      simp only [afterInstruction, L.machine_eq hR]
      exact .done _ hR

theorem step_follows {s t : MeteredInterpreter} (h : L.R s t) (hA : L.A (step env s).state) :
    L.MatchedTurn (step env s) (step env t) ∨
      ∃ e t', step env t = .done (errorResult e t'.machine.budget) t' ∧
        L.S (step env s).state e t' := by
  have hm := L.machine_eq h
  unfold step at hA ⊢
  rw [hm]
  cases hp : env.poll s.machine.budget.steps with
  | some i => exact .inl (.done _ h)
  | none =>
    rw [hp] at hA
    dsimp only at hA ⊢
    split
    · exact .inl (.done _ h)
    rename_i hterm
    rw [if_neg hterm] at hA
    split
    · exact .inl (.done _ h)
    rename_i hsteps
    rw [if_neg hsteps] at hA
    cases hi : env.program.instructions[s.machine.pc]? with
    | none => exact .inl (.done _ h)
    | some op =>
      rw [hi] at hA
      dsimp only at hA ⊢
      have hfetch : L.R s.fetched t.fetched := by
        have := L.onMachine (m := s.fetched.machine) h rfl rfl
        rw [show t.fetched = { t with machine := s.fetched.machine } by
          simp only [MeteredInterpreter.fetched, hm]]
        exact this
      have hfinal : (afterInstruction env (executeInstruction env op s.fetched)).state =
          finalState (executeInstruction env op s.fetched) := by
        cases executeInstruction env op s.fetched with
        | error e s' => rfl
        | ok result s' => cases result <;> rfl
      rw [hfinal] at hA ⊢
      rcases (L.follows_executeInstruction op).follows _ _ hfetch hA with hmatch | ⟨e, t', ht, hS⟩
      · exact .inl (L.matched_afterInstruction hmatch)
      · right
        refine ⟨e, t', ?_, hS⟩
        rw [ht]
        rfl

/-- Where no run gives up, both reach related states. -/
theorem reaches_follows (hS : ∀ s e t, ¬ L.S s e t) (hA : ∀ s, L.A s)
    {s s' t : MeteredInterpreter} (h : Reaches env s s') (hR : L.R s t) :
    ∃ t', Reaches env t t' ∧ L.R s' t' := by
  induction h with
  | refl => exact ⟨t, .refl, hR⟩
  | tail _ hstep ih =>
    obtain ⟨t₁, ht₁, hR₁⟩ := ih
    rcases L.step_follows hR₁ (hA _) with hmatch | ⟨e, t', -, hno⟩
    · rw [hstep] at hmatch
      cases ht : step env t₁ with
      | running t₂ =>
        rw [ht] at hmatch
        cases hmatch with
        | running hR₂ => exact ⟨t₂, ht₁.tail ht, hR₂⟩
      | done result t₂ =>
        rw [ht] at hmatch
        cases hmatch
    · exact absurd hno (hS _ _ _)

/-- The second run ends like the first, or gives up. -/
theorem run_follows {s t : MeteredInterpreter} (h : L.R s t) (hA : L.A (run env s).state) :
    L.MatchedTurn (run env s) (run env t) ∨
      ∃ e t', run env t = .done (errorResult e t'.machine.budget) t' ∧
        L.S (run env s).state e t' := by
  refine run_induction env (P := fun s => ∀ t, L.R s t → L.A (run env s).state →
    L.MatchedTurn (run env s) (run env t) ∨
      ∃ e t', run env t = .done (errorResult e t'.machine.budget) t' ∧
        L.S (run env s).state e t') ?_ ?_ s t h hA
  · intro s result s' hs t h hA
    rw [run_of_done hs] at hA ⊢
    have hstep := L.step_follows h (by rw [hs]; exact hA)
    rw [hs] at hstep
    rcases hstep with hmatch | ⟨e, t', ht, hS⟩
    · cases ht : step env t with
      | running t' =>
        rw [ht] at hmatch
        cases hmatch
      | done result' t' =>
        rw [ht] at hmatch
        rw [run_of_done ht]
        exact .inl hmatch
    · exact .inr ⟨e, t', run_of_done ht, hS⟩
  · intro s s' hs ih t h hA
    rw [run_step hs] at hA ⊢
    have hmove := L.moves (extends_run env s')
    have hstep := L.step_follows h (by rw [hs]; exact L.back hmove hA)
    rw [hs] at hstep
    rcases hstep with hmatch | ⟨e, t', ht, hS⟩
    · cases ht : step env t with
      | running t' =>
        rw [ht] at hmatch
        rw [run_step ht]
        cases hmatch with
        | running hR => exact ih t' hR hA
      | done result' t' =>
        rw [ht] at hmatch
        cases hmatch
    · exact .inr ⟨e, t', run_of_done ht, L.later hmove hS⟩

end Lockstep

end Codegg.ToolProgram
