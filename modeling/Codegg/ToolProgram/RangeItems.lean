import Codegg.Library.Progression
import Codegg.Library.StateError
import Codegg.ToolProgram.Interpreter
import Codegg.ToolProgram.IntegerOps

/-!
# The items of a range

A `for` loop over a range counts its items first and then adds them up one after
the other. The count is that of Python, and so are the items, unless the number
after the last item does not fit: the loop computes it all the same.
-/
namespace Codegg.ToolProgram

open Codegg.Library

namespace ProgramValue

variable {start stop step v : ℤ}

theorem spanCount_eq_countBelow {a b d : ℤ} (hd : 0 < d) :
    (if b - a > 0 then ((b - a - 1) / d + 1).toNat else 0) = countBelow a d b := by
  have hsum : b - a + d - 1 = b - a - 1 + d := by omega
  unfold countBelow
  rw [hsum, Int.add_ediv_of_dvd_right (dvd_refl d), Int.ediv_self hd.ne']
  split_ifs with hpos
  · rfl
  · have hneg : (b - a - 1) / d < 0 := Int.ediv_neg_of_neg_of_pos (by omega) hd
    omega

/-- The count of the interpreter is the length of the range. -/
theorem isRange_rangeCount (hstep : step ≠ 0) :
    IsRange start stop step (terms start step (rangeCount start stop step)) := by
  rcases lt_or_gt_of_ne hstep with hneg | hpos
  · have hspan : start - stop = -stop - -start := by ring
    rw [rangeCount, if_neg (not_lt.mpr hneg.le), abs_of_neg hneg, hspan,
      spanCount_eq_countBelow (neg_pos.mpr hneg)]
    exact isRange_down hneg
  · rw [rangeCount, if_pos hpos, abs_of_pos hpos, spanCount_eq_countBelow hpos]
    exact isRange_up hpos

/-- Between two numbers of the range of a word, every number is one. -/
theorem inI64_next {n : ℕ} (hv : inI64 v = true) (hlast : inI64 (term v step (n + 1)) = true) :
    inI64 (v + step) = true := by
  rw [inI64_iff] at *
  unfold term at hlast
  push_cast at hlast
  rcases le_total 0 step with hs | hs
  · constructor <;> nlinarith
  · constructor <;> nlinarith

/-- The items come out when there are none, or when the number after them fits. -/
theorem rangeItems_eq_ok {n : ℕ} (hv : inI64 v = true)
    (hlast : n = 0 ∨ inI64 (term v step n) = true) :
    rangeItems step n v = .ok ((terms v step n).map int) := by
  induction n generalizing v with
  | zero => rfl
  | succ n ih =>
    have hend : inI64 (term v step (n + 1)) = true := hlast.resolve_left (by omega)
    have hnext : inI64 (v + step) = true := inI64_next hv hend
    have hterm : term (v + step) step n = term v step (n + 1) := by
      unfold term
      push_cast
      ring
    rw [rangeItems, if_pos hnext, ih hnext (.inr (by rw [hterm]; exact hend)), terms_succ]
    rfl

/-- The number after the last item stops the loop when it does not fit. -/
theorem rangeItems_eq_error {n : ℕ} (hn : n ≠ 0) (hlast : ¬inI64 (term v step n) = true) :
    rangeItems step n v = .error (.typeError "range() bounds overflow i64") := by
  induction n generalizing v with
  | zero => exact absurd rfl hn
  | succ n ih =>
    rw [rangeItems]
    split_ifs with hnext
    · have hterm : term (v + step) step n = term v step (n + 1) := by
        unfold term
        push_cast
        ring
      have hn0 : n ≠ 0 := by
        rintro rfl
        simp [term, hnext] at hlast
      rw [ih hn0 (by rw [hterm]; exact hlast)]
      rfl
    · rfl

end ProgramValue

namespace Exec

open ProgramValue

/-- The items of the loop are those of the range, or its length exceeds the limit
before the first item is built. -/
def MaterialisesRange (env : Env) (start stop step : ℤ) (stack : List ProgramValue)
    (m : StackMachine) : Prop :=
  ∀ items, IsRange start stop step items →
    (items.length ≤ env.limits.maxLoopIterations →
      resumeForLoop env m = .ok (items.map .int) { m with stack := stack }) ∧
    (env.limits.maxLoopIterations < items.length →
      resumeForLoop env m = .error (.budgetExceeded ("loop iteration count " ++
        toString items.length ++ " exceeds max " ++ toString env.limits.maxLoopIterations))
        { m with stack := stack })

variable {env : Env} {m : StackMachine} {stack : List ProgramValue} {start stop step : ℤ}

theorem resumeForLoop_range (hm : m.stack = .int step :: .int stop :: .int start :: stack) :
    resumeForLoop env m =
      (ofExcept (rangeLoopItems env start stop step) : Exec _) { m with stack := stack } := by
  unfold resumeForLoop
  rw [get_bind, hm]
  rfl

/-- A range within the limit comes out as Python has it exactly when it is empty
or the number after its last item fits. -/
theorem resumeForLoop_range_iff (env : Env) (m : StackMachine) (stack : List ProgramValue)
    (start stop step : ℤ) (hm : m.stack = .int step :: .int stop :: .int start :: stack)
    (hstart : inI64 start = true) (hstep : step ≠ 0) :
    MaterialisesRange env start stop step stack m ↔
      rangeCount start stop step = 0 ∨ env.limits.maxLoopIterations < rangeCount start stop step ∨
        inI64 (start + rangeCount start stop step * step) = true := by
  have hrange : IsRange start stop step (terms start step (rangeCount start stop step)) :=
    isRange_rangeCount hstep
  have hitems : rangeLoopItems env start stop step =
      if rangeCount start stop step > env.limits.maxLoopIterations then
        .error (.budgetExceeded ("loop iteration count " ++
          toString (rangeCount start stop step) ++ " exceeds max " ++
          toString env.limits.maxLoopIterations))
      else rangeItems step (rangeCount start stop step) start := by
    rw [rangeLoopItems, if_neg hstep]
  constructor
  · intro h
    by_contra hnot
    simp only [not_or, not_lt] at hnot
    obtain ⟨hzero, hle, hlast⟩ := hnot
    have hok := (h _ hrange).1 (by rw [length_terms]; exact hle)
    rw [resumeForLoop_range hm, hitems, if_neg (by omega), rangeItems_eq_error hzero hlast] at hok
    cases hok
  · intro hcond items his
    obtain rfl := his.unique hrange
    rw [length_terms, resumeForLoop_range hm, hitems]
    constructor
    · intro hle
      have hlast : rangeCount start stop step = 0 ∨
          inI64 (term start step (rangeCount start stop step)) = true :=
        hcond.imp_right fun h => h.resolve_left (by omega)
      rw [if_neg (by omega), rangeItems_eq_ok hstart hlast]
      rfl
    · intro hlt
      rw [if_pos hlt]
      rfl

/-- An environment with ten iterations a loop. -/
def tenTurns : Env :=
  .plain ⟨[], 0, ⟨100, 10, 10, 0, 0, 0, 0, 1, 10000⟩, [], [], []⟩
    ⟨100, 10, 10, 0, 0, 10000, 0, 0, 0⟩

/-- The machine that is about to enter a loop over a range. -/
def beforeRange (start stop step : ℤ) : StackMachine :=
  { StackMachine.new tenTurns.program with stack := [.int step, .int stop, .int start] }

theorem resumeForLoop_range_iff_last :
    MaterialisesRange tenTurns (2 ^ 63 - 2) (2 ^ 63 - 1) 1 []
      (beforeRange (2 ^ 63 - 2) (2 ^ 63 - 1) 1) :=
  (resumeForLoop_range_iff tenTurns (beforeRange (2 ^ 63 - 2) (2 ^ 63 - 1) 1) [] (2 ^ 63 - 2)
    (2 ^ 63 - 1) 1 rfl (by decide) (by decide)).mpr (.inr (.inr (by decide)))

/-- The only item of this range fits, the number two after it does not. -/
theorem range_overflows_after_last :
    ¬MaterialisesRange tenTurns (2 ^ 63 - 2) (2 ^ 63 - 1) 2 []
      (beforeRange (2 ^ 63 - 2) (2 ^ 63 - 1) 2) := by
  intro h
  have hrange : IsRange (2 ^ 63 - 2) (2 ^ 63 - 1) 2 [2 ^ 63 - 2] :=
    ⟨by decide, by simp [Before], by simp [Before, term]⟩
  have hok := (h _ hrange).1 (by decide)
  cases hok

end Exec

end Codegg.ToolProgram
