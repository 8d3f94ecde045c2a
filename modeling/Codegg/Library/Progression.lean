import Mathlib.Algebra.Order.Ring.Int
import Mathlib.Data.List.Pairwise
import Mathlib.Tactic

/-!
# Arithmetic progressions

The terms of an increasing progression, how many of them lie below a number, and how
the count and the terms change when the progression is started at a later term. A
range runs through the terms of a progression in either direction up to a stop.
-/
namespace Codegg.Library

/-- The `k`-th term. -/
def term (base step : ℤ) (k : ℕ) : ℤ := base + k * step

@[simp] theorem term_zero (base step : ℤ) : term base step 0 = base := by simp [term]

theorem term_term (base step : ℤ) (j k : ℕ) :
    term (term base step j) step k = term base step (j + k) := by
  simp only [term]
  push_cast
  ring

/-- How many terms are below `n`. -/
def countBelow (base step n : ℤ) : ℕ := ((n - base + step - 1) / step).toNat

/-- The first terms. -/
def terms (base step : ℤ) (count : ℕ) : List ℤ := (List.range count).map (term base step)

section

variable {base step n m : ℤ} {j k : ℕ}

theorem term_lt_term (hstep : 0 < step) : term base step j < term base step k ↔ j < k := by
  have hmul : (j : ℤ) * step < k * step ↔ (j : ℤ) < k := mul_lt_mul_iff_left₀ hstep
  unfold term
  constructor
  · omega
  · omega

theorem lt_countBelow (hstep : 0 < step) : k < countBelow base step n ↔ term base step k < n := by
  have hle : (k : ℤ) + 1 ≤ (n - base + step - 1) / step ↔
      ((k : ℤ) + 1) * step ≤ n - base + step - 1 := Int.le_ediv_iff_mul_le hstep
  have hring : ((k : ℤ) + 1) * step = k * step + step := by ring
  unfold countBelow term
  constructor
  · omega
  · omega

theorem countBelow_le (hstep : 0 < step) : countBelow base step n ≤ k ↔ n ≤ term base step k := by
  have h := @lt_countBelow base step n k hstep
  omega

theorem countBelow_mono (hstep : 0 < step) (h : n ≤ m) :
    countBelow base step n ≤ countBelow base step m := by
  rw [countBelow_le hstep]
  have hm := (@countBelow_le base step m _ hstep).mp le_rfl
  omega

/-- Started at a later term, a progression has so many terms fewer below. -/
theorem countBelow_term (hstep : 0 < step) :
    countBelow (term base step j) step n = countBelow base step n - j := by
  refine eq_of_forall_lt_iff fun k => ?_
  rw [lt_countBelow hstep, term_term, ← lt_countBelow hstep]
  omega

theorem countBelow_of_le (hstep : 0 < step) (h : n ≤ base) : countBelow base step n = 0 := by
  have hle : countBelow base step n ≤ 0 := (countBelow_le hstep).mpr (by simpa using h)
  omega

theorem mem_terms {x : ℤ} : x ∈ terms base step k ↔ ∃ i < k, x = term base step i := by
  simp [terms, eq_comm]

theorem length_terms : (terms base step k).length = k := by simp [terms]

theorem terms_add (j k : ℕ) :
    terms base step (j + k) = terms base step j ++ terms (term base step j) step k := by
  unfold terms
  rw [List.range_add, List.map_append, List.map_map]
  congr 1
  refine List.map_congr_left fun i _ => ?_
  exact (term_term base step j i).symm

theorem pairwise_terms (hstep : 0 < step) (k : ℕ) : (terms base step k).Pairwise (· < ·) := by
  refine List.pairwise_map.mpr (List.pairwise_lt_range.imp fun h => ?_)
  exact (term_lt_term hstep).mpr h

theorem getLast?_terms (k : ℕ) : (terms base step (k + 1)).getLast? = some (term base step k) := by
  simp [terms, List.range_succ]

theorem terms_succ (base step : ℤ) (k : ℕ) :
    terms base step (k + 1) = base :: terms (base + step) step k := by
  have hone : terms base step 1 = [base] := by simp [terms]
  have hnext : term base step 1 = base + step := by simp [term]
  rw [Nat.add_comm, terms_add, hone, hnext]
  rfl

end

/-! ### Ranges -/

/-- Not yet at `stop`, on the way of a progression with that step. -/
def Before (step stop v : ℤ) : Prop := if 0 < step then v < stop else stop < v

/-- The items from `start` in steps of `step` that lie before `stop`. -/
structure IsRange (start stop step : ℤ) (items : List ℤ) : Prop where
  steps : items = terms start step items.length
  before : ∀ v ∈ items, Before step stop v
  stopped : ¬Before step stop (term start step items.length)

section

variable {start stop step : ℤ}

theorem isRange_terms_iff {n : ℕ} :
    IsRange start stop step (terms start step n) ↔
      (∀ k < n, Before step stop (term start step k)) ∧ ¬Before step stop (term start step n) := by
  constructor
  · intro h
    have hstop := h.stopped
    rw [length_terms] at hstop
    exact ⟨fun k hk => h.before _ (mem_terms.mpr ⟨k, hk, rfl⟩), hstop⟩
  · intro h
    refine ⟨by rw [length_terms], fun v hv => ?_, by rw [length_terms]; exact h.2⟩
    obtain ⟨k, hk, rfl⟩ := mem_terms.mp hv
    exact h.1 k hk

/-- There is only one range, since the first term past the stop ends it. -/
theorem IsRange.unique {xs ys : List ℤ} (hx : IsRange start stop step xs)
    (hy : IsRange start stop step ys) : xs = ys := by
  have le_of_isRange {us vs : List ℤ} (hu : IsRange start stop step us)
      (hv : IsRange start stop step vs) : us.length ≤ vs.length := by
    by_contra hlt
    rw [hu.steps, isRange_terms_iff] at hu
    exact hv.stopped (hu.1 vs.length (by omega))
  have hlen : xs.length = ys.length := le_antisymm (le_of_isRange hx hy) (le_of_isRange hy hx)
  rw [hx.steps, hy.steps, hlen]

/-- The terms below the stop are the range of a progression that goes up. -/
theorem isRange_up (hstep : 0 < step) :
    IsRange start stop step (terms start step (countBelow start step stop)) := by
  simp only [isRange_terms_iff, Before, if_pos hstep, ← lt_countBelow hstep]
  exact ⟨fun k hk => hk, lt_irrefl _⟩

/-- Going down is going up with every sign changed. -/
theorem isRange_down (hstep : step < 0) :
    IsRange start stop step (terms start step (countBelow (-start) (-step) (-stop))) := by
  have hneg : 0 < -step := by omega
  have hterm (k : ℕ) : term (-start) (-step) k < -stop ↔ stop < term start step k := by
    have hk : term (-start) (-step) k = -term start step k := by
      unfold term
      ring
    omega
  simp only [isRange_terms_iff, Before, if_neg (not_lt.mpr hstep.le), ← hterm, ← lt_countBelow hneg]
  exact ⟨fun k hk => hk, lt_irrefl _⟩

end

end Codegg.Library
