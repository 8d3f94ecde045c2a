import Mathlib.Data.List.Range
import Mathlib.Tactic

/-!
# Consecutive numbers

Lists whose elements carry consecutive numbers, and what taking, dropping and filtering by
number do to them.
-/
namespace Codegg.Library

/-- The elements carry the numbers from `base` on. -/
def Numbered {α : Type*} (number : α → ℕ) (base : ℕ) (xs : List α) : Prop :=
  xs.map number = List.range' base xs.length

section

variable {α : Type*} {number : α → ℕ} {base n k : ℕ} {x : α} {xs ys : List α}

@[simp] theorem numbered_nil : Numbered number base [] := rfl

theorem numbered_append :
    Numbered number base (xs ++ ys) ↔
      Numbered number base xs ∧ Numbered number (base + xs.length) ys := by
  unfold Numbered
  rw [List.map_append, List.length_append, ← List.range'_append_1]
  constructor
  · intro h
    exact List.append_inj h (by simp)
  · rintro ⟨hxs, hys⟩
    rw [hxs, hys]

theorem numbered_cons : Numbered number base (x :: xs) ↔ number x = base ∧ Numbered number (base + 1) xs := by
  unfold Numbered
  simp [List.range'_succ]

theorem Numbered.take (h : Numbered number base xs) (k : ℕ) : Numbered number base (xs.take k) := by
  rw [← List.take_append_drop k xs, numbered_append] at h
  exact h.1

theorem Numbered.drop (h : Numbered number base xs) (hk : k ≤ xs.length) :
    Numbered number (base + k) (xs.drop k) := by
  rw [← List.take_append_drop k xs, numbered_append] at h
  have hlength : (xs.take k).length = k := List.length_take_of_le hk
  rw [hlength] at h
  exact h.2

theorem Numbered.mem_range (h : Numbered number base xs) (hx : x ∈ xs) :
    base ≤ number x ∧ number x < base + xs.length := by
  have hmem : number x ∈ List.range' base xs.length := h ▸ List.mem_map_of_mem hx
  simpa using hmem

theorem Numbered.exists_mem (h : Numbered number base xs) (hlo : base ≤ n)
    (hhi : n < base + xs.length) : ∃ x ∈ xs, number x = n := by
  have hmem : n ∈ xs.map number := by
    rw [h, List.mem_range'_1]
    exact ⟨hlo, hhi⟩
  exact List.mem_map.mp hmem

/-- What is numbered from `n` on is what is left after dropping. -/
theorem Numbered.filter_le (h : Numbered number base xs) (n : ℕ) :
    xs.filter (fun x => decide (n ≤ number x)) = xs.drop (n - base) := by
  induction xs generalizing base with
  | nil => simp
  | cons x xs ih =>
    obtain ⟨hx, hxs⟩ := numbered_cons.mp h
    by_cases hn : n ≤ base
    · have hall : ∀ y ∈ x :: xs, n ≤ number y := by
        intro y hy
        have hy' := (h.mem_range hy).1
        omega
      rw [List.filter_eq_self.mpr (by simpa using hall), Nat.sub_eq_zero_of_le hn]
      rfl
    · obtain ⟨m, hm⟩ : ∃ m, n - base = m + 1 := ⟨n - base - 1, by omega⟩
      rw [List.filter_cons_of_neg (by simpa [hx] using hn), ih hxs, hm, List.drop_succ_cons]
      congr 1
      omega

/-- What is numbered up to `n` is what is taken. -/
theorem Numbered.filter_lt (h : Numbered number base xs) (n : ℕ) :
    xs.filter (fun x => decide (number x < n)) = xs.take (n - base) := by
  have hdropped : ∀ x ∈ xs.drop (n - base), ¬number x < n := by
    intro x hx
    rw [← h.filter_le n] at hx
    simpa using (List.mem_filter.mp hx).2
  have htaken : ∀ x ∈ xs.take (n - base), number x < n := by
    intro x hx
    have hrange := (h.take (n - base)).mem_range hx
    have hlength := List.length_take_le (n - base) xs
    omega
  conv_lhs => rw [← List.take_append_drop (n - base) xs, List.filter_append]
  rw [List.filter_eq_self.mpr (by simpa using htaken),
    List.filter_eq_nil_iff.mpr (by simpa using hdropped), List.append_nil]

/-- What is numbered from 1 is cut out by taking and dropping. -/
theorem Numbered.filter_window (h : Numbered number 1 xs) (a b : ℕ) :
    xs.filter (fun x => decide (a < number x) && decide (number x ≤ b)) = (xs.take b).drop a := by
  have hupper : xs.filter (fun x => decide (number x ≤ b)) = xs.take b := by
    have hlt := h.filter_lt (b + 1)
    simpa [Nat.lt_succ_iff] using hlt
  have hlower := (h.take b).filter_le (a + 1)
  rw [← List.filter_filter, hupper]
  simpa [Nat.succ_le_iff] using hlower

/-- Where the numbers start is read off the first element. -/
theorem Numbered.base_eq {base' : ℕ} (h : Numbered number base xs) (h' : Numbered number base' xs)
    (hne : xs ≠ []) : base = base' := by
  cases xs with
  | nil => exact absurd rfl hne
  | cons x xs => exact (numbered_cons.mp h).1.symm.trans (numbered_cons.mp h').1

theorem Numbered.getLast? (h : Numbered number base xs) (hne : xs ≠ []) :
    xs.getLast?.map number = some (base + xs.length - 1) := by
  rw [← List.getLast?_map, h]
  cases xs with
  | nil => exact absurd rfl hne
  | cons x xs =>
    rw [List.length_cons, List.range'_concat]
    simp

end

end Codegg.Library
