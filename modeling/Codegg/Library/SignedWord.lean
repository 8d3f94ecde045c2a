import Mathlib.Tactic.Ring
import Mathlib.Data.Int.Bitwise

/-!
# Signed machine words against integers

An integer is known by its bits, and a signed word carries the bits of the
integer it stands for. The bitwise operations of words are therefore those of
the integers, truncating division is floor division except for a remainder of
mixed signs, and a wrapped number is exact when it fits.
-/
namespace Codegg.Library

/-- The sum of two 64-bit integers, kept within their range. -/
def saturatingAdd (a b : ℤ) : ℤ := max (-2 ^ 63) (min (2 ^ 63 - 1) (a + b))

/-- Two integers with the same bits are equal. -/
theorem eq_of_testBit_eq {a b : ℤ} (h : ∀ k, Int.testBit a k = Int.testBit b k) : a = b := by
  have apart (m n : ℕ) : ¬∀ k, Nat.testBit m k = !Nat.testBit n k := by
    intro hmn
    have hm : m < 2 ^ (m + n) := lt_of_lt_of_le Nat.lt_two_pow_self
      (Nat.pow_le_pow_right (by omega) (by omega))
    have hn : n < 2 ^ (m + n) := lt_of_lt_of_le Nat.lt_two_pow_self
      (Nat.pow_le_pow_right (by omega) (by omega))
    have := hmn (m + n)
    simp [Nat.testBit_lt_two_pow hm, Nat.testBit_lt_two_pow hn] at this
  cases a with
  | ofNat m =>
    cases b with
    | ofNat n => exact congrArg Int.ofNat (Nat.eq_of_testBit_eq h)
    | negSucc n => exact absurd h (apart m n)
  | negSucc m =>
    cases b with
    | ofNat n => exact absurd (fun k => (h k).symm) (apart n m)
    | negSucc n =>
      refine congrArg Int.negSucc (Nat.eq_of_testBit_eq fun k => ?_)
      have hk : (!Nat.testBit m k) = !Nat.testBit n k := h k
      simpa using hk

/-- A signed word continues with copies of its sign bit. -/
theorem testBit_toInt {w : ℕ} (x : BitVec w) (k : ℕ) :
    Int.testBit x.toInt k = if k < w then x.getLsbD k else x.msb := by
  have hx : x.toNat < 2 ^ w := x.isLt
  rw [BitVec.toInt_eq_msb_cond]
  cases hmsb : x.msb with
  | false =>
    simp only [Bool.false_eq_true, if_false]
    split_ifs with hk
    · rfl
    · exact Nat.testBit_lt_two_pow (lt_of_lt_of_le hx (Nat.pow_le_pow_right (by omega) (by omega)))
  | true =>
    simp only [if_true]
    -- The bits of a negative integer are the complement of those of its predecessor's opposite.
    have hneg : (x.toNat : ℤ) - ((2 ^ w : ℕ) : ℤ) = Int.negSucc (2 ^ w - (x.toNat + 1)) := by
      omega
    rw [hneg]
    simp only [Int.testBit, Nat.testBit_two_pow_sub_succ hx]
    split_ifs with hk
    · simp [hk, BitVec.getLsbD]
    · simp [hk]

section Bitwise

variable {w : ℕ}

/-- A bit by bit operation of words is the same operation of the integers. -/
theorem toInt_bitwise {op : BitVec w → BitVec w → BitVec w} {iop : ℤ → ℤ → ℤ}
    {f : Bool → Bool → Bool}
    (hbit : ∀ x y k, k < w → (op x y).getLsbD k = f (x.getLsbD k) (y.getLsbD k))
    (hmsb : ∀ x y, (op x y).msb = f x.msb y.msb)
    (hint : ∀ a b k, Int.testBit (iop a b) k = f (Int.testBit a k) (Int.testBit b k))
    (x y : BitVec w) : (op x y).toInt = iop x.toInt y.toInt := by
  refine eq_of_testBit_eq fun k => ?_
  rw [hint, testBit_toInt, testBit_toInt, testBit_toInt]
  split_ifs with hk
  · exact hbit x y k hk
  · exact hmsb x y

theorem toInt_or (x y : BitVec w) : (x ||| y).toInt = Int.lor x.toInt y.toInt :=
  toInt_bitwise (by simp) (by simp) Int.testBit_lor x y

theorem toInt_and (x y : BitVec w) : (x &&& y).toInt = Int.land x.toInt y.toInt :=
  toInt_bitwise (by simp) (by simp) Int.testBit_land x y

theorem toInt_xor (x y : BitVec w) : (x ^^^ y).toInt = Int.xor x.toInt y.toInt :=
  toInt_bitwise (by simp) (by simp) Int.testBit_lxor x y

end Bitwise

/-! ### Truncation and floor -/

/-- Truncating and floor division differ by one when the signs are mixed and
something remains. -/
theorem tdiv_eq_fdiv_iff {a b : ℤ} (hb : b ≠ 0) :
    a.tdiv b = a.fdiv b ↔ b ∣ a ∨ (0 ≤ a ∧ 0 < b) ∨ (a ≤ 0 ∧ b < 0) := by
  rw [Int.fdiv_eq_tdiv]
  by_cases hd : b ∣ a
  · simp [hd]
  · have ha : a ≠ 0 := by
      rintro rfl
      exact hd (dvd_zero b)
    rcases lt_or_gt_of_ne hb with hneg | hpos
    · rw [Int.sign_eq_neg_one_of_neg hneg]
      split_ifs <;> omega
    · rw [Int.sign_eq_one_of_pos hpos]
      split_ifs <;> omega

/-- The remainders differ exactly when the quotients do. -/
theorem tmod_eq_fmod_iff {a b : ℤ} (hb : b ≠ 0) :
    a.tmod b = a.fmod b ↔ b ∣ a ∨ (0 ≤ a ∧ 0 < b) ∨ (a ≤ 0 ∧ b < 0) := by
  rw [← tdiv_eq_fdiv_iff hb, Int.tmod_def, Int.fmod_def, sub_right_inj]
  exact mul_right_inj' hb

/-- A number read back from a word of `w` bits is itself exactly when it fits. -/
theorem bmod_two_pow_eq_iff {w : ℕ} (hw : 0 < w) (i : ℤ) :
    i.bmod (2 ^ w) = i ↔ -2 ^ (w - 1) ≤ i ∧ i < 2 ^ (w - 1) := by
  obtain ⟨v, rfl⟩ : ∃ v, w = v + 1 := ⟨w - 1, by omega⟩
  have hhalf : ((2 ^ (v + 1) : ℕ) : ℤ) = 2 * 2 ^ v := by push_cast; ring
  constructor
  · have hlo := Int.le_bmod (x := i) (m := 2 ^ (v + 1)) (Nat.two_pow_pos _)
    have hhi := Int.bmod_lt (x := i) (m := 2 ^ (v + 1)) (Nat.two_pow_pos _)
    simp only [Nat.add_sub_cancel]
    omega
  · rintro ⟨hlo, hhi⟩
    simp only [Nat.add_sub_cancel] at hlo hhi
    apply Int.bmod_eq_of_le_mul_two <;> rw [hhalf] <;> omega

end Codegg.Library
