import Codegg.Library.SignedWord
import Codegg.ToolProgram.Value

/-!
# Exact integer operations

What Python computes for the integer operators of a tool program, and for which
operands the interpreter returns it. Division and modulo round towards zero in
the interpreter, and a left shift drops the bits that leave the word; every
other operation is exact or an error.
-/
namespace Codegg.ToolProgram

open Codegg.Library

namespace ProgramValue

/-- The exact integer result of an operator; `none` where there is no such integer. -/
def exactBinop : IrBinOp → ℤ → ℤ → Option ℤ
  | .add, l, r => some (l + r)
  | .sub, l, r => some (l - r)
  | .mul, l, r => some (l * r)
  -- True division leaves the integers.
  | .div, _, _ => .none
  | .floorDiv, l, r => if r = 0 then .none else some (l.fdiv r)
  | .mod, l, r => if r = 0 then .none else some (l.fmod r)
  | .pow, l, r => if 0 ≤ r then some (l ^ r.toNat) else .none
  | .bitOr, l, r => some (l.lor r)
  | .bitXor, l, r => some (Int.xor l r)
  | .bitAnd, l, r => some (l.land r)
  | .lShift, l, r => if 0 ≤ r then some (l * 2 ^ r.toNat) else .none
  | .rShift, l, r => if 0 ≤ r then some (l.fdiv (2 ^ r.toNat)) else .none

def exactUnaryop : IrUnaryOp → ℤ → ℤ
  | .neg, i => -i
  | .pos, i => i
  | .invert, i => i.lnot

/-- The exact result or an error, but never another value. -/
def ExactOrError (result : Except InterpreterError ProgramValue) (exact : Option ℤ) : Prop :=
  ∀ v, result = .ok v → ∃ i, exact = some i ∧ v = .int i

/-- Nothing is rounded towards zero and no bit leaves the word. -/
def NothingLost (kind : IrBinOp) (l r : ℤ) : Prop :=
  match kind with
  | .floorDiv | .mod => r = 0 ∨ r ∣ l ∨ (0 ≤ l ∧ 0 < r) ∨ (l ≤ 0 ∧ r < 0)
  | .lShift => ¬(0 ≤ r ∧ r < 64) ∨ inI64 (l * 2 ^ r.toNat) = true
  | _ => True

attribute [local simp] NothingLost

theorem inI64_iff {i : ℤ} : inI64 i = true ↔ -2 ^ 63 ≤ i ∧ i < 2 ^ 63 := by
  simp [inI64]

/-! ### Exact results -/

theorem exactOrError_error (e : InterpreterError) (exact : Option ℤ) :
    ExactOrError (.error e) exact := by
  intro v h
  cases h

theorem exactOrError_int_iff (i : ℤ) (exact : Option ℤ) :
    ExactOrError (.ok (.int i)) exact ↔ exact = some i := by
  constructor
  · intro h
    obtain ⟨j, hj, hv⟩ := h _ rfl
    cases hv
    exact hj
  · rintro rfl v hv
    cases hv
    exact ⟨i, rfl, rfl⟩

theorem exactOrError_checked (op : String) (i : ℤ) : ExactOrError (checked op i) (some i) := by
  unfold checked
  split_ifs
  · exact (exactOrError_int_iff i _).mpr rfl
  · exact exactOrError_error _ _

/-- A checked result is exact when it is the right one or fails the check. -/
theorem exactOrError_checked_iff (op : String) (i j : ℤ) :
    ExactOrError (checked op i) (some j) ↔ inI64 i = true → j = i := by
  unfold checked
  split_ifs with h
  · simp [exactOrError_int_iff, h]
  · simp [exactOrError_error, h]

/-! ### Words -/

theorem toInt_ofInt_of_inI64 {i : ℤ} (h : inI64 i = true) : (BitVec.ofInt 64 i).toInt = i := by
  obtain ⟨hlo, hhi⟩ := inI64_iff.mp h
  exact BitVec.toInt_ofInt_eq_self (by omega) (by omega) (by omega)

theorem bmod_eq_iff_inI64 (i : ℤ) : i.bmod (2 ^ 64) = i ↔ inI64 i = true := by
  rw [inI64_iff]
  exact bmod_two_pow_eq_iff (by omega) i

/-- Only the smallest integer by -1 has a quotient outside the range. -/
theorem dvd_of_tdiv_overflow {l r : ℤ} (hl : inI64 l = true) (hr : r ≠ 0)
    (h : ¬inI64 (l.tdiv r) = true) : r ∣ l := by
  rw [inI64_iff] at hl h
  by_contra hd
  have hunit : r.natAbs ≠ 1 := by
    intro h1
    exact hd ((Int.isUnit_iff_natAbs_eq.mpr h1).dvd)
  have hhalf : (l.tdiv r).natAbs ≤ l.natAbs / 2 := by
    rw [Int.natAbs_tdiv]
    exact Nat.div_le_div_left (by omega) (by omega)
  omega

/-! ### Operators -/

section Operators

variable {l r : ℤ}

attribute [local simp] evalIntBinop exactBinop

theorem evalBinop_int (kind : IrBinOp) :
    evalBinop kind (int l) (int r) = evalIntBinop kind l r := by
  cases kind <;> rfl

theorem floorDiv_exact_iff (hl : inI64 l = true) :
    ExactOrError (evalIntBinop .floorDiv l r) (exactBinop .floorDiv l r) ↔
      NothingLost .floorDiv l r := by
  simp only [evalIntBinop, exactBinop, NothingLost]
  split_ifs with hr
  · simp [hr, exactOrError_error]
  · rw [exactOrError_checked_iff, ← tdiv_eq_fdiv_iff hr]
    simp only [hr, false_or]
    constructor
    · intro h
      by_cases hq : inI64 (l.tdiv r) = true
      · exact (h hq).symm
      · exact (tdiv_eq_fdiv_iff hr).mpr (.inl (dvd_of_tdiv_overflow hl hr hq))
    · intro h _
      exact h.symm

theorem mod_exact_iff (hl : inI64 l = true) :
    ExactOrError (evalIntBinop .mod l r) (exactBinop .mod l r) ↔ NothingLost .mod l r := by
  simp only [evalIntBinop, exactBinop, NothingLost]
  by_cases hr : r = 0
  · simp [hr, exactOrError_error]
  · simp only [hr, if_false, false_or]
    rw [← tmod_eq_fmod_iff hr]
    split_ifs with hq
    · rw [exactOrError_int_iff, Option.some_inj, eq_comm]
    · simp only [exactOrError_error, true_iff]
      exact (tmod_eq_fmod_iff hr).mpr (.inl (dvd_of_tdiv_overflow hl hr hq))

theorem lShift_exact_iff :
    ExactOrError (evalIntBinop .lShift l r) (exactBinop .lShift l r) ↔ NothingLost .lShift l r := by
  simp only [evalIntBinop, shift, exactBinop, NothingLost]
  by_cases hr : 0 ≤ r ∧ r < 64
  · rw [if_pos hr, if_pos hr.1, exactOrError_int_iff, Option.some_inj, eq_comm,
      bmod_eq_iff_inI64]
    simp [hr]
  · simp [hr, exactOrError_error]

theorem rShift_exact :
    ExactOrError (evalIntBinop .rShift l r) (exactBinop .rShift l r) := by
  simp only [evalIntBinop, shift, exactBinop]
  split_ifs with hr h0
  · rw [exactOrError_int_iff, Int.fdiv_eq_ediv_of_nonneg _ (by positivity)]
  · exact absurd hr.1 h0
  · exact exactOrError_error _ _
  · exact exactOrError_error _ _

theorem pow_exact : ExactOrError (evalIntBinop .pow l r) (exactBinop .pow l r) := by
  simp only [evalIntBinop, exactBinop]
  split_ifs with hr h0
  · exact exactOrError_checked _ _
  · exact absurd hr.1 h0
  · exact exactOrError_error _ _
  · exact exactOrError_error _ _

/-- The bits of two words are the bits of the integers they stand for. -/
theorem bitwise_exact (hl : inI64 l = true) (hr : inI64 r = true) :
    bitwise (· ||| ·) l r = int (l.lor r) ∧ bitwise (· ^^^ ·) l r = int (Int.xor l r) ∧
      bitwise (· &&& ·) l r = int (l.land r) := by
  simp only [bitwise, Library.toInt_or, Library.toInt_xor, Library.toInt_and,
    toInt_ofInt_of_inI64 hl, toInt_ofInt_of_inI64 hr, and_self]

theorem lnot_eq (i : ℤ) : i.lnot = -i - 1 := by
  cases i with
  | ofNat n => simp only [Int.lnot, Int.ofNat_eq_natCast]; omega
  | negSucc n => simp only [Int.lnot]; omega

end Operators

/-- Integer arithmetic is exact or an error, except where the interpreter rounds
towards zero and Python rounds down, and where a left shift drops bits. -/
theorem evalBinop_exact_iff (l r : ℤ) (hl : inI64 l = true) (hr : inI64 r = true) :
    (∀ kind, kind ≠ .div →
      (ExactOrError (evalBinop kind (.int l) (.int r)) (exactBinop kind l r) ↔
        NothingLost kind l r)) ∧
      ∀ kind, ExactOrError (evalUnaryop kind (.int l)) (some (exactUnaryop kind l)) := by
  obtain ⟨hor, hxor, hand⟩ := bitwise_exact hl hr
  constructor
  · intro kind hkind
    rw [evalBinop_int]
    cases kind with
    | add => simp [evalIntBinop, exactBinop, exactOrError_checked]
    | sub => simp [evalIntBinop, exactBinop, exactOrError_checked]
    | mul => simp [evalIntBinop, exactBinop, exactOrError_checked]
    | div => exact absurd rfl hkind
    | floorDiv => exact floorDiv_exact_iff hl
    | mod => exact mod_exact_iff hl
    | pow => simp [pow_exact]
    | bitOr => simp [evalIntBinop, exactBinop, hor, exactOrError_int_iff]
    | bitXor => simp [evalIntBinop, exactBinop, hxor, exactOrError_int_iff]
    | bitAnd => simp [evalIntBinop, exactBinop, hand, exactOrError_int_iff]
    | lShift => exact lShift_exact_iff
    | rShift => simp [rShift_exact]
  · intro kind
    cases kind with
    | neg => exact exactOrError_checked _ _
    | pos => exact (exactOrError_int_iff l _).mpr rfl
    | invert => exact (exactOrError_int_iff _ _).mpr (congrArg some (lnot_eq l))

theorem evalBinop_exact_iff_same_sign :
    ExactOrError (evalBinop .floorDiv (.int (-7)) (.int (-2))) (exactBinop .floorDiv (-7) (-2)) :=
  ((evalBinop_exact_iff (-7) (-2) (by decide) (by decide)).1 .floorDiv (by decide)).mpr
    (.inr (.inr (.inr ⟨by decide, by decide⟩)))

/-- Minus seven halves is minus three here and minus four in Python. -/
theorem floorDiv_rounds_towards_zero :
    ¬ExactOrError (evalBinop .floorDiv (.int (-7)) (.int 2)) (exactBinop .floorDiv (-7) 2) := by
  intro h
  obtain ⟨i, hi, hv⟩ := h (.int (-3)) rfl
  cases hi
  cases hv

end ProgramValue

end Codegg.ToolProgram
