import Mathlib.Tactic

/-!
# Doubles as bit patterns

A double is its 64-bit pattern. Comparison is defined on the pattern, so that it
can be reasoned about; arithmetic is the primitive one on the decoded value.
-/
namespace Codegg.Library

structure FloatBits where
  bits : UInt64
  deriving DecidableEq, Repr

namespace FloatBits

/-- The pattern without its sign bit. -/
def magnitude (a : FloatBits) : ℕ := a.bits.toNat % 2 ^ 63

def isNegative (a : FloatBits) : Bool := decide (2 ^ 63 ≤ a.bits.toNat)

/-- Exponent all ones and a non-zero fraction. -/
def isNaN (a : FloatBits) : Bool := decide (0x7ff0000000000000 < a.magnitude)

/-- Neither an infinity nor a NaN. -/
def isFinite (a : FloatBits) : Bool := decide (a.magnitude < 0x7ff0000000000000)

/-- Position on the number line; both zeros are at `0`. -/
def key (a : FloatBits) : ℤ := if a.isNegative then -(a.magnitude : ℤ) else a.magnitude

def zero : FloatBits := ⟨0⟩

/-- Equality of doubles: a NaN differs from everything, the two zeros agree. -/
def eq (a b : FloatBits) : Bool := !a.isNaN && !b.isNaN && decide (a.key = b.key)

/-- The order of doubles, undefined on NaNs. -/
def partialCmp (a b : FloatBits) : Option Ordering :=
  if a.isNaN || b.isNaN then none else some (compare a.key b.key)

def ofFloat (f : Float) : FloatBits := ⟨f.toBits⟩

def toFloat (a : FloatBits) : Float := Float.ofBits a.bits

def add (a b : FloatBits) : FloatBits := ofFloat (a.toFloat + b.toFloat)

def div (a b : FloatBits) : FloatBits := ofFloat (a.toFloat / b.toFloat)

/-- Negation flips the sign bit. -/
def neg (a : FloatBits) : FloatBits := ⟨a.bits ^^^ 0x8000000000000000⟩

/-- Conversion of a 64-bit integer, rounding to nearest. -/
def ofInt (i : ℤ) : FloatBits := ofFloat (Int64.ofInt i).toFloat

/-- Truncating conversion; it saturates, and a NaN becomes `0`. -/
def toInt (a : FloatBits) : ℤ := a.toFloat.toInt64.toInt

theorem isNaN_eq_false_of_isFinite {a : FloatBits} (h : a.isFinite = true) : a.isNaN = false := by
  simp only [isFinite, isNaN, decide_eq_true_eq, decide_eq_false_iff_not] at *
  omega

theorem eq_self {a : FloatBits} (h : a.isNaN = false) : a.eq a = true := by
  simp [eq, h]

end FloatBits

end Codegg.Library
