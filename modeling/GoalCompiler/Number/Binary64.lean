set_option autoImplicit false

/-! # Binary64 numbers

Numbers in formulas are IEEE 754 binary64 values. Nothing in this library computes with them: they
are stored, compared for equality and printed. So a number is its 64-bit pattern, and each question
about it is answered from the three fields of the pattern (sign, exponent field, fraction field),
with no machine arithmetic in between. -/

namespace GoalCompiler

/-- A binary64 number, given by its bit pattern. -/
structure Binary64 where
  bits : UInt64

namespace Binary64

/-- Positive zero. -/
def zero : Binary64 := ⟨0⟩

/-- The leading bit of a significand, `2 ^ 52`, that normal numbers do not store. -/
def hiddenBit : Nat := 1 <<< 52

/-- Whether the sign bit is set (it is for `-0` and for half of the NaNs too). -/
def negative (x : Binary64) : Bool := x.bits.toNat >>> 63 == 1

/-- The biased exponent field, between 0 and 2047. -/
def exponentField (x : Binary64) : Nat := (x.bits.toNat >>> 52) % 2048

/-- The fraction field, below `2 ^ 52`. -/
def fractionField (x : Binary64) : Nat := x.bits.toNat % hiddenBit

def isNaN (x : Binary64) : Bool := x.exponentField == 2047 && x.fractionField != 0

def isInfinite (x : Binary64) : Bool := x.exponentField == 2047 && x.fractionField == 0

/-- Whether the number is one of the two zeros. -/
def isZero (x : Binary64) : Bool := x.exponentField == 0 && x.fractionField == 0

/-- The integer `m` of the magnitude `m * 2 ^ unit` of a finite number. -/
def significand (x : Binary64) : Nat :=
  if x.exponentField = 0 then x.fractionField else hiddenBit + x.fractionField

/-- The power of two that one step of the significand is worth. -/
def unit (x : Binary64) : Int := (max x.exponentField 1 : Nat) - 1075

/-! ## Numeric equality

Equality of numbers is not equality of patterns: a NaN differs from everything, itself included, and
the two zeros are equal. What remains of an equivalence is symmetry and transitivity. -/

/-- Numeric equality. -/
def same (x y : Binary64) : Bool :=
  !x.isNaN && !y.isNaN && (x.bits == y.bits || (x.isZero && y.isZero))

instance : BEq Binary64 := ⟨same⟩

theorem beq_def (x y : Binary64) : (x == y) =
    (!x.isNaN && !y.isNaN && (x.bits == y.bits || (x.isZero && y.isZero))) := rfl

/-- A number equals itself exactly when it is not a NaN. -/
theorem beq_self (x : Binary64) : (x == x) = !x.isNaN := by
  simp [beq_def]

instance : PartialEquivBEq Binary64 where
  symm {x y} h := by
    simp only [beq_def, Bool.and_eq_true, Bool.or_eq_true, beq_iff_eq] at *
    obtain ⟨⟨hx, hy⟩, h⟩ := h
    exact ⟨⟨hy, hx⟩, h.imp Eq.symm And.symm⟩
  trans {x y z} hxy hyz := by
    obtain ⟨x⟩ := x
    obtain ⟨y⟩ := y
    obtain ⟨z⟩ := z
    simp only [beq_def, Bool.and_eq_true, Bool.or_eq_true, beq_iff_eq] at *
    obtain ⟨⟨hx, -⟩, hxy⟩ := hxy
    obtain ⟨⟨-, hz⟩, hyz⟩ := hyz
    refine ⟨⟨hx, hz⟩, ?_⟩
    rcases hxy with rfl | ⟨hx0, hy0⟩
    · exact hyz
    · rcases hyz with rfl | ⟨-, hz0⟩
      · exact .inr ⟨hx0, hy0⟩
      · exact .inr ⟨hx0, hz0⟩

end Binary64

end GoalCompiler
