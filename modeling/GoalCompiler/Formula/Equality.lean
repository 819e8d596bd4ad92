import GoalCompiler.Formula.Basic

set_option autoImplicit false

/-! # Equality of formulas

Two formulas are the same when they have the same shape, the same symbols and equal numbers. Because
numbers are compared as numbers (`Binary64`), a formula with a NaN in it is not the same as itself,
and formulas that differ in the sign of a zero are the same. -/

namespace GoalCompiler

namespace Formula

variable {σ : Type} [DecidableEq σ]

mutual

/-- Whether two formulas are the same up to numeric equality. -/
def same : Formula σ → Formula σ → Bool
  | atom a, atom b => a == b
  | function a, function b => a == b
  | equality as, equality bs => as == bs
  | and fs, and gs => sameAll fs gs
  | or fs, or gs => sameAll fs gs
  | not f, not g => f.same g
  | imply l r, imply l' r' => l.same l' && r.same r'
  | constant a, constant b => a == b
  | quantified q vs f, quantified q' vs' g => q == q' && vs == vs' && f.same g
  | compare c l r, compare c' l' r' => c == c' && l.same l' && r.same r'
  | binary o l r, binary o' l' r' => o == o' && l.same l' && r.same r'
  | unary o f, unary o' g => o == o' && f.same g
  | window o x y z, window o' x' y' z' => o == o' && x.same x' && y.same y' && z.same z'
  | number x, number y => x == y
  | elapsed, elapsed => true
  | violated, violated => true
  | task t, task t' => t == t'
  | occurrence b l, occurrence b' l' => b == b' && l == l'
  | ordering p l r, ordering p' l' r' => p == p' && l.same l' && r.same r'
  | hold s t c, hold s' t' c' => s == s' && t.same t' && c.same c'
  | holdBetween x y c, holdBetween x' y' c' => x.same x' && y.same y' && c.same c'
  | _, _ => false

/-- Whether two lists of formulas are the same, element by element. -/
def sameAll : List (Formula σ) → List (Formula σ) → Bool
  | [], [] => true
  | f :: fs, g :: gs => f.same g && sameAll fs gs
  | _, _ => false

end

instance : BEq (Formula σ) := ⟨same⟩

end Formula

end GoalCompiler
