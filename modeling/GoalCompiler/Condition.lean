import GoalCompiler.FluentSet
import GoalCompiler.Formula.Equality
import GoalCompiler.Formula.Printer

set_option autoImplicit false

/-! # Conditions

A condition is a conjunction in the form a search engine wants: the fluents that must hold, the
fluents that must not hold, and the numeric constraints that were kept, in order. A goal is a
condition in the role of the planning objective. -/

namespace GoalCompiler

/-! ## Numeric constraints -/

/-- A comparison kept on a condition. -/
structure NumericConstraint where
  comparison : Comparison
  left : Formula Index
  right : Formula Index

namespace NumericConstraint

def text (c : NumericConstraint) : String :=
  parenthesized c.comparison.keyword [c.left.text, c.right.text]

/-- Equality of constraints compares numbers as numbers, so a constraint on a NaN is not equal to
    itself. -/
instance : BEq NumericConstraint :=
  ⟨fun c d => c.comparison == d.comparison && c.left == d.left && c.right == d.right⟩

end NumericConstraint

/-! ## Conditions -/

/-- A conjunction of required fluents, forbidden fluents and numeric constraints. -/
structure Condition where
  positive : FluentSet := .empty
  negative : FluentSet := .empty
  numeric : List NumericConstraint := []

namespace Condition

instance : BEq Condition :=
  ⟨fun c d => c.positive == d.positive && c.negative == d.negative && c.numeric == d.numeric⟩

/-- The condition that always holds. -/
def empty : Condition := {}

/-- The condition that requires one fluent. -/
def single (x : FluentId) : Condition := { positive := .singleton x }

/-- Require one fluent more: whether this is new, and the condition. -/
def addPositive (c : Condition) (x : FluentId) : Bool × Condition :=
  let (fresh, positive) := c.positive.add x
  (fresh, { c with positive })

/-- Forbid one fluent more: whether this is new, and the condition. -/
def addNegative (c : Condition) (x : FluentId) : Bool × Condition :=
  let (fresh, negative) := c.negative.add x
  (fresh, { c with negative })

/-- Constrain numbers further. -/
def constrain (c : Condition) (constraint : NumericConstraint) : Condition :=
  { c with numeric := c.numeric ++ [constraint] }

/-- The conjunction of two conditions. -/
def conjoin (c d : Condition) : Condition where
  positive := c.positive.union d.positive
  negative := c.negative.union d.negative
  numeric := c.numeric ++ d.numeric

def isEmpty (c : Condition) : Bool :=
  c.positive.isEmpty && c.negative.isEmpty && c.numeric.isEmpty

/-- Whether no fluent is both required and forbidden. -/
def isConsistent (c : Condition) : Bool := c.positive.isDisjoint c.negative

def text (c : Condition) : String :=
  "pos: " ++ c.positive.text ++ ", neg: " ++ c.negative.text ++
    String.join (c.numeric.map (", " ++ ·.text))

end Condition

/-! ## Goals -/

/-- The planning objective. -/
structure Goal where
  condition : Condition

def Goal.text (g : Goal) : String := "goal " ++ braced (" " ++ g.condition.text ++ " ")

end GoalCompiler
