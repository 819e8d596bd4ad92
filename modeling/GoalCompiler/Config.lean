set_option autoImplicit false

/-! # Configuration -/

namespace GoalCompiler

/-- What becomes of numeric comparisons in conditions. -/
inductive NumericPolicy
  /-- They are left out. -/
  | drop
  /-- They are kept as numeric constraints. -/
  | capture
deriving DecidableEq

/-- A text that names no policy. -/
structure UnknownPolicy where
  text : String
deriving DecidableEq

def UnknownPolicy.message (e : UnknownPolicy) : String :=
  "Unsupported numeric goal policy '" ++ e.text ++ "'; expected 'drop' or 'capture'"

namespace NumericPolicy

def text : NumericPolicy → String
  | drop => "drop"
  | capture => "capture"

/-- Read a policy. Each has a second name. -/
def ofText (text : String) : Except UnknownPolicy NumericPolicy :=
  if text = "drop" ∨ text = "ignore" then .ok drop
  else if text = "capture" ∨ text = "keep" then .ok capture
  else .error ⟨text⟩

theorem ofText_text (p : NumericPolicy) : ofText p.text = .ok p := by
  cases p <;> simp [ofText, text]

end NumericPolicy

/-- Limits and names that goal compilation works with. -/
structure Config where
  /-- The greatest depth of a node in formulas. -/
  maxDepth : Nat := 256
  /-- The greatest number of clauses of an expansion. -/
  maxClauses : Nat := 4096
  numericGoals : NumericPolicy := .drop
  /-- The name of the predicate that stands for a disjunctive goal. -/
  goalName : String := "dummy-goal"
  /-- The name of the actions that reach it. -/
  actionName : String := "dummy-operator"
deriving DecidableEq

namespace Config

def default : Config := {}

def isDefault (c : Config) : Bool := c == default

end Config

end GoalCompiler
