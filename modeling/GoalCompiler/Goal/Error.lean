import GoalCompiler.Condition.Conjunction
import GoalCompiler.NormalForm.AndOr
import GoalCompiler.Resolution.Error

set_option autoImplicit false

/-! # Errors of goal compilation -/

namespace GoalCompiler

/-- Why a goal cannot be compiled. -/
inductive GoalError
  | resolution (cause : ResolutionError)
  | normalForm (cause : TooManyClauses)
  | condition (cause : ConditionError)
  | overflow (cause : IndexOverflow)
  | tooDeep (limit : Nat)
  /-- The goal is the disjunction of nothing. -/
  | unsatisfiable
deriving DecidableEq

namespace GoalError

/-- The errors of resolution and of conditions are reported as they are. -/
def diagnostic : GoalError → Diagnostic
  | resolution cause => cause.diagnostic
  | normalForm cause =>
    { message := cause.message
      code := "pddlc::goal::normal_form"
      help := some "raise max_dnf_clauses or restate the goal with fewer nested disjunctions" }
  | condition cause => cause.diagnostic
  | overflow cause => { message := cause.message, code := "pddlc::goal::index_overflow" }
  | tooDeep limit =>
    { message := "Goal nesting exceeds the depth limit of " ++ limit.repr
      code := "pddlc::goal::depth_exceeded" }
  | unsatisfiable =>
    { message := "Goal normalizes to an empty disjunction"
      code := "pddlc::goal::empty_disjunction"
      help := some "an empty (or) can never be satisfied" }

end GoalError

end GoalCompiler
