set_option autoImplicit false

/-! # Diagnostics -/

namespace GoalCompiler

/-- How an error is reported: what happened, a stable code, and advice where there is some. -/
structure Diagnostic where
  message : String
  code : String
  help : Option String := none
deriving DecidableEq

end GoalCompiler
