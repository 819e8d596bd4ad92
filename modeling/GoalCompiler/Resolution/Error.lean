import GoalCompiler.Diagnostic
import GoalCompiler.Problem.Index

set_option autoImplicit false

/-! # Errors of name resolution -/

namespace GoalCompiler

/-- Why a formula has no resolved form. -/
inductive ResolutionError
  | unboundVariable (name : Name)
  | unknownSymbol (kind : SymbolKind) (name : Name)
  /-- A quantifier without variables. -/
  | emptyQuantifier
  | untypedVariable (name : Name)
  /-- A constraint refers to a task without a label; `constraint` is its keyword. -/
  | missingLabel (constraint : String)
  | invalidLabel (label : Name)
  /-- A bare task occurrence outside of constraints. -/
  | misplaced (keyword : String)
  | tooDeep (limit : Nat)
  | overflow (cause : IndexOverflow)
deriving DecidableEq

namespace ResolutionError

def message : ResolutionError → String
  | unboundVariable name => "Unbound variable '?" ++ name ++ "'"
  | unknownSymbol kind name => "Unknown " ++ kind.name ++ " '" ++ name ++ "'"
  | emptyQuantifier => "Quantifier declares no variables"
  | untypedVariable name => "Quantified variable '?" ++ name ++ "' has no declared type"
  | missingLabel constraint => "Task in '" ++ constraint ++ "' constraint has no occurrence label"
  | invalidLabel label => "Invalid task occurrence label '" ++ label ++ "'"
  | misplaced keyword => "'" ++ keyword ++ "' cannot appear in a source formula"
  | tooDeep limit => "Formula nesting exceeds the depth limit of " ++ limit.repr
  | overflow cause => cause.message

def code : ResolutionError → String
  | unboundVariable _ => "pddlc::lower::unbound_variable"
  | unknownSymbol _ _ => "pddlc::lower::unknown_symbol"
  | emptyQuantifier => "pddlc::lower::empty_quantifier"
  | untypedVariable _ => "pddlc::lower::untyped_variable"
  | missingLabel _ => "pddlc::lower::missing_task_label"
  | invalidLabel _ => "pddlc::lower::invalid_task_label"
  | misplaced _ => "pddlc::lower::unsupported_connector"
  | tooDeep _ => "pddlc::lower::depth_exceeded"
  | overflow _ => "pddlc::lower::index_overflow"

def help? : ResolutionError → Option String
  | unboundVariable _ => some "variables must be bound by an enclosing forall or exists"
  | missingLabel _ =>
    some "ordering and method constraints refer to labeled task occurrences such as 't1'"
  | invalidLabel _ =>
    some "labels are one marker character followed by a decimal number, e.g. 't3'"
  | _ => none

def diagnostic (e : ResolutionError) : Diagnostic := ⟨e.message, e.code, e.help?⟩

end ResolutionError

end GoalCompiler
