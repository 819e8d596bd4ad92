import GoalCompiler.Condition
import GoalCompiler.Config
import GoalCompiler.Diagnostic
import GoalCompiler.Problem.Basic

set_option autoImplicit false

/-! # Conditions of conjunctions

A resolved formula that is a conjunction of literals, nested as it may be, has a condition: its atoms
are required, its negated atoms are forbidden, the truth value true adds nothing, and comparisons are
kept or left out as the configuration says. Everything else is refused, and the first offending node
in the order of the text is the one reported. -/

namespace GoalCompiler

/-! ## Errors -/

/-- Why a formula has no condition. -/
inductive ConditionError
  /-- A node that no conjunction of literals has, by its keyword. -/
  | unexpected (keyword : String)
  /-- An atom that is not a fluent of the problem. -/
  | unregistered (atom : GroundAtom)
  | tooDeep (limit : Nat)
deriving DecidableEq

namespace ConditionError

def message : ConditionError → String
  | unexpected keyword => "Unexpected '" ++ keyword ++ "' in a conjunctive condition"
  | unregistered atom => "Atom " ++ atom.text ++ " has no fluent index"
  | tooDeep limit => "Condition nesting exceeds the depth limit of " ++ limit.repr

def code : ConditionError → String
  | unexpected _ => "pddlc::finalize::unexpected_expression"
  | unregistered _ => "pddlc::finalize::missing_fluent_index"
  | tooDeep _ => "pddlc::finalize::depth_exceeded"

def help? : ConditionError → Option String
  | unexpected _ =>
    some "conditions must be conjunctions of atoms, negated atoms and numeric comparisons"
  | unregistered _ =>
    some "the atom was not produced by grounding; check that the goal is ground"
  | tooDeep _ => none

def diagnostic (e : ConditionError) : Diagnostic := ⟨e.message, e.code, e.help?⟩

end ConditionError

/-! ## Literals -/

namespace Problem

/-- The fluent of an atom. -/
def requireFluent (p : Problem) (a : Application Index) : Except ConditionError FluentId :=
  match p.fluent? (.ofApplication a) with
  | none => .error (.unregistered (.ofApplication a))
  | some x => .ok x

end Problem

namespace NumericPolicy

/-- The condition of a comparison. -/
def condition (policy : NumericPolicy) (constraint : NumericConstraint) : Condition :=
  match policy with
  | drop => .empty
  | capture => { numeric := [constraint] }

end NumericPolicy

/-! ## Conjunctions -/

namespace Condition

mutual

/-- The condition of a node at a depth below the root. -/
def ofFormulaAt (p : Problem) (config : Config) (depth : Nat) (f : Formula Index) :
    Except ConditionError Condition :=
  if config.maxDepth < depth then .error (.tooDeep config.maxDepth)
  else
    match f with
    | .atom a => return { positive := .singleton (← p.requireFluent a) }
    | .not (.atom a) => return { negative := .singleton (← p.requireFluent a) }
    | .and fs => ofConjuncts p config (depth + 1) fs
    | .compare comparison left right =>
      return config.numericGoals.condition { comparison, left, right }
    | .constant true => return empty
    | f => .error (.unexpected f.keyword)

/-- The condition of the conjunction of formulas at a depth below the root. -/
def ofConjuncts (p : Problem) (config : Config) (depth : Nat) :
    List (Formula Index) → Except ConditionError Condition
  | [] => return empty
  | f :: fs => do
    let first ← ofFormulaAt p config depth f
    let rest ← ofConjuncts p config depth fs
    return first.conjoin rest

end

/-- The condition of a conjunction of literals. -/
def ofFormula (p : Problem) (config : Config) (f : Formula Index) :
    Except ConditionError Condition :=
  ofFormulaAt p config 0 f

end Condition

end GoalCompiler
