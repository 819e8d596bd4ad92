import GoalCompiler.Formula.Depth
import GoalCompiler.Goal.Error
import GoalCompiler.NormalForm.Disjunctive
import GoalCompiler.Resolution.Basic

set_option autoImplicit false

/-! # Goal compilation

A search engine wants one conjunctive goal. A goal whose normal form has a single clause is the
condition of that clause. For a goal with several clauses a new fluent is made up that stands for the
whole disjunction: for each clause there is an action that costs nothing, requires the clause and adds
the fluent, and the goal is the fluent alone.

Compilation extends the problem only in that last step, and only after everything that can fail. A
failure carries the problem as it then is, so that it can be said that it is the problem as it was. -/

namespace GoalCompiler

/-- A computation that may extend a problem and may fail. -/
abbrev GoalM := EStateM GoalError Problem

/-! ## Fresh names -/

/-- The `k`-th variant of a name: the name itself, then `name-1`, `name-2` and so on. -/
def nameVariant (base : Name) : Nat → Name
  | 0 => base
  | k + 1 => base ++ "-" ++ (k + 1).repr

namespace Table

/-- The first variant of a name that is not in the table. Among the first `size + 1` variants, which
    are distinct, there is one. -/
def freshName (t : Table Name) (base : Name) : Name :=
  let variants := (List.range (t.size + 1)).map (nameVariant base)
  (variants.find? fun name => !t.contains name).getD base

end Table

/-! ## Goals of clauses -/

namespace Formula

variable {σ : Type}

/-- The formulas that a formula is the disjunction of. -/
def disjuncts : Formula σ → List (Formula σ)
  | or fs => fs
  | f => [f]

/-- A formula as a conjunction, of itself alone if it is none. -/
def toConjunction : Formula σ → Formula σ
  | and fs => and fs
  | f => and [f]

end Formula

namespace Goal

/-- The conditions of the disjuncts of a formula in normal form. -/
def alternatives (p : Problem) (config : Config) (f : Formula Index) :
    Except ConditionError (List Condition) :=
  f.disjuncts.mapM fun clause => Condition.ofFormula p config clause.toConjunction

/-- Make up a fluent for the disjunction of the alternatives and the actions that reach it. Both
    index spaces are checked before the first table is touched. -/
def ofAlternatives (config : Config) (alternatives : List Condition) : GoalM Goal := do
  let p ← get
  let predicate ← ofExcept ((indexOf (.symbols .predicate) p.predicates.size).mapError .overflow)
  let _ ← ofExcept ((fluentOf p.fluents.size).mapError .overflow)
  let (_, p) := p.addPredicate (p.predicates.freshName config.goalName) []
  set p
  let (fluent, p) ← ofExcept ((p.addFluent ⟨predicate, []⟩).mapError .overflow)
  let effect := ConditionalEffect.unconditional (.adding fluent)
  set (p.addActions (alternatives.map (Action.synthetic config.actionName · effect)))
  return ⟨.single fluent⟩

/-- Compile a resolved goal. -/
def ofFormula (config : Config) (f : Formula Index) : GoalM Goal := do
  if f.exceedsDepth config.maxDepth then
    throw (.tooDeep config.maxDepth)
  else
    let normal ← ofExcept ((f.dnf config.maxClauses).mapError .normalForm)
    match ← ofExcept ((alternatives (← get) config normal).mapError .condition) with
    | [] => throw .unsatisfiable
    | [condition] => return ⟨condition⟩
    | conditions => ofAlternatives config conditions

/-- Compile a goal as written. -/
def compile (config : Config) (f : Formula Name) : GoalM Goal := do
  ofFormula config (← ofExcept ((f.resolve (← get) config []).mapError .resolution))

end Goal

end GoalCompiler
