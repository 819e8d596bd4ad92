import GoalCompiler.Config
import GoalCompiler.Problem.Basic
import GoalCompiler.Resolution.Error
import GoalCompiler.Resolution.Label

set_option autoImplicit false

/-! # Name resolution

Resolution replaces every name of a formula by an index. Predicates, functions, tasks, types and
constants get their position in the tables of the problem. The variables in scope are numbered from
the outermost binder inwards, `-1`, `-2` and so on, and a variable is looked up from the outermost
binder too, so an inner binder of the same name is never seen.

A quantifier over several variables becomes one layer for each of them, so every binder of a resolved
formula binds exactly one index. Each layer counts as one level of depth.

Ordering and method constraints only keep the number of a task occurrence. The condition of a method
constraint is closed: it starts with an empty scope. -/

namespace GoalCompiler

/-! ## Symbols and terms -/

namespace Problem

/-- The index of a symbol. -/
def resolveSymbol (p : Problem) (kind : SymbolKind) (name : Name) : Except ResolutionError Index :=
  match p.position? kind name with
  | none => .error (.unknownSymbol kind name)
  | some position => (indexOf (.symbols kind) position).mapError .overflow

end Problem

/-- The index of the `k`-th binder, counted from one. -/
def binderIndex (k : Nat) : Except ResolutionError Index := do
  return -(← (indexOf .scope k).mapError .overflow)

namespace Term

def resolve (p : Problem) (scope : List Name) : Term Name → Except ResolutionError (Term Index)
  | .variable name =>
    match scope.idxOf? name with
    | none => .error (.unboundVariable name)
    | some position => return .variable (← binderIndex (position + 1))
  | .constant name => return .constant (← p.resolveSymbol .constant name)

end Term

namespace Application

/-- The symbol is resolved first, then the arguments from left to right. -/
def resolve (p : Problem) (kind : SymbolKind) (scope : List Name) (a : Application Name) :
    Except ResolutionError (Application Index) := do
  let symbol ← p.resolveSymbol kind a.symbol
  let arguments ← a.arguments.mapM (·.resolve p scope)
  return { symbol, arguments }

end Application

/-! ## Tasks -/

/-- The number of a task occurrence. -/
def resolveLabel (label : Name) : Except ResolutionError Index :=
  match OccurrenceLabel.number? label with
  | none => .error (.invalidLabel label)
  | some number => .ok number

namespace TaskReference

/-- Whether the task is primitive is read from the problem. -/
def resolve (p : Problem) (scope : List Name) (t : TaskReference Name) :
    Except ResolutionError (TaskReference Index) := do
  let head ← t.head.resolve p .task scope
  let label ← t.label.mapM resolveLabel
  return { head, label, primitive := p.isPrimitiveTask t.head.symbol, time := t.time }

end TaskReference

namespace Formula

/-- The task occurrence that a constraint refers to. Orderings are about time points (`keepTime`);
    method constraints are not. -/
def resolveOccurrence (keepTime : Bool) (constraint : String) :
    Formula Name → Except ResolutionError (Formula Index)
  | task t =>
    match t.label with
    | none => .error (.missingLabel constraint)
    | some label => return occurrence (keepTime && t.time.isSome) (← resolveLabel label)
  | occurrence timed label => return occurrence (keepTime && timed) (← resolveLabel label)
  | _ => .error (.missingLabel constraint)

/-! ## Binders -/

/-- Bind the variables one after the other, each in a layer of its own, around the body that `body`
    resolves in the scope and at the depth below them. -/
def resolveBinders (p : Problem) (config : Config) (q : Quantifier)
    (body : List Name → Nat → Except ResolutionError (Formula Index))
    (vs : List (TypedVariable Name)) (scope : List Name) (depth : Nat) :
    Except ResolutionError (Formula Index) :=
  if config.maxDepth < depth then .error (.tooDeep config.maxDepth)
  else
    match vs with
    | [] => .error .emptyQuantifier
    | v :: vs =>
      match typeLabel? v.types with
      | none => .error (.untypedVariable v.name)
      | some label => do
        let type ← p.resolveSymbol .type label
        let name ← binderIndex (scope.length + 1)
        let inner := scope ++ [v.name]
        let below ←
          if vs.isEmpty then body inner (depth + 1)
          else resolveBinders p config q body vs inner (depth + 1)
        return quantified q [{ name, types := [type] }] below

/-! ## Formulas -/

mutual

/-- Resolve a formula in a scope and at a depth below the root. -/
def resolveAt (p : Problem) (config : Config) (scope : List Name) (depth : Nat)
    (f : Formula Name) : Except ResolutionError (Formula Index) :=
  if config.maxDepth < depth then .error (.tooDeep config.maxDepth)
  else
    match f with
    | atom head => return atom (← head.resolve p .predicate scope)
    | function head => return function (← head.resolve p .function scope)
    | equality arguments => return equality (← arguments.mapM (·.resolve p scope))
    | and fs => return and (← resolveEach p config scope (depth + 1) fs)
    | or fs => return or (← resolveEach p config scope (depth + 1) fs)
    | not g => return not (← g.resolveAt p config scope (depth + 1))
    | imply l r => do
      let l ← l.resolveAt p config scope (depth + 1)
      let r ← r.resolveAt p config scope (depth + 1)
      return imply l r
    | constant value => return constant value
    | quantified q vs g =>
      resolveBinders p config q (fun scope depth => g.resolveAt p config scope depth) vs scope depth
    | compare c l r => do
      let l ← l.resolveAt p config scope (depth + 1)
      let r ← r.resolveAt p config scope (depth + 1)
      return compare c l r
    | binary o l r => do
      let l ← l.resolveAt p config scope (depth + 1)
      let r ← r.resolveAt p config scope (depth + 1)
      return binary o l r
    | unary o g => return unary o (← g.resolveAt p config scope (depth + 1))
    | window o a b c => do
      let a ← a.resolveAt p config scope (depth + 1)
      let b ← b.resolveAt p config scope (depth + 1)
      let c ← c.resolveAt p config scope (depth + 1)
      return window o a b c
    | number x => return number x
    | elapsed => return elapsed
    | violated => return violated
    | task t => return task (← t.resolve p scope)
    | occurrence timed label => .error (.misplaced (occurrence timed label).keyword)
    | ordering precedence l r => do
      let l ← l.resolveOccurrence true f.keyword
      let r ← r.resolveOccurrence true f.keyword
      return ordering precedence l r
    | hold side t c => do
      let t ← t.resolveOccurrence false f.keyword
      let c ← c.resolveAt p config [] (depth + 1)
      return hold side t c
    | holdBetween a b c => do
      let a ← a.resolveOccurrence false f.keyword
      let b ← b.resolveOccurrence false f.keyword
      let c ← c.resolveAt p config [] (depth + 1)
      return holdBetween a b c

/-- Resolve formulas from left to right. -/
def resolveEach (p : Problem) (config : Config) (scope : List Name) (depth : Nat) :
    List (Formula Name) → Except ResolutionError (List (Formula Index))
  | [] => return []
  | f :: fs => do
    let f ← f.resolveAt p config scope depth
    let fs ← resolveEach p config scope depth fs
    return f :: fs

end

/-- The resolved form of a formula whose free variables are bound by `scope`, outermost first. -/
def resolve (p : Problem) (config : Config) (scope : List Name) (f : Formula Name) :
    Except ResolutionError (Formula Index) :=
  f.resolveAt p config scope 0

end Formula

end GoalCompiler
