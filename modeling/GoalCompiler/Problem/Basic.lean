import GoalCompiler.Action
import GoalCompiler.Problem.Index
import GoalCompiler.Table

set_option autoImplicit false

/-! # Planning problems

The tables that parsing and grounding fill, and the actions that the search engine will use. Tables
only grow, so an index stays valid for as long as the problem lives. -/

namespace GoalCompiler

/-! ## Ground atoms -/

/-- A predicate with objects for its arguments. Each registered ground atom is a fluent. -/
structure GroundAtom where
  predicate : Index
  arguments : List Index
deriving DecidableEq

namespace GroundAtom

/-- The ground atom of an atom; it does not keep which arguments were variables. -/
def ofApplication (a : Application Index) : GroundAtom := ⟨a.symbol, a.arguments.map Term.symbol⟩

/-- The ground atom of an atomic formula. -/
def ofFormula? : Formula Index → Option GroundAtom
  | .atom a => some (ofApplication a)
  | _ => none

def text (g : GroundAtom) : String :=
  "p" ++ Symbol.text g.predicate ++ "(" ++ ", ".intercalate (g.arguments.map Symbol.text) ++ ")"

end GroundAtom

/-! ## Problems -/

/-- A planning problem. -/
structure Problem where
  constants : Table Name := .empty
  types : Table Name := .empty
  predicates : Table Name := .empty
  /-- The argument types of each predicate, in the order of `predicates`. -/
  signatures : List (List Nat) := []
  functions : Table Name := .empty
  tasks : Table Name := .empty
  /-- The tasks that are actions and not refined by methods. -/
  primitiveTasks : Table Name := .empty
  /-- The position of a ground atom is its fluent. -/
  fluents : Table GroundAtom := .empty
  actions : List Action := []

namespace Problem

def empty : Problem := {}

/-- The table of the symbols of a kind. -/
def symbols (p : Problem) : SymbolKind → Table Name
  | .constant => p.constants
  | .type => p.types
  | .predicate => p.predicates
  | .function => p.functions
  | .task => p.tasks

/-! ## Queries -/

/-- The position of a symbol. -/
def position? (p : Problem) (kind : SymbolKind) (name : Name) : Option Nat :=
  (p.symbols kind).position? name

def isPrimitiveTask (p : Problem) (name : Name) : Bool := p.primitiveTasks.contains name

/-- The fluent of a registered ground atom. -/
def fluent? (p : Problem) (atom : GroundAtom) : Option FluentId := do
  (fluentOf (← p.fluents.position? atom)).toOption

def syntheticActions (p : Problem) : List Action := p.actions.filter (·.isSynthetic)

/-! ## Registration

Registering gives the position of the entry, and a known entry keeps the one it has. -/

def addConstant (p : Problem) (name : Name) : Nat × Problem :=
  let (position, constants) := p.constants.add name
  (position, { p with constants })

def addType (p : Problem) (name : Name) : Nat × Problem :=
  let (position, types) := p.types.add name
  (position, { p with types })

/-- Register a predicate. A known predicate keeps its signature. -/
def addPredicate (p : Problem) (name : Name) (signature : List Nat) : Nat × Problem :=
  let (position, predicates) := p.predicates.add name
  let signatures :=
    if p.predicates.contains name then p.signatures else p.signatures ++ [signature]
  (position, { p with predicates, signatures })

def addFunction (p : Problem) (name : Name) : Nat × Problem :=
  let (position, functions) := p.functions.add name
  (position, { p with functions })

/-- Register a task. Once registered as primitive it stays primitive. -/
def addTask (p : Problem) (name : Name) (primitive : Bool) : Nat × Problem :=
  let (position, tasks) := p.tasks.add name
  let primitiveTasks := if primitive then p.primitiveTasks.insert name else p.primitiveTasks
  (position, { p with tasks, primitiveTasks })

/-- Register a ground atom as a fluent. -/
def addFluent (p : Problem) (atom : GroundAtom) : Except IndexOverflow (FluentId × Problem) :=
  match p.fluent? atom with
  | some known => .ok (known, p)
  | none => do
    let fluent ← fluentOf p.fluents.size
    return (fluent, { p with fluents := p.fluents.insert atom })

def addActions (p : Problem) (actions : List Action) : Problem :=
  { p with actions := p.actions ++ actions }

end Problem

end GoalCompiler
