import GoalCompiler.FluentSet
import GoalCompiler.Formula.Basic

set_option autoImplicit false

/-! # Index spaces

Symbols and binders are numbered by signed 32-bit indices and fluents by unsigned 32-bit ones. A
position that does not fit overflows its index space. -/

namespace GoalCompiler

/-- The kinds of symbols, one table for each. -/
inductive SymbolKind
  | constant
  | type
  | predicate
  | function
  | task
deriving DecidableEq

def SymbolKind.name : SymbolKind → String
  | .constant => "constant"
  | .type => "type"
  | .predicate => "predicate"
  | .function => "function"
  | .task => "task"

instance : Keyworded SymbolKind where
  all := [.constant, .type, .predicate, .function, .task]
  keyword := SymbolKind.name
  find?_keyword kind := by cases kind <;> decide

/-- What is numbered. -/
inductive IndexSpace
  | symbols (kind : SymbolKind)
  | scope
  | fluents
deriving DecidableEq

def IndexSpace.name : IndexSpace → String
  | .symbols kind => kind.name
  | .scope => "scope"
  | .fluents => "fluent"

instance : Keyworded IndexSpace where
  all := Keyworded.all.map .symbols ++ [.scope, .fluents]
  keyword := IndexSpace.name
  find?_keyword
    | .symbols kind => by cases kind <;> decide
    | .scope => by decide
    | .fluents => by decide

/-- A position has no index. -/
structure IndexOverflow where
  space : IndexSpace
deriving DecidableEq

def IndexOverflow.message (e : IndexOverflow) : String :=
  e.space.name ++ " table exceeds the 32-bit index space"

/-- The index of a position. -/
def indexOf (space : IndexSpace) (position : Nat) : Except IndexOverflow Index :=
  if position < indexLimit then .ok position else .error ⟨space⟩

/-- The fluent at a position. -/
def fluentOf (position : Nat) : Except IndexOverflow FluentId :=
  if position < fluentLimit then .ok position else .error ⟨.fluents⟩

end GoalCompiler
