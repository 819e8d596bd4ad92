import GoalCompiler.Condition

set_option autoImplicit false

/-! # Ground actions -/

namespace GoalCompiler

/-- The fluents that become true and the fluents that become false. -/
structure Effect where
  positive : FluentSet := .empty
  negative : FluentSet := .empty
deriving DecidableEq

/-- The effect that makes one fluent true. -/
def Effect.adding (x : FluentId) : Effect := { positive := .singleton x }

/-- An effect that takes place if its condition holds. -/
structure ConditionalEffect where
  condition : Condition := .empty
  effect : Effect := {}

namespace ConditionalEffect

/-- The effect under the condition that always holds. -/
def unconditional (effect : Effect) : ConditionalEffect := { effect }

def isUnconditional (e : ConditionalEffect) : Bool := e.condition.isEmpty

end ConditionalEffect

/-- A ground action. -/
structure Action where
  name : Name
  /-- The types of the parameters, by their position in the table of types. -/
  parameters : List Nat := []
  cost : Binary64 := .zero
  precondition : Condition := .empty
  effects : List ConditionalEffect := []
  /-- Whether the action was introduced on the way and not written by anybody. Plans hide it. -/
  isSynthetic : Bool := false

namespace Action

/-- An introduced action: no parameters, no cost, one effect. -/
def synthetic (name : Name) (precondition : Condition) (effect : ConditionalEffect) : Action :=
  { name, precondition, effects := [effect], isSynthetic := true }

def arity (a : Action) : Nat := a.parameters.length

end Action

end GoalCompiler
