set_option autoImplicit false

/-! # And/or trees and their clauses

A tree of conjunctions and disjunctions of any width over leaves of type `α`, and its expansion into
clauses. A clause is a list of leaves read as their conjunction, and a list of clauses is read as
their disjunction.

The expansion is exponential in the worst case, so it works under a limit on the number of clauses
and gives up as soon as one step would pass it. -/

namespace GoalCompiler

/-- A tree of conjunctions and disjunctions over leaves `α`. -/
inductive AndOr (α : Type)
  | leaf (a : α)
  | all (children : List (AndOr α))
  | any (children : List (AndOr α))

/-- The expansion has more clauses than allowed. -/
structure TooManyClauses where
  limit : Nat
deriving DecidableEq

def TooManyClauses.message (e : TooManyClauses) : String :=
  "DNF expansion exceeds the limit of " ++ e.limit.repr ++ " clauses"

namespace AndOr

variable {α : Type}

/-- The clauses that conjoin one of the left with one of the right, in lexicographic order. -/
def product (left right : List (List α)) : List (List α) :=
  left.flatMap fun l => right.map (l ++ ·)

mutual

/-- The clauses of a tree, at most `limit` of them. The tree without leaves `all []` is one empty
    clause under every limit. -/
def clauses (limit : Nat) : AndOr α → Except TooManyClauses (List (List α))
  | leaf a => if limit = 0 then .error ⟨limit⟩ else .ok [[a]]
  | all ts => clausesAll limit [[]] ts
  | any ts => clausesAny limit [] ts

/-- The clauses of the conjunction of `acc` with the given trees. -/
def clausesAll (limit : Nat) (acc : List (List α)) :
    List (AndOr α) → Except TooManyClauses (List (List α))
  | [] => .ok acc
  | t :: ts => do
    let right ← t.clauses limit
    if limit < acc.length * right.length then .error ⟨limit⟩
    else clausesAll limit (product acc right) ts

/-- The clauses of the disjunction of `acc` with the given trees. -/
def clausesAny (limit : Nat) (acc : List (List α)) :
    List (AndOr α) → Except TooManyClauses (List (List α))
  | [] => .ok acc
  | t :: ts => do
    let acc := acc ++ (← t.clauses limit)
    if limit < acc.length then .error ⟨limit⟩
    else clausesAny limit acc ts

end

end AndOr

end GoalCompiler
