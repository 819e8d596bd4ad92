import GoalCompiler.Formula.Equality
import GoalCompiler.NormalForm.AndOr

set_option autoImplicit false

/-! # Disjunctive normal form

A formula is normalized in three steps. Negations move down to the leaves: implications disappear, a
negated truth value becomes the other one, and a negated comparison becomes the opposite comparison
where there is one. What is left is an and/or tree of literals (`Formula.nnf`). Its clauses are the
distribution of conjunctions over disjunctions (`AndOr.clauses`). Last, the clauses become a formula
again (`Formula.ofClauses`): repeated literals and repeated clauses go, and a conjunction or
disjunction of a single formula is that formula.

Only the connectives of propositional logic are looked into. Quantified, temporal and task formulas
are literals as they stand. -/

namespace GoalCompiler

namespace Formula

variable {σ : Type}

/-! ## Negations at the leaves -/

/-- The literal that is true exactly when the basic formula `f` is (`negated = false`) or exactly
    when it is not (`negated = true`). -/
def literal (negated : Bool) (f : Formula σ) : Formula σ :=
  if negated then
    match f with
    | constant value => constant !value
    | compare c l r =>
      match c.negated? with
      | some opposite => compare opposite l r
      | none => not (compare c l r)
    | f => not f
  else f

mutual

/-- The and/or tree of literals of a formula, or of its negation. -/
def nnf (negated : Bool) : Formula σ → AndOr (Formula σ)
  | not f => f.nnf !negated
  | and fs => if negated then .any (nnfAll negated fs) else .all (nnfAll negated fs)
  | or fs => if negated then .all (nnfAll negated fs) else .any (nnfAll negated fs)
  | imply l r =>
    if negated then .all [l.nnf false, r.nnf true] else .any [l.nnf true, r.nnf false]
  | f => .leaf (literal negated f)

def nnfAll (negated : Bool) : List (Formula σ) → List (AndOr (Formula σ))
  | [] => []
  | f :: fs => f.nnf negated :: nnfAll negated fs

end

theorem nnfAll_eq_map (negated : Bool) (fs : List (Formula σ)) :
    nnfAll negated fs = fs.map (nnf negated) := by
  induction fs with
  | nil => rfl
  | cons f fs ih => simp [nnfAll, ih]

/-! ## Clauses as a formula -/

variable [DecidableEq σ]

/-- Join the distinct formulas of a list, the first of equal ones kept. A single one stands for
    itself. -/
def joinDistinct (join : List (Formula σ) → Formula σ) (fs : List (Formula σ)) : Formula σ :=
  match fs.eraseDups with
  | [f] => f
  | fs => join fs

/-- The disjunction of conjunctions that the clauses stand for, without repetitions. -/
def ofClauses (clauses : List (List (Formula σ))) : Formula σ :=
  joinDistinct or (clauses.map (joinDistinct and))

/-- The disjunctive normal form, unless it takes more than `limit` clauses to expand. -/
def dnf (limit : Nat) (f : Formula σ) : Except TooManyClauses (Formula σ) := do
  return ofClauses (← (f.nnf false).clauses limit)

end Formula

end GoalCompiler
