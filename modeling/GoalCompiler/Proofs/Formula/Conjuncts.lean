import GoalCompiler.Formula.Induction

set_option autoImplicit false

/-! # Nested conjunctions

Conjunctions at the top of a formula, one in the other, form a tree whose leaves are the formulas
that are no conjunctions. `Formula.flatConjuncts` is the list of the leaves, and
`Formula.conjunctionNodes` lists the whole tree in the order of the text, with the number of
conjunctions above each node. What is below a leaf does not belong to the tree. -/

namespace GoalCompiler

namespace Formula

variable {σ : Type}

def isConjunction : Formula σ → Bool
  | and _ => true
  | _ => false

mutual

/-- The formulas that a formula is the conjunction of when the conjunctions among them are taken
    apart too, from left to right. -/
def flatConjuncts : Formula σ → List (Formula σ)
  | and fs => flatConjunctsOf fs
  | f => [f]

def flatConjunctsOf : List (Formula σ) → List (Formula σ)
  | [] => []
  | f :: fs => f.flatConjuncts ++ flatConjunctsOf fs

end

mutual

/-- The nested conjunctions and their leaves in the order of the text, each with the number of
    conjunctions above it, of which `depth` are above the formula. -/
def conjunctionNodes (depth : Nat) : Formula σ → List (Nat × Formula σ)
  | and fs => (depth, and fs) :: conjunctionNodesOf (depth + 1) fs
  | f => [(depth, f)]

def conjunctionNodesOf (depth : Nat) : List (Formula σ) → List (Nat × Formula σ)
  | [] => []
  | f :: fs => f.conjunctionNodes depth ++ conjunctionNodesOf depth fs

end

theorem not_conjunction_of_isLiteral {f : Formula σ} (h : f.isLiteral = true) :
    f.isConjunction = false := by
  cases f with
  | and fs => exact absurd h (by simp [isLiteral, isBasic])
  | _ => rfl

theorem flatConjuncts_of_not_conjunction {f : Formula σ} (h : f.isConjunction = false) :
    f.flatConjuncts = [f] := by
  cases f with
  | and fs => exact absurd h (by simp [isConjunction])
  | _ => rfl

theorem conjunctionNodes_of_not_conjunction {f : Formula σ} (h : f.isConjunction = false)
    (depth : Nat) : f.conjunctionNodes depth = [(depth, f)] := by
  cases f with
  | and fs => exact absurd h (by simp [isConjunction])
  | _ => rfl

/-- The leaves are the nodes that are no conjunctions. -/
theorem flatConjuncts_eq_filter (depth : Nat) (f : Formula σ) :
    f.flatConjuncts = ((f.conjunctionNodes depth).map (·.2)).filter (!·.isConjunction) := by
  induction f using induction_children generalizing depth with
  | step f ih =>
    cases f with
    | and fs =>
      have hmembers : flatConjunctsOf fs =
          ((conjunctionNodesOf (depth + 1) fs).map (·.2)).filter (!·.isConjunction) := by
        replace ih : ∀ f ∈ fs, _ := ih
        induction fs with
        | nil => rfl
        | cons f fs ihs =>
          rw [flatConjunctsOf, conjunctionNodesOf, List.map_append, List.filter_append,
            ih f (by simp) (depth + 1), ihs fun f hf => ih f (by simp [hf])]
      rw [flatConjuncts, conjunctionNodes, List.map_cons, hmembers]
      rfl
    | _ => rfl

theorem mem_flatConjunctsOf {fs : List (Formula σ)} {g : Formula σ} :
    g ∈ flatConjunctsOf fs ↔ ∃ f ∈ fs, g ∈ f.flatConjuncts := by
  induction fs with
  | nil => simp [flatConjunctsOf]
  | cons f fs ih => simp [flatConjunctsOf, ih]

/-! ## Lists of leaves -/

theorem flatConjunctsOf_of_leaves {fs : List (Formula σ)} (h : ∀ f ∈ fs, f.isConjunction = false) :
    flatConjunctsOf fs = fs := by
  induction fs with
  | nil => rfl
  | cons f fs ih =>
    rw [flatConjunctsOf, flatConjuncts_of_not_conjunction (h f (by simp)),
      ih fun f hf => h f (by simp [hf])]
    rfl

theorem conjunctionNodesOf_of_leaves {fs : List (Formula σ)}
    (h : ∀ f ∈ fs, f.isConjunction = false) (depth : Nat) :
    conjunctionNodesOf depth fs = fs.map fun f => (depth, f) := by
  induction fs with
  | nil => rfl
  | cons f fs ih =>
    rw [conjunctionNodesOf, conjunctionNodes_of_not_conjunction (h f (by simp)),
      ih fun f hf => h f (by simp [hf])]
    rfl

end Formula

end GoalCompiler
