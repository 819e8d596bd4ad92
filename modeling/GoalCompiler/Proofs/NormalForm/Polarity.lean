import GoalCompiler.Proofs.NormalForm.Count
import GoalCompiler.Proofs.NormalForm.Meaning

set_option autoImplicit false

/-! # Polarity

Whether a node of a formula counts as negated depends on the connectives above it: a negation turns
the polarity round, and so does the left side of an implication. `Formula.signedNodes` lists the
nodes with their polarities. With that, three things about the and/or tree of a formula can be read
off the formula as it was written, without the tree:

- its leaves are the literals of the basic nodes (`Formula.leaves_nnf`);
- it has no empty disjunction if no node is one under its polarity (`Formula.isProper_nnf`);
- the number of its clauses is `Formula.clauseCount` (`Formula.count_nnf`).

So the limit of the normal form is a limit on `Formula.clauseCount` (`Formula.dnf_eq_ite`). -/

namespace GoalCompiler

namespace Formula

variable {σ : Type}

/-! ## Signed nodes -/

mutual

/-- The nodes that the propositional connectives lead to, each with whether it is negated. -/
def signedNodes (negated : Bool) : Formula σ → List (Bool × Formula σ)
  | and fs => (negated, and fs) :: signedNodesOf negated fs
  | or fs => (negated, or fs) :: signedNodesOf negated fs
  | not f => (negated, not f) :: f.signedNodes !negated
  | imply l r => (negated, imply l r) :: (l.signedNodes (!negated) ++ r.signedNodes negated)
  | f => [(negated, f)]

def signedNodesOf (negated : Bool) : List (Formula σ) → List (Bool × Formula σ)
  | [] => []
  | f :: fs => f.signedNodes negated ++ signedNodesOf negated fs

end

/-- Whether a node is a disjunction of nothing, or a negated conjunction of nothing. -/
def isEmptyDisjunction : Bool → Formula σ → Bool
  | false, or [] => true
  | true, and [] => true
  | _, _ => false

theorem leavesOf_nnfAll {negated : Bool} (fs : List (Formula σ))
    (ih : ∀ f ∈ fs, (f.nnf negated).leaves =
      ((f.signedNodes negated).filter (·.2.isBasic)).map fun n => literal n.1 n.2) :
    AndOr.leavesOf (nnfAll negated fs) =
      ((signedNodesOf negated fs).filter (·.2.isBasic)).map fun n => literal n.1 n.2 := by
  induction fs with
  | nil => rfl
  | cons f fs ihs =>
    rw [nnfAll, AndOr.leavesOf, signedNodesOf, List.filter_append, List.map_append,
      ih f (by simp), ihs fun f hf => ih f (by simp [hf])]

/-- **The leaves of the and/or tree are the literals of the basic nodes, in order.** -/
theorem leaves_nnf (negated : Bool) (f : Formula σ) :
    (f.nnf negated).leaves =
      ((f.signedNodes negated).filter (·.2.isBasic)).map fun n => literal n.1 n.2 := by
  induction f using induction_children generalizing negated with
  | step f ih =>
    cases f with
    | not f =>
      rw [nnf, signedNodes, List.filter_cons_of_neg (by simp [isBasic])]
      exact ih f (by simp [children]) !negated
    | and fs =>
      have hleaves := leavesOf_nnfAll fs fun f hf => ih f hf negated
      rw [signedNodes, List.filter_cons_of_neg (by simp [isBasic]), ← hleaves]
      cases negated <;> rfl
    | or fs =>
      have hleaves := leavesOf_nnfAll fs fun f hf => ih f hf negated
      rw [signedNodes, List.filter_cons_of_neg (by simp [isBasic]), ← hleaves]
      cases negated <;> rfl
    | imply l r =>
      have hl := ih l (by simp [children]) !negated
      have hr := ih r (by simp [children]) negated
      rw [signedNodes, List.filter_cons_of_neg (by simp [isBasic]), List.filter_append,
        List.map_append, ← hl, ← hr]
      cases negated <;> simp [nnf, AndOr.leaves, AndOr.leavesOf]
    | _ => rfl

section

variable {f : Formula σ} {a : Application σ}

/-- An atom is the literal of itself only. -/
theorem eq_of_literal_eq_atom {negated : Bool} {g : Formula σ} (h : literal negated g = atom a) :
    negated = false ∧ g = atom a := by
  cases negated with
  | false => exact ⟨rfl, h⟩
  | true =>
    unfold literal at h
    rw [if_pos rfl] at h
    split at h
    · exact absurd h (by simp)
    · split at h
      · exact absurd h (by simp)
      · exact absurd h (by simp)
    · exact absurd h (by simp)

/-- The negation of an atom is the literal of the negated atom only. -/
theorem eq_of_literal_eq_not_atom {negated : Bool} {g : Formula σ} (hbasic : g.isBasic = true)
    (h : literal negated g = not (atom a)) : negated = true ∧ g = atom a := by
  cases negated with
  | false =>
    have hg : g = not (atom a) := h
    rw [hg] at hbasic
    exact absurd hbasic (by simp [isBasic])
  | true =>
    unfold literal at h
    rw [if_pos rfl] at h
    split at h
    · exact absurd h (by simp)
    · split at h
      · exact absurd h (by simp)
      · exact absurd h (by simp)
    · exact ⟨rfl, not.inj h⟩

theorem mem_leaves_nnf_iff {negated : Bool} {g : Formula σ} :
    g ∈ (f.nnf negated).leaves ↔
      ∃ n ∈ f.signedNodes negated, n.2.isBasic = true ∧ literal n.1 n.2 = g := by
  simp only [leaves_nnf, List.mem_map, List.mem_filter, and_assoc]

theorem mem_signedNodes_of_atom (h : atom a ∈ (f.nnf false).leaves) :
    (false, atom a) ∈ f.signedNodes false := by
  obtain ⟨⟨negated, g⟩, hn, -, hliteral⟩ := mem_leaves_nnf_iff.1 h
  obtain ⟨rfl, rfl⟩ := eq_of_literal_eq_atom hliteral
  exact hn

theorem mem_signedNodes_of_not_atom (h : not (atom a) ∈ (f.nnf false).leaves) :
    (true, atom a) ∈ f.signedNodes false := by
  obtain ⟨⟨negated, g⟩, hn, hbasic, hliteral⟩ := mem_leaves_nnf_iff.1 h
  obtain ⟨rfl, rfl⟩ := eq_of_literal_eq_not_atom hbasic hliteral
  exact hn

end

/-! ## Empty disjunctions -/

theorem isProperAll_nnfAll {negated : Bool} (fs : List (Formula σ))
    (ih : ∀ f ∈ fs, (f.nnf negated).isProper =
      (f.signedNodes negated).all fun n => !isEmptyDisjunction n.1 n.2) :
    AndOr.isProperAll (nnfAll negated fs) =
      (signedNodesOf negated fs).all fun n => !isEmptyDisjunction n.1 n.2 := by
  induction fs with
  | nil => rfl
  | cons f fs ihs =>
    rw [nnfAll, AndOr.isProperAll, signedNodesOf, List.all_append, ih f (by simp),
      ihs fun f hf => ih f (by simp [hf])]

/-- **The and/or tree has an empty disjunction exactly if the formula has one.** -/
theorem isProper_nnf (negated : Bool) (f : Formula σ) :
    (f.nnf negated).isProper =
      (f.signedNodes negated).all fun n => !isEmptyDisjunction n.1 n.2 := by
  induction f using induction_children generalizing negated with
  | step f ih =>
    cases f with
    | not f =>
      rw [nnf, signedNodes, List.all_cons, ih f (by simp [children])]
      cases negated <;> rfl
    | and fs =>
      have hproper := isProperAll_nnfAll fs fun f hf => ih f hf negated
      rw [signedNodes, List.all_cons, ← hproper]
      cases negated <;> cases fs <;> rfl
    | or fs =>
      have hproper := isProperAll_nnfAll fs fun f hf => ih f hf negated
      rw [signedNodes, List.all_cons, ← hproper]
      cases negated <;> cases fs <;> rfl
    | imply l r =>
      have hl := ih l (by simp [children]) !negated
      have hr := ih r (by simp [children]) negated
      rw [signedNodes, List.all_cons, List.all_append, ← hl, ← hr]
      cases negated <;> simp [nnf, AndOr.isProper, AndOr.isProperAll, isEmptyDisjunction]
    | _ => cases negated <;> rfl

theorem isProper_nnf_iff {negated : Bool} {f : Formula σ} :
    (f.nnf negated).isProper = true ↔
      ∀ n ∈ f.signedNodes negated, isEmptyDisjunction n.1 n.2 = false := by
  simp only [isProper_nnf, List.all_eq_true, Bool.not_eq_true']

/-! ## Clauses -/

mutual

/-- The number of clauses of a formula, or of its negation: one for each literal, the product over
    what is a conjunction under its polarity and the sum over what is a disjunction. -/
def clauseCount (negated : Bool) : Formula σ → Nat
  | not f => f.clauseCount !negated
  | and fs => if negated then clauseSum negated fs else clauseProduct negated fs
  | or fs => if negated then clauseProduct negated fs else clauseSum negated fs
  | imply l r =>
    if negated then l.clauseCount false * r.clauseCount true
    else l.clauseCount true + r.clauseCount false
  | _ => 1

def clauseProduct (negated : Bool) : List (Formula σ) → Nat
  | [] => 1
  | f :: fs => f.clauseCount negated * clauseProduct negated fs

def clauseSum (negated : Bool) : List (Formula σ) → Nat
  | [] => 0
  | f :: fs => f.clauseCount negated + clauseSum negated fs

end

theorem countAll_nnfAll {negated : Bool} (fs : List (Formula σ))
    (ih : ∀ f ∈ fs, (f.nnf negated).count = f.clauseCount negated) :
    AndOr.countAll (nnfAll negated fs) = clauseProduct negated fs := by
  induction fs with
  | nil => rfl
  | cons f fs ihs =>
    rw [nnfAll, AndOr.countAll, clauseProduct, ih f (by simp), ihs fun f hf => ih f (by simp [hf])]

theorem countAny_nnfAll {negated : Bool} (fs : List (Formula σ))
    (ih : ∀ f ∈ fs, (f.nnf negated).count = f.clauseCount negated) :
    AndOr.countAny (nnfAll negated fs) = clauseSum negated fs := by
  induction fs with
  | nil => rfl
  | cons f fs ihs =>
    rw [nnfAll, AndOr.countAny, clauseSum, ih f (by simp), ihs fun f hf => ih f (by simp [hf])]

/-- **The clauses of the and/or tree are counted by the polarities of the formula.** -/
theorem count_nnf (negated : Bool) (f : Formula σ) :
    (f.nnf negated).count = f.clauseCount negated := by
  induction f using induction_children generalizing negated with
  | step f ih =>
    cases f with
    | not f => exact ih f (by simp [children]) !negated
    | and fs =>
      have hproduct := countAll_nnfAll fs fun f hf => ih f hf negated
      have hsum := countAny_nnfAll fs fun f hf => ih f hf negated
      cases negated with
      | false => exact hproduct
      | true => exact hsum
    | or fs =>
      have hproduct := countAll_nnfAll fs fun f hf => ih f hf negated
      have hsum := countAny_nnfAll fs fun f hf => ih f hf negated
      cases negated with
      | false => exact hsum
      | true => exact hproduct
    | imply l r =>
      have hl := ih l (by simp [children])
      have hr := ih r (by simp [children])
      cases negated <;> simp [nnf, AndOr.count, AndOr.countAll, AndOr.countAny, clauseCount, hl, hr]
    | _ => rfl

variable [DecidableEq σ]

/-- **Without empty disjunctions there is a normal form exactly if the clauses are not too many.** -/
theorem dnf_eq_ite {limit : Nat} {f : Formula σ} (hproper : (f.nnf false).isProper = true)
    (hlimit : 1 ≤ limit) :
    f.dnf limit =
      if f.clauseCount false ≤ limit then .ok (ofClauses (f.nnf false).expansion)
      else .error ⟨limit⟩ := by
  rw [dnf, AndOr.clauses_eq_ite hproper hlimit, count_nnf]
  split <;> rfl

end Formula

end GoalCompiler
