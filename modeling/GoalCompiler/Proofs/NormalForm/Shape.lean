import GoalCompiler.Proofs.NormalForm.Meaning

set_option autoImplicit false

/-! # The shape of normal forms

A normal form is a clause or a disjunction of clauses, and a clause is a literal or a conjunction of
literals (`Formula.IsNormal`). No conjunction and no disjunction has exactly one member, and no
member equals another one. Equality is `Formula.same`: literals with a NaN in them equal nothing, so
they may occur more than once.

The literals come from the leaves of the and/or tree, which the other two steps only copy, so the
proof follows them through the expansion; distinctness and the absence of single members come from
the last step alone. -/

namespace GoalCompiler

namespace Formula

variable {σ : Type}

/-! ## Literals -/

/-- Whether a formula is a literal whose negation, if it has one, could not be moved further: it is
    no negated truth value, and of the negated comparisons only equality is left. -/
def isNormalLiteral (f : Formula σ) : Bool :=
  f.isLiteral &&
    match f with
    | not (constant _) => false
    | not (compare c _ _) => c == .equal
    | _ => true

theorem isNormalLiteral_literal {f : Formula σ} (h : f.isBasic = true) (negated : Bool) :
    (literal negated f).isNormalLiteral = true := by
  cases negated with
  | false =>
    cases f with
    | and | or | imply | not => exact absurd h (by simp [isBasic])
    | _ => rfl
  | true =>
    cases f with
    | and | or | imply | not => exact absurd h (by simp [isBasic])
    | compare c l r => cases c <;> rfl
    | _ => rfl

theorem exists_of_mem_leavesOf_nnfAll {negated : Bool} {fs : List (Formula σ)} {g : Formula σ}
    (h : g ∈ AndOr.leavesOf (nnfAll negated fs)) : ∃ f ∈ fs, g ∈ (f.nnf negated).leaves := by
  rw [AndOr.mem_leavesOf, nnfAll_eq_map] at h
  obtain ⟨t, ht, hg⟩ := h
  obtain ⟨f, hf, rfl⟩ := List.mem_map.1 ht
  exact ⟨f, hf, hg⟩

/-- All leaves of the and/or tree of a formula are literals in normal form. -/
theorem isNormalLiteral_of_mem_leaves_nnf {f g : Formula σ} {negated : Bool}
    (hg : g ∈ (f.nnf negated).leaves) : g.isNormalLiteral = true := by
  induction f using induction_children generalizing negated with
  | step f ih =>
    cases f with
    | not f => exact ih f (by simp [children]) hg
    | and fs =>
      -- De Morgan may change the node, but not the leaves.
      have hleaf : g ∈ AndOr.leavesOf (nnfAll negated fs) := by cases negated <;> exact hg
      obtain ⟨f, hf, hg⟩ := exists_of_mem_leavesOf_nnfAll hleaf
      exact ih f hf hg
    | or fs =>
      have hleaf : g ∈ AndOr.leavesOf (nnfAll negated fs) := by cases negated <;> exact hg
      obtain ⟨f, hf, hg⟩ := exists_of_mem_leavesOf_nnfAll hleaf
      exact ih f hf hg
    | imply l r =>
      have hleaf : g ∈ (l.nnf !negated).leaves ∨ g ∈ (r.nnf negated).leaves := by
        cases negated <;> simpa [nnf, AndOr.leaves, AndOr.leavesOf] using hg
      rcases hleaf with hg | hg
      · exact ih l (by simp [children]) hg
      · exact ih r (by simp [children]) hg
    | _ =>
      obtain rfl := List.mem_singleton.1 hg
      exact isNormalLiteral_literal rfl negated

theorem isNormalLiteral_of_mem_expansion (f : Formula σ) :
    ∀ c ∈ (f.nnf false).expansion, ∀ g ∈ c, g.isNormalLiteral = true := by
  intro c hc g hg
  have hleaf : g ∈ (f.nnf false).leaves := AndOr.mem_leaves_of_mem_expansion hc hg
  exact isNormalLiteral_of_mem_leaves_nnf hleaf

/-! ## Normal forms -/

variable [DecidableEq σ]

/-- No formula of the list equals one at another position. -/
def Distinct (fs : List (Formula σ)) : Prop :=
  fs.Pairwise fun f g => f.same g = false ∧ g.same f = false

/-- A clause of a normal form: a literal, or a conjunction of distinct literals that are not exactly
    one. -/
inductive IsClause : Formula σ → Prop
  | literal {f : Formula σ} (normal : f.isNormalLiteral = true) : IsClause f
  | and {fs : List (Formula σ)} (literals : ∀ f ∈ fs, f.isNormalLiteral = true)
      (notSingle : fs.length ≠ 1) (distinct : Distinct fs) : IsClause (and fs)

/-- A normal form: a clause, or a disjunction of distinct clauses that are not exactly one. -/
inductive IsNormal : Formula σ → Prop
  | clause {f : Formula σ} (clause : f.IsClause) : IsNormal f
  | or {fs : List (Formula σ)} (clauses : ∀ f ∈ fs, f.IsClause) (notSingle : fs.length ≠ 1)
      (distinct : Distinct fs) : IsNormal (or fs)

theorem distinct_eraseDups (fs : List (Formula σ)) : Distinct fs.eraseDups := by
  refine (pairwise_eraseDups fs).imp ?_
  intro f g hgf
  have hgf : g.same f = false := hgf
  refine ⟨?_, hgf⟩
  by_contra hfg
  rw [same_symm (by simpa using hfg)] at hgf
  exact absurd hgf (by simp)

theorem isClause_joinDistinct {fs : List (Formula σ)}
    (hfs : ∀ f ∈ fs, f.isNormalLiteral = true) : (joinDistinct and fs).IsClause := by
  have hkept : ∀ f ∈ fs.eraseDups, f.isNormalLiteral = true := by
    intro f hf
    exact hfs f ((eraseDups_sublist fs).subset hf)
  rcases joinDistinct_cases and fs with hone | ⟨hlength, hjoin⟩
  · refine .literal (hkept _ ?_)
    rw [hone]
    exact List.mem_singleton_self _
  · rw [hjoin]
    exact .and hkept hlength (distinct_eraseDups fs)

theorem isNormal_joinDistinct {fs : List (Formula σ)} (hfs : ∀ f ∈ fs, f.IsClause) :
    (joinDistinct or fs).IsNormal := by
  have hkept : ∀ f ∈ fs.eraseDups, f.IsClause := by
    intro f hf
    exact hfs f ((eraseDups_sublist fs).subset hf)
  rcases joinDistinct_cases or fs with hone | ⟨hlength, hjoin⟩
  · refine .clause (hkept _ ?_)
    rw [hone]
    exact List.mem_singleton_self _
  · rw [hjoin]
    exact .or hkept hlength (distinct_eraseDups fs)

/-- The formula of clauses of literals is a normal form. -/
theorem isNormal_ofClauses {cs : List (List (Formula σ))}
    (hcs : ∀ c ∈ cs, ∀ f ∈ c, f.isNormalLiteral = true) : (ofClauses cs).IsNormal := by
  apply isNormal_joinDistinct
  intro f hf
  obtain ⟨c, hc, rfl⟩ := List.mem_map.1 hf
  exact isClause_joinDistinct (hcs c hc)

theorem isNormal_ofClauses_expansion (f : Formula σ) :
    (ofClauses (f.nnf false).expansion).IsNormal :=
  isNormal_ofClauses (isNormalLiteral_of_mem_expansion f)

/-- **What `Formula.dnf` gives is a normal form.** -/
theorem dnf_isNormal {limit : Nat} {f g : Formula σ} (h : f.dnf limit = .ok g) : g.IsNormal := by
  rw [dnf_eq_ofClauses_expansion h]
  exact isNormal_ofClauses_expansion f

/-- The first clause loses its repeated literal and then stands without a conjunction. -/
theorem dnf_isNormal_repeated_literal :
    let f : Formula Index := and [or [atom ⟨0, []⟩, not (constant false)], not (not (atom ⟨0, []⟩))]
    let g : Formula Index := or [atom ⟨0, []⟩, and [constant true, atom ⟨0, []⟩]]
    f.dnf 2 = .ok g ∧ g.IsNormal := by
  intro f g
  have h : f.dnf 2 = .ok g := rfl
  exact ⟨h, dnf_isNormal h⟩

end Formula

end GoalCompiler
