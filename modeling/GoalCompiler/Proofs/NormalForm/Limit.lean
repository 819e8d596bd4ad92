import GoalCompiler.Proofs.NormalForm.Polarity

set_option autoImplicit false

/-! # The clause limit

The expansion of an and/or tree checks its limit after every part of a conjunction or disjunction,
and multiplies two lists of clauses at a time. From outside none of this shows. The clauses can be
listed part by part without an accumulator: a clause of a conjunction takes one clause of each part,
and the choices are ordered lexicographically (`choices`); the clauses of a disjunction are those of
its parts, one part after the other. That is `AndOr.enumeration`, and the expansion is the same list
(`AndOr.expansion_eq_enumeration`).

So a formula without empty disjunctions has a normal form exactly if its clauses, counted by
products and sums before any are dropped, are not more than the limit, and the normal form is made
of the enumeration (`Formula.dnf_limit_exact`). -/

namespace GoalCompiler

/-! ## Choices -/

/-- All ways to take one element of each list, in lexicographic order: the first list weighs most
    and the last one changes fastest. -/
def choices {β : Type} : List (List β) → List (List β)
  | [] => [[]]
  | l :: ls => l.flatMap fun b => (choices ls).map (b :: ·)

namespace AndOr

variable {α : Type}

/-- A product picks a left clause and goes on with a choice of right ones. -/
theorem product_map_flatten_choices (cs : List (List α)) (css : List (List (List α))) :
    product cs ((choices css).map List.flatten) = (choices (cs :: css)).map List.flatten := by
  rw [product, choices, List.map_flatMap]
  simp only [List.map_map]
  rfl

/-! ## Enumeration -/

mutual

/-- The clauses of a tree from the lists of clauses of its parts. -/
def enumeration : AndOr α → List (List α)
  | leaf a => [[a]]
  | all ts => (choices (enumerations ts)).map List.flatten
  | any ts => (enumerations ts).flatten

def enumerations : List (AndOr α) → List (List (List α))
  | [] => []
  | t :: ts => t.enumeration :: enumerations ts

end

theorem expansionAll_eq_choices {ts : List (AndOr α)}
    (ih : ∀ t ∈ ts, t.expansion = t.enumeration) :
    expansionAll ts = (choices (enumerations ts)).map List.flatten := by
  induction ts with
  | nil => rfl
  | cons t ts ihs =>
    have hrest := ihs fun t ht => ih t (by simp [ht])
    rw [expansionAll, ih t (by simp), hrest, enumerations, product_map_flatten_choices]

theorem expansionAny_eq_flatten {ts : List (AndOr α)}
    (ih : ∀ t ∈ ts, t.expansion = t.enumeration) :
    expansionAny ts = (enumerations ts).flatten := by
  induction ts with
  | nil => rfl
  | cons t ts ihs =>
    have hrest := ihs fun t ht => ih t (by simp [ht])
    rw [expansionAny, ih t (by simp), hrest, enumerations, List.flatten_cons]

/-- **The expansion of a tree is the enumeration of its clauses.** -/
theorem expansion_eq_enumeration (t : AndOr α) : t.expansion = t.enumeration := by
  induction t using induction_parts with
  | leaf a => rfl
  | all ts ih => exact expansionAll_eq_choices ih
  | any ts ih => exact expansionAny_eq_flatten ih

end AndOr

/-! ## The limit -/

namespace Formula

variable {σ : Type} [DecidableEq σ]

/-- **The clause limit is exact.** Without empty disjunctions the normal form fails exactly if there
    are more clauses than the limit, counted before equal ones are dropped. Otherwise the clauses
    are the enumeration: nothing is lost, repeated or out of order. -/
theorem dnf_limit_exact {limit : Nat} {f : Formula σ} (hproper : (f.nnf false).isProper = true)
    (hlimit : 1 ≤ limit) :
    (f.dnf limit = .error ⟨limit⟩ ↔ limit < (f.nnf false).count) ∧
      ((∃ g, f.dnf limit = .ok g) ↔ (f.nnf false).count ≤ limit) ∧
      ∀ g, f.dnf limit = .ok g →
        (f.nnf false).clauses limit = .ok (f.nnf false).enumeration ∧
          g = ofClauses (f.nnf false).enumeration := by
  have hdnf := dnf_eq_ite hproper hlimit
  have hclauses := AndOr.clauses_eq_ite hproper hlimit
  rw [← count_nnf, AndOr.expansion_eq_enumeration] at hdnf
  rw [AndOr.expansion_eq_enumeration] at hclauses
  by_cases hfit : (f.nnf false).count ≤ limit
  · rw [if_pos hfit] at hdnf hclauses
    refine ⟨?_, ?_, ?_⟩
    · simp [hdnf, hfit]
    · simp [hdnf, hfit]
    · intro g hg
      rw [hdnf, Except.ok.injEq] at hg
      exact ⟨hclauses, hg.symm⟩
  · rw [if_neg hfit] at hdnf
    refine ⟨?_, ?_, ?_⟩
    · simp [hdnf, Nat.lt_of_not_le hfit]
    · simp [hdnf, hfit]
    · intro g hg
      rw [hdnf] at hg
      exact absurd hg (by simp)

/-- A clause with a repeated literal still counts: two disjunctions of two literals have four. -/
theorem dnf_limit_exact_four :
    let f : Formula Index :=
      and [or [atom ⟨0, []⟩, atom ⟨1, []⟩], imply (atom ⟨2, []⟩) (atom ⟨0, []⟩)]
    (f.nnf false).isProper = true ∧ f.dnf 3 = .error ⟨3⟩ ∧
      (f.nnf false).clauses 4 = .ok
        [[atom ⟨0, []⟩, not (atom ⟨2, []⟩)], [atom ⟨0, []⟩, atom ⟨0, []⟩],
          [atom ⟨1, []⟩, not (atom ⟨2, []⟩)], [atom ⟨1, []⟩, atom ⟨0, []⟩]] := by
  intro f
  have hproper : (f.nnf false).isProper = true := rfl
  have hcount : (f.nnf false).count = 4 := rfl
  have h3 := dnf_limit_exact hproper (show 1 ≤ 3 by decide)
  have h4 := dnf_limit_exact hproper (show 1 ≤ 4 by decide)
  obtain ⟨g, hg⟩ := h4.2.1.2 (Nat.le_of_eq hcount)
  exact ⟨hproper, h3.1.2 (hcount ▸ by decide), (h4.2.2 g hg).1⟩

end Formula

end GoalCompiler
