import GoalCompiler.Proofs.NormalForm.Conjunction

set_option autoImplicit false

/-! # Normal forms are fixed points

A formula that has the shape of a normal form (`Formula.IsNormal`) goes through all three steps
unchanged. Its literals have no negation that could be moved, so the and/or tree is the formula
itself; the tree is a disjunction of conjunctions already, so the clauses are those of the formula
(`Formula.IsNormal.expansion_nnf`); and there are no repetitions among them, so nothing is dropped
on the way back (`Formula.IsNormal.ofClauses_disjuncts`). The last point does not need that a formula
equals itself. A literal with a NaN in it may stand in a clause twice, and it stays there twice.

So normal forms are fixed points under every limit that they are within (`Formula.dnf_of_isNormal`),
and a normal form is within the limit that it was made under (`Formula.dnf_idempotent`). -/

namespace GoalCompiler

/-! ## Trees that are disjunctions of conjunctions -/

namespace AndOr

variable {α : Type}

/-- A disjunction of single clauses is expanded without ever holding more clauses than its parts. -/
theorem peakAny_le {ts : List (AndOr α)} (hpeak : ∀ t ∈ ts, t.peak ≤ 1)
    (hcount : ∀ t ∈ ts, t.count = 1) (n : Nat) : peakAny n ts ≤ n + ts.length := by
  induction ts generalizing n with
  | nil => exact Nat.zero_le _
  | cons t ts ih =>
    have hfirst := hpeak t (by simp)
    have hrest := ih (fun t ht => hpeak t (by simp [ht])) (fun t ht => hcount t (by simp [ht]))
      (n + 1)
    rw [peakAny, hcount t (by simp), List.length_cons]
    omega

end AndOr

namespace Formula

variable {σ : Type} [DecidableEq σ]

/-! ## The and/or tree of a normal form -/

/-- A clause has one clause, of its conjuncts. -/
theorem IsClause.expansion_nnf {f : Formula σ} (h : f.IsClause) :
    (f.nnf false).expansion = [f.conjuncts] := by
  rw [expansion_nnf_of_literals h.isNormalLiteral_of_mem_flatConjuncts, h.flatConjuncts_eq]

theorem IsClause.count_nnf {f : Formula σ} (h : f.IsClause) : (f.nnf false).count = 1 :=
  count_nnf_of_literals h.isNormalLiteral_of_mem_flatConjuncts

theorem IsClause.peak_nnf_le {f : Formula σ} (h : f.IsClause) : (f.nnf false).peak ≤ 1 :=
  peak_nnf_of_literals_le h.isNormalLiteral_of_mem_flatConjuncts

theorem expansionAny_nnfAll {fs : List (Formula σ)} (h : ∀ f ∈ fs, f.IsClause) :
    AndOr.expansionAny (nnfAll false fs) = fs.map conjuncts := by
  induction fs with
  | nil => rfl
  | cons f fs ih =>
    rw [nnfAll, AndOr.expansionAny, (h f (by simp)).expansion_nnf,
      ih fun f hf => h f (by simp [hf])]
    rfl

/-- **The clauses of a normal form are the conjuncts of its disjuncts.** -/
theorem IsNormal.expansion_nnf {f : Formula σ} (h : f.IsNormal) :
    (f.nnf false).expansion = f.disjuncts.map conjuncts := by
  cases h with
  | clause clause =>
    rw [clause.expansion_nnf, clause.disjuncts_eq]
    rfl
  | or clauses => exact expansionAny_nnfAll clauses

/-- A normal form is within every limit that allows its clauses. -/
theorem IsNormal.peak_nnf_le {f : Formula σ} (h : f.IsNormal) :
    (f.nnf false).peak ≤ f.disjuncts.length := by
  cases h with
  | clause clause =>
    rw [clause.disjuncts_eq]
    exact clause.peak_nnf_le
  | @or fs clauses =>
    have hparts : ∀ t ∈ nnfAll false fs, ∃ f ∈ fs, f.nnf false = t := by
      intro t ht
      rw [nnfAll_eq_map] at ht
      exact List.mem_map.1 ht
    have hpeak : ∀ t ∈ nnfAll false fs, t.peak ≤ 1 := by
      intro t ht
      obtain ⟨f, hf, rfl⟩ := hparts t ht
      exact (clauses f hf).peak_nnf_le
    have hcount : ∀ t ∈ nnfAll false fs, t.count = 1 := by
      intro t ht
      obtain ⟨f, hf, rfl⟩ := hparts t ht
      exact (clauses f hf).count_nnf
    have hlength : (nnfAll false fs).length = fs.length := by
      rw [nnfAll_eq_map, List.length_map]
    have hle := AndOr.peakAny_le hpeak hcount 0
    rwa [hlength, Nat.zero_add] at hle

/-! ## Nothing to drop -/

theorem Distinct.eraseDups_eq {fs : List (Formula σ)} (h : Distinct fs) : fs.eraseDups = fs :=
  eraseDups_eq_self (h.imp fun hfg => hfg.2)

/-- Distinct formulas are joined as they are, unless there is only one. -/
theorem joinDistinct_of_distinct (join : List (Formula σ) → Formula σ) {fs : List (Formula σ)}
    (h : Distinct fs) (hlength : fs.length ≠ 1) : joinDistinct join fs = join fs := by
  rcases joinDistinct_cases join fs with hone | ⟨-, hjoin⟩
  · rw [h.eraseDups_eq] at hone
    exact absurd (congrArg List.length hone) hlength
  · rw [hjoin, h.eraseDups_eq]

theorem IsClause.joinDistinct_conjuncts {f : Formula σ} (h : f.IsClause) :
    joinDistinct Formula.and f.conjuncts = f := by
  cases h with
  | literal normal =>
    rw [conjuncts_of_isLiteral (isLiteral_of_isNormalLiteral normal)]
    rfl
  | and literals notSingle distinct => exact joinDistinct_of_distinct _ distinct notSingle

/-- **A normal form is what its clauses are put together to.** -/
theorem IsNormal.ofClauses_disjuncts {f : Formula σ} (h : f.IsNormal) :
    ofClauses (f.disjuncts.map conjuncts) = f := by
  have hclauses : (f.disjuncts.map conjuncts).map (joinDistinct Formula.and) = f.disjuncts := by
    rw [List.map_map]
    refine (List.map_congr_left ?_).trans (List.map_id _)
    intro g hg
    exact (h.isClause_of_mem hg).joinDistinct_conjuncts
  rw [ofClauses, hclauses]
  cases h with
  | clause clause =>
    rw [clause.disjuncts_eq]
    rfl
  | or clauses notSingle distinct => exact joinDistinct_of_distinct _ distinct notSingle

/-! ## Fixed points -/

/-- A normal form is its own normal form. -/
theorem dnf_of_isNormal {limit : Nat} {f : Formula σ} (h : f.IsNormal)
    (hlimit : f.disjuncts.length ≤ limit) : f.dnf limit = .ok f := by
  rw [dnf_eq_ok_iff_peak, h.expansion_nnf]
  exact ⟨Nat.le_trans h.peak_nnf_le hlimit, h.ofClauses_disjuncts⟩

/-- **To normalize a normal form again changes nothing, under the limit that it was made under.** -/
theorem dnf_idempotent {limit : Nat} {f r : Formula σ} (h : f.dnf limit = .ok r) :
    r.dnf limit = .ok r := by
  have hnormal : r.IsNormal := by
    rw [dnf_eq_ofClauses_expansion h]
    exact isNormal_ofClauses_expansion f
  by_cases hempty : f.nnf false = .all []
  · -- The empty conjunction may exceed a limit of zero, but it has passed it and passes it again.
    rw [eq_and_nil_of_dnf h hempty]
    exact dnf_eq_ok_iff_peak.2 ⟨Nat.zero_le limit, rfl⟩
  · exact dnf_of_isNormal hnormal (length_disjuncts_le h hempty)

/-- Two literals with a NaN in them are not equal, and both stay when they are normalized again. The
    two zeros are equal, and the first of them was kept. -/
theorem dnf_idempotent_nan :
    let nan : Formula Index := not (compare .equal elapsed (number ⟨0x7ff8000000000000⟩))
    let zero (bits : UInt64) : Formula Index := compare .less elapsed (number ⟨bits⟩)
    let f : Formula Index := or [and [nan, nan, and []], not (compare .greaterEqual elapsed
      (number ⟨0x8000000000000000⟩)), zero 0]
    let r : Formula Index := or [and [nan, nan], zero 0x8000000000000000]
    f.dnf 3 = .ok r ∧ r.dnf 3 = .ok r := by
  intro nan zero f r
  have h : f.dnf 3 = .ok r := by rfl
  exact ⟨h, dnf_idempotent h⟩

end Formula

end GoalCompiler
