import GoalCompiler.Proofs.Goal.Clauses

set_option autoImplicit false

/-! # The clause limit as a threshold

The clause limit decides whether a formula has a normal form, and nothing else. The formula has a
number of its own, the peak of its and/or tree, and every limit from there on gives the same normal
form (`Formula.dnf_eq_ite_peak`). So a limit can be raised without a change of what was there before
(`Formula.dnf_limit_irrelevant`).

One would expect that a normal form is also within its limit, that is, has at most that many
clauses. The peak is at least the number of clauses of the and/or tree, because the last thing that
is compared with the limit is the whole (`AndOr.count_le_peak`). The one exception is a conjunction
without parts. It is one clause, but it is expanded without any comparison, so under a limit of zero
it passes. This happens to formulas that are an empty conjunction up to negations, and to no other
(`Formula.length_disjuncts_le_iff`). -/

namespace GoalCompiler

/-! ## Peaks and counts -/

namespace AndOr

variable {α : Type}

theorem mul_countAll_le (n : Nat) (ts : List (AndOr α)) :
    n * countAll ts ≤ max n (peakAll n ts) := by
  induction ts generalizing n with
  | nil =>
    rw [countAll, Nat.mul_one]
    exact Nat.le_max_left ..
  | cons t ts ih =>
    have hrest := ih (n * t.count)
    rw [countAll, peakAll, ← Nat.mul_assoc]
    omega

theorem add_countAny_le (n : Nat) (ts : List (AndOr α)) :
    n + countAny ts ≤ max n (peakAny n ts) := by
  induction ts generalizing n with
  | nil =>
    rw [countAny, Nat.add_zero]
    exact Nat.le_max_left ..
  | cons t ts ih =>
    have hrest := ih (n + t.count)
    rw [countAny, peakAny, ← Nat.add_assoc]
    omega

/-- **The limit is compared with the number of all clauses,** unless the tree is a conjunction
    without parts. -/
theorem count_le_peak {t : AndOr α} (h : t ≠ all []) : t.count ≤ t.peak := by
  cases t with
  | leaf a => exact Nat.le_refl 1
  | all ts =>
    cases ts with
    | nil => exact absurd rfl h
    | cons t ts =>
      have hproduct := mul_countAll_le t.count ts
      rw [count, countAll, peak, peakAll, Nat.one_mul]
      omega
  | any ts =>
    have hsum := add_countAny_le 0 ts
    rw [count, peak]
    omega

end AndOr

namespace Formula

variable {σ : Type}

/-! ## Empty conjunctions -/

/-- Whether a formula, negated if `negated`, is a conjunction of nothing once its negations are moved
    in: `and []` under an even number of negations or `or []` under an odd one. -/
def isEmptyConjunction : Bool → Formula σ → Bool
  | negated, not f => f.isEmptyConjunction !negated
  | false, and [] => true
  | true, or [] => true
  | _, _ => false

theorem nnf_eq_all_nil_iff {negated : Bool} {f : Formula σ} :
    f.nnf negated = .all [] ↔ f.isEmptyConjunction negated = true := by
  induction f using induction_children generalizing negated with
  | step f ih =>
    cases f with
    | not f =>
      rw [nnf, isEmptyConjunction]
      exact ih f (by simp [children])
    | and fs => cases negated <;> cases fs <;> simp [nnf, nnfAll, isEmptyConjunction]
    | or fs => cases negated <;> cases fs <;> simp [nnf, nnfAll, isEmptyConjunction]
    | imply l r => cases negated <;> simp [nnf, isEmptyConjunction]
    | _ => simp [nnf, isEmptyConjunction]

variable [DecidableEq σ]

/-! ## The threshold -/

/-- **There is a normal form under every limit from the peak on, always the same one.** -/
theorem dnf_eq_ite_peak (limit : Nat) (f : Formula σ) :
    f.dnf limit =
      if (f.nnf false).peak ≤ limit then .ok (ofClauses (f.nnf false).expansion)
      else .error ⟨limit⟩ := by
  rw [dnf, AndOr.clauses_eq_ite_peak]
  split <;> rfl

theorem dnf_eq_ok_iff_peak {limit : Nat} {f g : Formula σ} :
    f.dnf limit = .ok g ↔
      (f.nnf false).peak ≤ limit ∧ ofClauses (f.nnf false).expansion = g := by
  rw [dnf_eq_ite_peak]
  by_cases hpeak : (f.nnf false).peak ≤ limit
  · simp [hpeak]
  · simp [hpeak]

/-- **The clause limit does not influence the normal form.** What there is under a limit there is
    under every higher one, two limits never give different normal forms, and the only failure is
    that the limit is too low. -/
theorem dnf_limit_irrelevant (f : Formula σ) :
    (∀ m m' r, m ≤ m' → f.dnf m = .ok r → f.dnf m' = .ok r) ∧
      (∀ m m' r r', f.dnf m = .ok r → f.dnf m' = .ok r' → r = r') ∧
      ∀ m e, f.dnf m = .error e → e = ⟨m⟩ ∧ ∀ m' ≤ m, f.dnf m' = .error ⟨m'⟩ := by
  refine ⟨?_, ?_, ?_⟩
  · intro m m' r hle h
    obtain ⟨hpeak, hr⟩ := dnf_eq_ok_iff_peak.1 h
    exact dnf_eq_ok_iff_peak.2 ⟨Nat.le_trans hpeak hle, hr⟩
  · intro m m' r r' h h'
    rw [← (dnf_eq_ok_iff_peak.1 h).2, ← (dnf_eq_ok_iff_peak.1 h').2]
  · intro m e h
    rw [dnf_eq_ite_peak] at h
    by_cases hpeak : (f.nnf false).peak ≤ m
    · rw [if_pos hpeak] at h
      exact absurd h (by simp)
    · rw [if_neg hpeak, Except.error.injEq] at h
      refine ⟨h.symm, ?_⟩
      intro m' hle
      rw [dnf_eq_ite_peak, if_neg fun hpeak' => hpeak (Nat.le_trans hpeak' hle)]

/-- Four clauses are made for two that stay, and so the normal form of two clauses needs a limit of
    four. From there on it is the same. -/
theorem dnf_limit_irrelevant_repeated_clause :
    let f : Formula Index := and [or [atom ⟨0, []⟩, atom ⟨0, []⟩], or [atom ⟨1, []⟩, atom ⟨2, []⟩]]
    let r : Formula Index :=
      or [and [atom ⟨0, []⟩, atom ⟨1, []⟩], and [atom ⟨0, []⟩, atom ⟨2, []⟩]]
    f.dnf 3 = .error ⟨3⟩ ∧ f.dnf 2 = .error ⟨2⟩ ∧ f.dnf 4 = .ok r ∧ f.dnf 4096 = .ok r := by
  intro f r
  have h3 : f.dnf 3 = .error ⟨3⟩ := by rfl
  have h4 : f.dnf 4 = .ok r := by rfl
  obtain ⟨hraise, -, hfail⟩ := dnf_limit_irrelevant f
  exact ⟨h3, (hfail 3 _ h3).2 2 (by decide), h4, hraise 4 4096 r (by decide) h4⟩

/-! ## Normal forms within the limit -/

/-- The clauses of a normal form are not more than those of the and/or tree. -/
theorem length_disjuncts_le_count (f : Formula σ) :
    (ofClauses (f.nnf false).expansion).disjuncts.length ≤ (f.nnf false).count := by
  rw [disjuncts_ofClauses (isNormalLiteral_of_mem_expansion f), ← AndOr.length_expansion]
  have hkept := (eraseDups_sublist ((f.nnf false).expansion.map (joinDistinct and))).length_le
  rwa [List.length_map] at hkept

theorem length_disjuncts_le {limit : Nat} {f g : Formula σ} (h : f.dnf limit = .ok g)
    (hempty : f.nnf false ≠ .all []) : g.disjuncts.length ≤ limit := by
  obtain ⟨hpeak, rfl⟩ := dnf_eq_ok_iff_peak.1 h
  calc (ofClauses (f.nnf false).expansion).disjuncts.length
      ≤ (f.nnf false).count := length_disjuncts_le_count f
    _ ≤ (f.nnf false).peak := AndOr.count_le_peak hempty
    _ ≤ limit := hpeak

/-- The normal form of an empty conjunction is an empty conjunction. -/
theorem eq_and_nil_of_dnf {limit : Nat} {f g : Formula σ} (h : f.dnf limit = .ok g)
    (hempty : f.nnf false = .all []) : g = and [] := by
  obtain ⟨-, rfl⟩ := dnf_eq_ok_iff_peak.1 h
  rw [hempty]
  rfl

/-- **A normal form has at most as many clauses as the limit allows, except that an empty conjunction
    passes a limit of zero.** -/
theorem length_disjuncts_le_iff {limit : Nat} {f g : Formula σ} (h : f.dnf limit = .ok g) :
    g.disjuncts.length ≤ limit ↔ ¬ (limit = 0 ∧ f.isEmptyConjunction false = true) := by
  by_cases hempty : f.nnf false = .all []
  · have hone : g.disjuncts.length = 1 := by
      rw [eq_and_nil_of_dnf h hempty]
      rfl
    simp [hone, nnf_eq_all_nil_iff.1 hempty, Nat.one_le_iff_ne_zero]
  · have hne : f.isEmptyConjunction false ≠ true := fun he => hempty (nnf_eq_all_nil_iff.2 he)
    have hle := length_disjuncts_le h hempty
    exact iff_of_true hle fun hzero => hne hzero.2

/-- Four clauses under a limit of four, three of which stay, and a formula without clauses under a
    limit of zero. -/
theorem length_disjuncts_le_iff_imply :
    let f : Formula Index :=
      imply (and [atom ⟨0, []⟩, not (atom ⟨1, []⟩)]) (or [atom ⟨1, []⟩, atom ⟨2, []⟩])
    let g : Formula Index := or [not (atom ⟨0, []⟩), atom ⟨1, []⟩, atom ⟨2, []⟩]
    let h : Formula Index := and [or [], and []]
    f.dnf 4 = .ok g ∧ g.disjuncts.length ≤ 4 ∧ h.dnf 0 = .ok (or []) ∧
      (or [] : Formula Index).disjuncts.length ≤ 0 := by
  intro f g h
  have hf : f.dnf 4 = .ok g := by rfl
  have hh : h.dnf 0 = .ok (or []) := by rfl
  exact ⟨hf, (length_disjuncts_le_iff hf).2 (by decide), hh,
    (length_disjuncts_le_iff hh).2 (by decide)⟩

/-- An empty conjunction is one clause more than none. Inside another conjunction it is refused. -/
theorem dnf_zero_passes_empty_conjunction :
    (and [] : Formula Name).dnf 0 = .ok (and []) ∧
      ¬ (and [] : Formula Name).disjuncts.length ≤ 0 ∧
      (and [and []] : Formula Name).dnf 0 = .error ⟨0⟩ :=
  ⟨rfl, by decide, rfl⟩

end Formula

end GoalCompiler
