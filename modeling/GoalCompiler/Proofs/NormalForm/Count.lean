import GoalCompiler.Proofs.NormalForm.Expansion

set_option autoImplicit false

/-! # Trees without empty disjunctions

The limit of `AndOr.clauses` is compared with the clauses of the parts, and a part may have more of
them than the tree: a conjunction with an empty disjunction in it has none. But if every disjunction
has a part (`AndOr.isProper`), nothing is multiplied by zero. Then no part has more clauses than the
whole, and the expansion fails exactly if the whole has too many (`AndOr.clauses_eq_ite`).

For the same reason no leaf gets lost in a tree without empty disjunctions: each is in some clause
(`AndOr.exists_mem_expansion_of_mem_leaves`). -/

namespace GoalCompiler

namespace AndOr

variable {α : Type}

/-! ## Proper trees -/

mutual

/-- Whether every disjunction of a tree has a part. -/
def isProper : AndOr α → Bool
  | leaf _ => true
  | all ts => isProperAll ts
  | any ts => !ts.isEmpty && isProperAll ts

def isProperAll : List (AndOr α) → Bool
  | [] => true
  | t :: ts => t.isProper && isProperAll ts

end

theorem isProperAll_eq_all (ts : List (AndOr α)) : isProperAll ts = ts.all isProper := by
  induction ts with
  | nil => rfl
  | cons t ts ih => rw [isProperAll, List.all_cons, ih]

theorem isProper_all_iff {ts : List (AndOr α)} :
    (all ts).isProper = true ↔ ∀ t ∈ ts, t.isProper = true := by
  rw [isProper, isProperAll_eq_all, List.all_eq_true]

theorem isProper_any_iff {ts : List (AndOr α)} :
    (any ts).isProper = true ↔ ts ≠ [] ∧ ∀ t ∈ ts, t.isProper = true := by
  rw [isProper, isProperAll_eq_all, Bool.and_eq_true, List.all_eq_true]
  simp

theorem one_le_countAll {ts : List (AndOr α)} (h : ∀ t ∈ ts, 1 ≤ t.count) : 1 ≤ countAll ts := by
  induction ts with
  | nil => exact Nat.le_refl 1
  | cons t ts ih => exact Nat.mul_pos (h t (by simp)) (ih fun t ht => h t (by simp [ht]))

theorem one_le_count {t : AndOr α} (h : t.isProper = true) : 1 ≤ t.count := by
  induction t using induction_parts with
  | leaf a => exact Nat.le_refl 1
  | all ts ih => exact one_le_countAll fun t ht => ih t ht (isProper_all_iff.1 h t ht)
  | any ts ih =>
    obtain ⟨hne, h⟩ := isProper_any_iff.1 h
    cases ts with
    | nil => exact absurd rfl hne
    | cons t ts =>
      have ht : 1 ≤ t.count := ih t (by simp) (h t (by simp))
      exact Nat.le_trans ht (Nat.le_add_right ..)

theorem exists_mem_expansion {t : AndOr α} (h : t.isProper = true) : ∃ c, c ∈ t.expansion := by
  apply List.exists_mem_of_length_pos
  rw [length_expansion]
  exact one_le_count h

/-! ## The limit -/

section

variable {limit : Nat}

/-- Nothing is multiplied by zero, so the last product is the largest. -/
theorem peakAll_le_iff {ts : List (AndOr α)} (ih : ∀ t ∈ ts, t.peak ≤ limit ↔ t.count ≤ limit)
    (hcount : ∀ t ∈ ts, 1 ≤ t.count) {n : Nat} (hpos : 1 ≤ n) (hn : n ≤ limit) :
    peakAll n ts ≤ limit ↔ n * countAll ts ≤ limit := by
  induction ts generalizing n with
  | nil => simp [peakAll, countAll, hn]
  | cons t ts ihs =>
    have ht : 1 ≤ t.count := hcount t (by simp)
    have hrest : 1 ≤ countAll ts := one_le_countAll fun t ht => hcount t (by simp [ht])
    rw [peakAll, countAll, ← Nat.mul_assoc, Nat.max_le, Nat.max_le, ih t (by simp)]
    constructor
    · rintro ⟨-, hfit, hpeak⟩
      exact (ihs (fun t ht => ih t (by simp [ht])) (fun t ht => hcount t (by simp [ht]))
        (Nat.mul_pos hpos ht) hfit).1 hpeak
    · intro htotal
      have hfit : n * t.count ≤ limit := Nat.le_trans (Nat.le_mul_of_pos_right _ hrest) htotal
      refine ⟨Nat.le_trans (Nat.le_mul_of_pos_left _ hpos) hfit, hfit, ?_⟩
      exact (ihs (fun t ht => ih t (by simp [ht])) (fun t ht => hcount t (by simp [ht]))
        (Nat.mul_pos hpos ht) hfit).2 htotal

theorem peakAny_le_iff {ts : List (AndOr α)} (ih : ∀ t ∈ ts, t.peak ≤ limit ↔ t.count ≤ limit)
    {n : Nat} (hn : n ≤ limit) : peakAny n ts ≤ limit ↔ n + countAny ts ≤ limit := by
  induction ts generalizing n with
  | nil => simp [peakAny, countAny, hn]
  | cons t ts ihs =>
    rw [peakAny, countAny, ← Nat.add_assoc, Nat.max_le, Nat.max_le, ih t (by simp)]
    constructor
    · rintro ⟨-, hfit, hpeak⟩
      exact (ihs (fun t ht => ih t (by simp [ht])) hfit).1 hpeak
    · intro htotal
      have hfit : n + t.count ≤ limit := by omega
      refine ⟨by omega, hfit, ?_⟩
      exact (ihs (fun t ht => ih t (by simp [ht])) hfit).2 htotal

/-- In a tree without empty disjunctions no part has more clauses than the whole. -/
theorem peak_le_iff {t : AndOr α} (hproper : t.isProper = true) (hlimit : 1 ≤ limit) :
    t.peak ≤ limit ↔ t.count ≤ limit := by
  induction t using induction_parts with
  | leaf a => rw [peak, count]
  | all ts ih =>
    have hparts := isProper_all_iff.1 hproper
    rw [peak, count, peakAll_le_iff (fun t ht => ih t ht (hparts t ht))
      (fun t ht => one_le_count (hparts t ht)) (Nat.le_refl 1) hlimit, Nat.one_mul]
  | any ts ih =>
    obtain ⟨-, hparts⟩ := isProper_any_iff.1 hproper
    rw [peak, count, peakAny_le_iff (fun t ht => ih t ht (hparts t ht)) (Nat.zero_le limit),
      Nat.zero_add]

/-- **The clauses of a tree without empty disjunctions are its expansion, unless there are more than
    the limit allows.** -/
theorem clauses_eq_ite {t : AndOr α} (hproper : t.isProper = true) (hlimit : 1 ≤ limit) :
    t.clauses limit = if t.count ≤ limit then .ok t.expansion else .error ⟨limit⟩ := by
  rw [clauses_eq_ite_peak]
  simp only [peak_le_iff hproper hlimit]

end

/-! ## Leaves -/

theorem mem_expansionAny {ts : List (AndOr α)} {c : List α} :
    c ∈ expansionAny ts ↔ ∃ t ∈ ts, c ∈ t.expansion := by
  induction ts with
  | nil => simp [expansionAny]
  | cons t ts ih => simp [expansionAny, ih]

/-- **Every leaf of a tree without empty disjunctions is in one of the clauses.** -/
theorem exists_mem_expansion_of_mem_leaves {t : AndOr α} {a : α} (hproper : t.isProper = true)
    (ha : a ∈ t.leaves) : ∃ c ∈ t.expansion, a ∈ c := by
  induction t using induction_parts with
  | leaf b => exact ⟨[b], by simp [expansion], ha⟩
  | all ts ih =>
    rw [leaves] at ha
    rw [expansion]
    induction ts with
    | nil => exact absurd ha (by simp [leavesOf])
    | cons t ts ihs =>
      -- A clause of the part with the leaf goes on with any clause of the other parts.
      have hparts := isProper_all_iff.1 hproper
      have hrest : (all ts).isProper = true :=
        isProper_all_iff.2 fun t ht => hparts t (by simp [ht])
      rw [leavesOf, List.mem_append] at ha
      simp only [expansionAll, mem_product]
      rcases ha with ha | ha
      · obtain ⟨l, hl, hal⟩ := ih t (by simp) (hparts t (by simp)) ha
        obtain ⟨r, hr⟩ := exists_mem_expansion hrest
        exact ⟨l ++ r, ⟨l, hl, r, hr, rfl⟩, List.mem_append_left r hal⟩
      · obtain ⟨l, hl⟩ := exists_mem_expansion (hparts t (by simp))
        obtain ⟨r, hr, har⟩ := ihs (fun t ht => ih t (by simp [ht])) hrest ha
        exact ⟨l ++ r, ⟨l, hl, r, hr, rfl⟩, List.mem_append_right l har⟩
  | any ts ih =>
    obtain ⟨-, hparts⟩ := isProper_any_iff.1 hproper
    rw [leaves, mem_leavesOf] at ha
    obtain ⟨t, ht, ha⟩ := ha
    obtain ⟨c, hc, hac⟩ := ih t ht (hparts t ht) ha
    exact ⟨c, mem_expansionAny.2 ⟨t, ht, hc⟩, hac⟩

end AndOr

end GoalCompiler
