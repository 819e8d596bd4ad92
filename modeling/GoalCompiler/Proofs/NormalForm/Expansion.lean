import GoalCompiler.NormalForm.AndOr
import GoalCompiler.Proofs.Success

set_option autoImplicit false

/-! # The expansion of an and/or tree

`AndOr.clauses` builds the clauses from the left and stops when they become too many. Without the
limit they have a plain recursive definition, `AndOr.expansion`: the clauses of a conjunction are
the product of the clauses of its parts and the clauses of a disjunction are all clauses of its
parts. The limit decides whether there is a result and has no part in it. It is compared with
numbers of clauses that do not depend on it, and `AndOr.peak` is the largest of them: from there on
`AndOr.clauses` gives the expansion, and below it fails (`AndOr.clauses_eq_ite_peak`). So what is
true of the expansion is true of the clauses under any limit:

- as a disjunction of conjunctions it has the truth value of the tree (`AndOr.truth_expansion`);
- its clauses are made of leaves of the tree (`AndOr.mem_leaves_of_mem_expansion`). -/

namespace GoalCompiler

namespace AndOr

variable {α : Type}

/-- Induction from the parts of an and/or tree to the tree. -/
theorem induction_parts {motive : AndOr α → Prop} (leaf : ∀ a, motive (.leaf a))
    (all : ∀ ts : List (AndOr α), (∀ t ∈ ts, motive t) → motive (.all ts))
    (any : ∀ ts : List (AndOr α), (∀ t ∈ ts, motive t) → motive (.any ts)) (t : AndOr α) :
    motive t := by
  induction h : sizeOf t using Nat.strongRecOn generalizing t with
  | _ n ih =>
    subst h
    have hpart : ∀ ts : List (AndOr α), sizeOf ts < sizeOf t → ∀ u ∈ ts, motive u := by
      intro ts hts u hu
      exact ih (sizeOf u) (Nat.lt_trans (List.sizeOf_lt_of_mem hu) hts) u rfl
    cases t with
    | leaf a => exact leaf a
    | all ts => exact all ts (hpart ts (by simp))
    | any ts => exact any ts (hpart ts (by simp))

/-! ## Expansion -/

mutual

/-- The clauses of a tree, however many there are. -/
def expansion : AndOr α → List (List α)
  | leaf a => [[a]]
  | all ts => expansionAll ts
  | any ts => expansionAny ts

/-- The clauses of the conjunction of the trees. -/
def expansionAll : List (AndOr α) → List (List α)
  | [] => [[]]
  | t :: ts => product t.expansion (expansionAll ts)

/-- The clauses of the disjunction of the trees. -/
def expansionAny : List (AndOr α) → List (List α)
  | [] => []
  | t :: ts => t.expansion ++ expansionAny ts

end

theorem mem_product {left right : List (List α)} {c : List α} :
    c ∈ product left right ↔ ∃ l ∈ left, ∃ r ∈ right, l ++ r = c := by
  simp [product]

/-- The empty clause is a unit of the product. -/
theorem product_nil_right (cs : List (List α)) : product cs [[]] = cs := by
  simp [product]

theorem product_assoc (xs ys zs : List (List α)) :
    product (product xs ys) zs = product xs (product ys zs) := by
  simp only [product, List.flatMap_assoc, List.flatMap_map, List.map_flatMap, List.map_map]
  simp [Function.comp_def, List.append_assoc]

/-! ## The number of clauses -/

mutual

/-- The number of clauses of a tree, equal ones included. -/
def count : AndOr α → Nat
  | leaf _ => 1
  | all ts => countAll ts
  | any ts => countAny ts

def countAll : List (AndOr α) → Nat
  | [] => 1
  | t :: ts => t.count * countAll ts

def countAny : List (AndOr α) → Nat
  | [] => 0
  | t :: ts => t.count + countAny ts

end

theorem length_product (left right : List (List α)) :
    (product left right).length = left.length * right.length := by
  simp [product]

theorem length_expansion (t : AndOr α) : t.expansion.length = t.count := by
  induction t using induction_parts with
  | leaf a => rfl
  | all ts ih =>
    rw [expansion, count]
    induction ts with
    | nil => rfl
    | cons t ts ihs =>
      rw [expansionAll, length_product, countAll, ih t (by simp),
        ihs fun t ht => ih t (by simp [ht])]
  | any ts ih =>
    rw [expansion, count]
    induction ts with
    | nil => rfl
    | cons t ts ihs =>
      rw [expansionAny, List.length_append, countAny, ih t (by simp),
        ihs fun t ht => ih t (by simp [ht])]

/-! ## The limit -/

mutual

/-- The largest number of clauses that the limit is compared with while a tree is expanded. It can
    be more than the tree has in the end: a part without clauses takes away those on its left. Only
    for `all []` it is less, because there is no part and nothing is compared. -/
def peak : AndOr α → Nat
  | leaf _ => 1
  | all ts => peakAll 1 ts
  | any ts => peakAny 0 ts

/-- The peak of a conjunction that has `n` clauses on the left of these parts. -/
def peakAll (n : Nat) : List (AndOr α) → Nat
  | [] => 0
  | t :: ts => max t.peak (max (n * t.count) (peakAll (n * t.count) ts))

/-- The peak of a disjunction that has `n` clauses on the left of these parts. -/
def peakAny (n : Nat) : List (AndOr α) → Nat
  | [] => 0
  | t :: ts => max t.peak (max (n + t.count) (peakAny (n + t.count) ts))

end

section

variable {limit : Nat}

/-- The accumulator holds the clauses of the trees to the left. -/
theorem clausesAll_eq_ite {ts : List (AndOr α)}
    (ih : ∀ t ∈ ts, t.clauses limit = if t.peak ≤ limit then .ok t.expansion else .error ⟨limit⟩)
    (acc : List (List α)) :
    clausesAll limit acc ts =
      if peakAll acc.length ts ≤ limit then .ok (product acc (expansionAll ts))
      else .error ⟨limit⟩ := by
  induction ts generalizing acc with
  | nil => rw [clausesAll, peakAll, if_pos (Nat.zero_le limit), expansionAll, product_nil_right]
  | cons t ts ihs =>
    have hlength : (product acc t.expansion).length = acc.length * t.count := by
      rw [length_product, length_expansion]
    -- The product is built from the left, and the expansion from the right.
    have hnext := ihs (fun t ht => ih t (by simp [ht])) (product acc t.expansion)
    rw [hlength, product_assoc, ← expansionAll] at hnext
    rw [clausesAll, ih t (by simp), peakAll]
    by_cases ht : t.peak ≤ limit
    · rw [if_pos ht]
      show (if limit < acc.length * t.expansion.length then _ else _) = _
      rw [length_expansion, hnext]
      by_cases hfit : acc.length * t.count ≤ limit
      · rw [if_neg (Nat.not_lt_of_le hfit)]
        simp only [Nat.max_le, ht, hfit, true_and]
      · rw [if_pos (Nat.lt_of_not_le hfit), if_neg fun h => hfit (by omega)]
    · rw [if_neg ht, if_neg fun h => ht (by omega)]
      rfl

theorem clausesAny_eq_ite {ts : List (AndOr α)}
    (ih : ∀ t ∈ ts, t.clauses limit = if t.peak ≤ limit then .ok t.expansion else .error ⟨limit⟩)
    (acc : List (List α)) :
    clausesAny limit acc ts =
      if peakAny acc.length ts ≤ limit then .ok (acc ++ expansionAny ts) else .error ⟨limit⟩ := by
  induction ts generalizing acc with
  | nil => rw [clausesAny, peakAny, if_pos (Nat.zero_le limit), expansionAny, List.append_nil]
  | cons t ts ihs =>
    have hlength : (acc ++ t.expansion).length = acc.length + t.count := by
      rw [List.length_append, length_expansion]
    have hnext := ihs (fun t ht => ih t (by simp [ht])) (acc ++ t.expansion)
    rw [hlength, List.append_assoc, ← expansionAny] at hnext
    rw [clausesAny, ih t (by simp), peakAny]
    by_cases ht : t.peak ≤ limit
    · rw [if_pos ht]
      show (if limit < (acc ++ t.expansion).length then _ else _) = _
      rw [hlength, hnext]
      by_cases hfit : acc.length + t.count ≤ limit
      · rw [if_neg (Nat.not_lt_of_le hfit)]
        simp only [Nat.max_le, ht, hfit, true_and]
      · rw [if_pos (Nat.lt_of_not_le hfit), if_neg fun h => hfit (by omega)]
    · rw [if_neg ht, if_neg fun h => ht (by omega)]
      rfl

/-- **The limit is a threshold.** From the peak on the clauses are the expansion, and below the peak
    there are none. -/
theorem clauses_eq_ite_peak (limit : Nat) (t : AndOr α) :
    t.clauses limit = if t.peak ≤ limit then .ok t.expansion else .error ⟨limit⟩ := by
  induction t using induction_parts with
  | leaf a =>
    rw [clauses, peak, expansion]
    by_cases hlimit : limit = 0
    · rw [if_pos hlimit, if_neg (by omega)]
    · rw [if_neg hlimit, if_pos (by omega)]
  | all ts ih =>
    rw [clauses, clausesAll_eq_ite ih, peak, expansion]
    simp [product]
  | any ts ih =>
    rw [clauses, clausesAny_eq_ite ih, peak, expansion]
    simp

theorem clauses_eq_ok_iff {t : AndOr α} {cs : List (List α)} :
    t.clauses limit = .ok cs ↔ t.peak ≤ limit ∧ t.expansion = cs := by
  rw [clauses_eq_ite_peak]
  by_cases hpeak : t.peak ≤ limit
  · simp [hpeak]
  · simp [hpeak]

/-- **Under every limit that suffices the clauses are the expansion.** -/
theorem clauses_eq_expansion {t : AndOr α} {cs : List (List α)} (h : t.clauses limit = .ok cs) :
    cs = t.expansion :=
  (clauses_eq_ok_iff.1 h).2.symm

end

/-! ## Truth -/

mutual

/-- The truth value of a tree whose leaves have the given values. -/
def truth (value : α → Bool) : AndOr α → Bool
  | leaf a => value a
  | all ts => truthAll value ts
  | any ts => truthAny value ts

def truthAll (value : α → Bool) : List (AndOr α) → Bool
  | [] => true
  | t :: ts => t.truth value && truthAll value ts

def truthAny (value : α → Bool) : List (AndOr α) → Bool
  | [] => false
  | t :: ts => t.truth value || truthAny value ts

end

@[simp]
theorem truth_all (value : α → Bool) (ts : List (AndOr α)) :
    (all ts).truth value = ts.all (truth value) := by
  rw [truth]
  induction ts with
  | nil => rfl
  | cons t ts ih => simp [truthAll, ih]

@[simp]
theorem truth_any (value : α → Bool) (ts : List (AndOr α)) :
    (any ts).truth value = ts.any (truth value) := by
  rw [truth]
  induction ts with
  | nil => rfl
  | cons t ts ih => simp [truthAny, ih]

/-- The truth value of clauses: one of them has only true leaves. -/
def clausesTruth (value : α → Bool) (cs : List (List α)) : Bool := cs.any (List.all · value)

/-- Distribution: a product of clauses is their conjunction. -/
theorem clausesTruth_product (value : α → Bool) (left right : List (List α)) :
    clausesTruth value (product left right)
      = (clausesTruth value left && clausesTruth value right) := by
  rw [Bool.eq_iff_iff]
  simp only [clausesTruth, Bool.and_eq_true, List.any_eq_true, mem_product]
  constructor
  · rintro ⟨-, ⟨l, hl, r, hr, rfl⟩, h⟩
    rw [List.all_append, Bool.and_eq_true] at h
    exact ⟨⟨l, hl, h.1⟩, ⟨r, hr, h.2⟩⟩
  · rintro ⟨⟨l, hl, hlt⟩, ⟨r, hr, hrt⟩⟩
    refine ⟨l ++ r, ⟨l, hl, r, hr, rfl⟩, ?_⟩
    rw [List.all_append, hlt, hrt]
    rfl

/-- **The expansion of a tree has the truth value of the tree.** -/
theorem truth_expansion (value : α → Bool) (t : AndOr α) :
    clausesTruth value t.expansion = t.truth value := by
  induction t using induction_parts with
  | leaf a => simp [clausesTruth, expansion, truth]
  | all ts ih =>
    rw [expansion, truth]
    induction ts with
    | nil => rfl
    | cons t ts ihs =>
      rw [expansionAll, clausesTruth_product, truthAll, ih t (by simp),
        ihs fun t ht => ih t (by simp [ht])]
  | any ts ih =>
    rw [expansion, truth]
    induction ts with
    | nil => rfl
    | cons t ts ihs =>
      have htail := ihs fun t ht => ih t (by simp [ht])
      rw [clausesTruth] at htail
      rw [expansionAny, clausesTruth, List.any_append, truthAny, htail, ← ih t (by simp)]
      rfl

/-! ## Leaves -/

mutual

/-- The leaves of a tree from left to right. -/
def leaves : AndOr α → List α
  | leaf a => [a]
  | all ts => leavesOf ts
  | any ts => leavesOf ts

def leavesOf : List (AndOr α) → List α
  | [] => []
  | t :: ts => t.leaves ++ leavesOf ts

end

theorem mem_leavesOf {ts : List (AndOr α)} {a : α} : a ∈ leavesOf ts ↔ ∃ t ∈ ts, a ∈ t.leaves := by
  induction ts with
  | nil => simp [leavesOf]
  | cons t ts ih => simp [leavesOf, ih]

/-- Clauses are made of leaves. -/
theorem mem_leaves_of_mem_expansion {t : AndOr α} {c : List α} {a : α} (hc : c ∈ t.expansion)
    (ha : a ∈ c) : a ∈ t.leaves := by
  induction t using induction_parts generalizing c with
  | leaf b =>
    rw [expansion, List.mem_singleton] at hc
    subst hc
    exact ha
  | all ts ih =>
    rw [expansion] at hc
    rw [leaves]
    induction ts generalizing c with
    | nil =>
      rw [expansionAll, List.mem_singleton] at hc
      subst hc
      exact absurd ha (by simp)
    | cons t ts ihs =>
      -- A clause is one of the first tree followed by one of the other trees.
      rw [expansionAll, mem_product] at hc
      obtain ⟨l, hl, r, hr, rfl⟩ := hc
      rw [leavesOf, List.mem_append]
      rcases List.mem_append.1 ha with ha | ha
      · exact Or.inl (ih t (by simp) hl ha)
      · exact Or.inr (ihs (fun t ht => ih t (by simp [ht])) hr ha)
  | any ts ih =>
    rw [expansion] at hc
    rw [leaves]
    induction ts with
    | nil => exact absurd hc (by simp [expansionAny])
    | cons t ts ihs =>
      rw [expansionAny, List.mem_append] at hc
      rw [leavesOf, List.mem_append]
      rcases hc with hc | hc
      · exact Or.inl (ih t (by simp) hc ha)
      · exact Or.inr (ihs (fun t ht => ih t (by simp [ht])) hc)

end AndOr

end GoalCompiler
