import GoalCompiler.Goal.Compile
import GoalCompiler.Proofs.Loop
import GoalCompiler.Proofs.Numeral
import Mathlib.Data.List.Nodup
import Mathlib.Data.List.Perm.Subperm
import Mathlib.Data.Nat.Find
import Mathlib.Order.Bounds.Defs

set_option autoImplicit false

/-! # Fresh names

`Table.freshName` searches the variants of a name for one that the table does not have, and looks at
one variant more than the table has entries. The variants of a name are distinct
(`nameVariant_injective`), so they cannot all be in the table and the search does not come back
empty-handed: it finds the first that is free (`Table.freshName_eq_nameVariant`), and the name is
fresh (`Table.freshName_not_mem`).

The search ends without the bound too. `Table.tryName` is a round of the loop that tries one name
after the other for as long as they are taken. The loop gives the same name, after at most one test
more than the table has entries, and this name is the first that is free
(`Table.freshName_search`). -/

namespace GoalCompiler

theorem nameVariant_injective (base : Name) : Function.Injective (nameVariant base) := by
  -- Every variant but the first is longer than the name.
  have hlonger : ∀ k, nameVariant base (k + 1) ≠ base := by
    intro k h
    have hlength := congrArg String.length h
    have hdash : "-".length = 1 := rfl
    simp only [nameVariant, String.length_append] at hlength
    omega
  intro j k h
  cases j with
  | zero =>
    cases k with
    | zero => rfl
    | succ k => exact absurd h.symm (hlonger k)
  | succ j =>
    cases k with
    | zero => exact absurd h (hlonger j)
    | succ k =>
      -- The number of a variant is read back from its digits.
      exact repr_injective ((String.append_right_inj _).1 h)

namespace Table

/-- A table has at least as many entries as it has variants of a name, counted from the first. -/
theorem le_size_of_forall_nameVariant_mem {t : Table Name} {base : Name} {k : Nat}
    (h : ∀ j < k, nameVariant base j ∈ t.entries) : k ≤ t.size := by
  have hsubset : (List.range k).map (nameVariant base) ⊆ t.entries := by
    intro name hname
    obtain ⟨j, hj, rfl⟩ := List.mem_map.1 hname
    exact h j (List.mem_range.1 hj)
  have hnodup : ((List.range k).map (nameVariant base)).Nodup :=
    List.nodup_range.map (nameVariant_injective base)
  have hlength := (List.subperm_of_subset hnodup hsubset).length_le
  rwa [List.length_map, List.length_range] at hlength

theorem exists_first_nameVariant (t : Table Name) (base : Name) :
    ∃ k, nameVariant base k ∉ t.entries ∧ ∀ j < k, nameVariant base j ∈ t.entries := by
  have hexists : ∃ k, nameVariant base k ∉ t.entries := by
    by_contra hnone
    have hknown : ∀ k < t.size + 1, nameVariant base k ∈ t.entries := by
      intro k _
      by_contra hfree
      exact hnone ⟨k, hfree⟩
    exact Nat.not_succ_le_self t.size (le_size_of_forall_nameVariant_mem hknown)
  refine ⟨Nat.find hexists, Nat.find_spec hexists, ?_⟩
  intro j hj
  exact not_not.1 (Nat.find_min hexists hj)

/-- The fresh name is the first variant that is free. -/
theorem freshName_eq_nameVariant {t : Table Name} {base : Name} {k : Nat}
    (hfree : nameVariant base k ∉ t.entries) (hknown : ∀ j < k, nameVariant base j ∈ t.entries) :
    t.freshName base = nameVariant base k := by
  have hk : k < t.size + 1 := Nat.lt_succ_of_le (le_size_of_forall_nameVariant_mem hknown)
  have hfind : ((List.range (t.size + 1)).map (nameVariant base)).find?
      (fun name => !t.contains name) = some (nameVariant base k) := by
    refine List.find?_eq_some_iff_getElem.2 ⟨?_, k, ?_, ?_, ?_⟩
    · simpa [contains] using hfree
    · simpa using hk
    · simp
    · intro j hj
      simpa [contains] using hknown j hj
  rw [freshName, hfind]
  rfl

/-- **A fresh name is not in the table.** -/
theorem freshName_not_mem (t : Table Name) (base : Name) : t.freshName base ∉ t.entries := by
  obtain ⟨k, hfree, hknown⟩ := t.exists_first_nameVariant base
  rw [freshName_eq_nameVariant hfree hknown]
  exact hfree

/-! ## The search as a loop -/

/-- One round of the search: a name that is free is the answer, and after one that is taken the next
    variant is tried. The number is that of the next variant. -/
def tryName (t : Table Name) (base : Name) : Name × Nat → Name ⊕ (Name × Nat)
  | (candidate, number) =>
    if t.contains candidate then .inr (base ++ "-" ++ number.repr, number + 1) else .inl candidate

/-- The name to be tried is a variant, and those before it are taken. -/
def Tried (t : Table Name) (base : Name) (s : Name × Nat) : Prop :=
  ∃ k, s = (nameVariant base k, k + 1) ∧ ∀ j < k, nameVariant base j ∈ t.entries

/-- A round finds the first free variant or goes on to the next one, which happens no more often
    than there are entries. -/
theorem tryName_progress {t : Table Name} {base : Name} {s : Name × Nat} (h : t.Tried base s) :
    (∃ name, t.tryName base s = .inl name ∧ ∃ k, name = nameVariant base k ∧
        nameVariant base k ∉ t.entries ∧ ∀ j < k, nameVariant base j ∈ t.entries) ∨
      ∃ s', t.tryName base s = .inr s' ∧ t.Tried base s' ∧
        t.size + 1 - s'.2 < t.size + 1 - s.2 := by
  obtain ⟨k, rfl, hknown⟩ := h
  by_cases hmem : nameVariant base k ∈ t.entries
  · have hknown' : ∀ j < k + 1, nameVariant base j ∈ t.entries := by
      intro j hj
      rcases Nat.lt_succ_iff_lt_or_eq.1 hj with hj | rfl
      · exact hknown j hj
      · exact hmem
    have hsize := le_size_of_forall_nameVariant_mem hknown'
    refine Or.inr ⟨(nameVariant base (k + 1), k + 2), ?_, ⟨k + 1, rfl, hknown'⟩, ?_⟩
    · rw [tryName, if_pos (contains_iff_mem.2 hmem)]
      rfl
    · simp only
      omega
  · refine Or.inl ⟨nameVariant base k, ?_, k, rfl, hmem, hknown⟩
    rw [tryName, if_neg (fun hcontains => hmem (contains_iff_mem.1 hcontains))]

/-- **The search ends after at most one test more than there are entries, and its answer is the name
    itself if that is free, else the variant with the least number that is free.** -/
theorem freshName_search (t : Table Name) (base : Name) :
    (∃ tests, tests ≤ t.size + 1 ∧ ∀ n name,
      Loop.Ends (t.tryName base) (base, 1) n name ↔ n = tests ∧ name = t.freshName base) ∧
    (base ∉ t.entries → t.freshName base = base) ∧
    (base ∈ t.entries → ∃ k, t.freshName base = base ++ "-" ++ k.repr ∧
      IsLeast {k | 1 ≤ k ∧ base ++ "-" ++ k.repr ∉ t.entries} k) ∧
    t.freshName base ∉ t.entries := by
  have hstart : t.Tried base (base, 1) := ⟨0, rfl, fun j hj => absurd hj (Nat.not_lt_zero j)⟩
  obtain ⟨tests, name, hle, hends, k, rfl, hfree, hknown⟩ :=
    Loop.exists_ends (fun s => t.size + 1 - s.2) (fun _ => tryName_progress) hstart
  have hfresh : t.freshName base = nameVariant base k := freshName_eq_nameVariant hfree hknown
  rw [hfresh]
  refine ⟨⟨tests, by simpa using hle, fun _ _ => hends.iff_eq⟩, ?_, ?_, hfree⟩
  · intro hbase
    cases k with
    | zero => rfl
    | succ k => exact absurd (hknown 0 (Nat.succ_pos k)) hbase
  · intro hbase
    cases k with
    | zero => exact absurd hbase hfree
    | succ k =>
      refine ⟨k + 1, rfl, ⟨Nat.succ_pos k, hfree⟩, ?_⟩
      rintro (- | j) ⟨hj, hjfree⟩
      · exact absurd hj (by decide)
      · by_contra hlt
        exact hjfree (hknown (j + 1) (Nat.lt_of_not_le hlt))

/-- The name and two of its variants are taken. The third test finds the gap between them. -/
theorem freshName_search_gap :
    let t : Table Name := ⟨["goal", "goal-3", "at", "goal-1"], by decide⟩
    "goal" ∈ t.entries ∧ "at-1" ∉ t.entries ∧
      Loop.Ends (t.tryName "goal") ("goal", 1) 3 "goal-2" ∧ t.freshName "goal" = "goal-2" ∧
      (∃ k, t.freshName "goal" = "goal" ++ "-" ++ k.repr ∧
        IsLeast {k | 1 ≤ k ∧ "goal" ++ "-" ++ k.repr ∉ t.entries} k) ∧
      t.freshName "at-1" = "at-1" := by
  intro t
  have hbase : "goal" ∈ t.entries := by decide
  have hother : "at-1" ∉ t.entries := by decide
  have hends : Loop.Ends (t.tryName "goal") ("goal", 1) 3 "goal-2" :=
    .goOn rfl (.goOn rfl (.stop rfl))
  obtain ⟨⟨tests, -, hsearch⟩, -, hleast, -⟩ := freshName_search t "goal"
  refine ⟨hbase, hother, hends, ?_, hleast hbase, ?_⟩
  · exact ((hsearch 3 "goal-2").1 hends).2.symm
  · exact (freshName_search t "at-1").2.1 hother

end Table

end GoalCompiler
