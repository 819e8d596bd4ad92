set_option autoImplicit false

/-! # Symbol tables

A table is an append-only list without repetitions. The position at which an entry was first put in
is its index for good: adding an entry again gives back the old position, and adding a new one never
moves an old one. -/

namespace GoalCompiler

/-- Distinct entries in the order in which they were first added. -/
structure Table (α : Type) where
  entries : List α
  nodup : entries.Nodup

namespace Table

variable {α : Type}

/-- The table without entries. -/
def empty : Table α := ⟨[], .nil⟩

def size (t : Table α) : Nat := t.entries.length

/-- The entry at a position. -/
def get? (t : Table α) (position : Nat) : Option α := t.entries[position]?

theorem nodup_append_singleton {as : List α} {a : α} (has : as.Nodup) (ha : a ∉ as) :
    (as ++ [a]).Nodup := by
  refine List.nodup_append.2 ⟨has, by simp, fun x hx y hy heq => ha ?_⟩
  rwa [← List.mem_singleton.1 hy, ← heq]

@[ext]
theorem ext {s t : Table α} (h : s.entries = t.entries) : s = t := by
  cases s; cases t; cases h; rfl

variable [DecidableEq α]

/-- The position of an entry. -/
def position? (t : Table α) (a : α) : Option Nat := t.entries.idxOf? a

def contains (t : Table α) (a : α) : Bool := t.entries.contains a

/-- Append an entry, unless the table has it. -/
def insert (t : Table α) (a : α) : Table α :=
  if h : a ∈ t.entries then t
  else ⟨t.entries ++ [a], nodup_append_singleton t.nodup h⟩

/-- Add an entry: its position, old or new, and the table that has it. -/
def add (t : Table α) (a : α) : Nat × Table α := ((t.position? a).getD t.size, t.insert a)

/-! ## Positions -/

theorem contains_iff_mem {t : Table α} {a : α} : t.contains a = true ↔ a ∈ t.entries := by
  simp [contains]

theorem position?_eq_none_iff {t : Table α} {a : α} : t.position? a = none ↔ a ∉ t.entries := by
  simp [position?]

/-- Positions and entries are inverse to each other. -/
theorem position?_eq_some_iff {t : Table α} {a : α} {i : Nat} :
    t.position? a = some i ↔ t.get? i = some a := by
  simp only [position?, get?, List.idxOf?_eq_some_iff, List.getElem?_eq_some_iff]
  constructor
  · rintro ⟨hi, ha, -⟩
    exact ⟨hi, ha⟩
  · rintro ⟨hi, ha⟩
    refine ⟨hi, ha, fun j hj hja => ?_⟩
    exact absurd ((List.getElem_inj t.nodup).1 (hja.trans ha.symm)) (Nat.ne_of_lt hj)

theorem mem_of_position? {t : Table α} {a : α} {i : Nat} (h : t.position? a = some i) :
    a ∈ t.entries :=
  List.mem_of_getElem? (position?_eq_some_iff.1 h)

/-- The position of an entry is below the size. -/
theorem lt_size_of_position? {t : Table α} {a : α} {i : Nat} (h : t.position? a = some i) :
    i < t.size :=
  (List.getElem?_eq_some_iff.1 (position?_eq_some_iff.1 h)).1

theorem entries_insert (t : Table α) (a : α) :
    (t.insert a).entries = if a ∈ t.entries then t.entries else t.entries ++ [a] := by
  unfold insert
  split <;> rfl

theorem mem_entries_insert {t : Table α} {a b : α} :
    b ∈ (t.insert a).entries ↔ b = a ∨ b ∈ t.entries := by
  rw [entries_insert]
  split
  · next h =>
    constructor
    · exact Or.inr
    · rintro (rfl | hb)
      · exact h
      · exact hb
  · rw [List.mem_append, List.mem_singleton, Or.comm]

theorem insert_of_mem {t : Table α} {a : α} (h : a ∈ t.entries) : t.insert a = t := dif_pos h

theorem entries_insert_of_not_mem {t : Table α} {a : α} (h : a ∉ t.entries) :
    (t.insert a).entries = t.entries ++ [a] := by
  rw [entries_insert, if_neg h]

/-- A new entry gets the next position. -/
theorem add_fst_of_not_mem {t : Table α} {a : α} (h : a ∉ t.entries) : (t.add a).1 = t.size := by
  rw [add, position?_eq_none_iff.2 h]
  rfl

/-- Adding keeps every position. -/
theorem entries_prefix_insert (t : Table α) (a : α) : t.entries <+: (t.insert a).entries := by
  rw [entries_insert]
  split
  · exact List.prefix_rfl
  · exact List.prefix_append ..

end Table

end GoalCompiler
