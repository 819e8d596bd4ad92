set_option autoImplicit false

/-! # Sets of fluents

Ground facts are numbered, and a set of them is the strictly ascending list of its members. Each set
has exactly one such list, so equal sets are equal values and print alike, however they were built. -/

namespace GoalCompiler

/-- The number of a ground fact. -/
abbrev FluentId := Nat

/-- The first number, `2 ^ 32`, that is no fluent: fluents are unsigned 32-bit numbers. -/
def fluentLimit : Nat := 0x100000000

/-- A text in braces. -/
def braced (text : String) : String := String.singleton '{' ++ text ++ String.singleton '}'

theorem toList_braced (text : String) : (braced text).toList = '{' :: (text.toList ++ ['}']) := by
  simp [braced]

/-- A finite set of fluents. -/
structure FluentSet where
  members : List FluentId
  ascending : members.Pairwise (· < ·)
deriving DecidableEq

namespace FluentSet

/-! ## Operations -/

def empty : FluentSet := ⟨[], .nil⟩

def isEmpty (s : FluentSet) : Bool := s.members.isEmpty

def size (s : FluentSet) : Nat := s.members.length

def contains (s : FluentSet) (x : FluentId) : Bool := s.members.contains x

/-- Put a number into an ascending list, unless it is there. -/
def insertMember (x : Nat) : List Nat → List Nat
  | [] => [x]
  | y :: ys =>
    if x < y then x :: y :: ys
    else if x = y then y :: ys
    else y :: insertMember x ys

theorem mem_insertMember {x z : Nat} {ys : List Nat} :
    z ∈ insertMember x ys ↔ z = x ∨ z ∈ ys := by
  induction ys with
  | nil => simp [insertMember]
  | cons y ys ih =>
    unfold insertMember
    split
    · simp
    · split
      · next h => subst h; simp
      · simp only [List.mem_cons, ih]
        constructor
        · rintro (h | h | h)
          · exact .inr (.inl h)
          · exact .inl h
          · exact .inr (.inr h)
        · rintro (h | h | h)
          · exact .inr (.inl h)
          · exact .inl h
          · exact .inr (.inr h)

theorem pairwise_insertMember {x : Nat} {ys : List Nat} (h : ys.Pairwise (· < ·)) :
    (insertMember x ys).Pairwise (· < ·) := by
  induction ys with
  | nil => simp [insertMember]
  | cons y ys ih =>
    obtain ⟨hy, hys⟩ := List.pairwise_cons.1 h
    unfold insertMember
    split
    · next hxy =>
      refine List.pairwise_cons.2 ⟨fun z hz => ?_, h⟩
      rcases List.mem_cons.1 hz with rfl | hz
      · exact hxy
      · exact Nat.lt_trans hxy (hy z hz)
    · split
      · exact h
      · next hlt hne =>
        refine List.pairwise_cons.2 ⟨fun z hz => ?_, ih hys⟩
        rcases mem_insertMember.1 hz with rfl | hz
        · omega
        · exact hy z hz

def insert (s : FluentSet) (x : FluentId) : FluentSet :=
  ⟨insertMember x s.members, pairwise_insertMember s.ascending⟩

/-- Add a fluent: whether it was new, and the set with it. -/
def add (s : FluentSet) (x : FluentId) : Bool × FluentSet := (!s.contains x, s.insert x)

def singleton (x : FluentId) : FluentSet := empty.insert x

def ofList (xs : List FluentId) : FluentSet := xs.foldl insert empty

def union (s t : FluentSet) : FluentSet := t.members.foldl insert s

/-- Whether two sets have no member in common. -/
def isDisjoint (s t : FluentSet) : Bool := s.members.all fun x => !t.contains x

/-- The members in braces, ascending. -/
def text (s : FluentSet) : String := braced (", ".intercalate (s.members.map Nat.repr))

/-! ## Membership -/

instance : Membership FluentId FluentSet := ⟨fun s x => x ∈ s.members⟩

theorem mem_iff {s : FluentSet} {x : FluentId} : x ∈ s ↔ x ∈ s.members := Iff.rfl

theorem contains_iff_mem {s : FluentSet} {x : FluentId} : s.contains x = true ↔ x ∈ s := by
  simp [contains, mem_iff]

theorem mem_insert {s : FluentSet} {x z : FluentId} : z ∈ s.insert x ↔ z = x ∨ z ∈ s :=
  mem_insertMember

theorem mem_foldl_insert {xs : List FluentId} {s : FluentSet} {z : FluentId} :
    z ∈ xs.foldl insert s ↔ z ∈ xs ∨ z ∈ s := by
  induction xs generalizing s with
  | nil => simp
  | cons x xs ih => simp only [List.foldl_cons, ih, mem_insert, List.mem_cons]; grind

theorem not_mem_empty {z : FluentId} : z ∉ empty := by simp [mem_iff, empty]

theorem mem_singleton {x z : FluentId} : z ∈ singleton x ↔ z = x := by
  simp [singleton, mem_insert, not_mem_empty]

theorem mem_ofList {xs : List FluentId} {z : FluentId} : z ∈ ofList xs ↔ z ∈ xs := by
  simp [ofList, mem_foldl_insert, not_mem_empty]

theorem mem_union {s t : FluentSet} {z : FluentId} : z ∈ s.union t ↔ z ∈ s ∨ z ∈ t := by
  rw [union, mem_foldl_insert]
  exact Or.comm

theorem isDisjoint_iff {s t : FluentSet} : s.isDisjoint t = true ↔ ∀ x ∈ s, x ∉ t := by
  simp [isDisjoint, contains, mem_iff]

/-! ## One list for each set -/

theorem nodup_members (s : FluentSet) : s.members.Nodup := s.ascending.imp Nat.ne_of_lt

/-- A set is determined by its members. -/
theorem ext_mem {s t : FluentSet} (h : ∀ x, x ∈ s ↔ x ∈ t) : s = t := by
  have hperm : s.members.Perm t.members :=
    (List.perm_ext_iff_of_nodup s.nodup_members t.nodup_members).2 h
  have hmembers : s.members = t.members := by
    refine List.Perm.eq_of_pairwise ?_ s.ascending t.ascending hperm
    intro x y _ _ hxy hyx
    exact absurd hxy (Nat.lt_asymm hyx)
  cases s
  cases t
  cases hmembers
  rfl

theorem ofList_append (xs ys : List FluentId) :
    ofList (xs ++ ys) = (ofList xs).union (ofList ys) := by
  apply ext_mem
  intro x
  rw [mem_union, mem_ofList, mem_ofList, mem_ofList, List.mem_append]

end FluentSet

end GoalCompiler
