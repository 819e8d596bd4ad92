import GoalCompiler.Formula.Depth

set_option autoImplicit false

/-! # Nodes of a formula

`Formula.nodesAt depth f` lists the nodes of `f` that are `depth` levels below the root. There are
such nodes exactly as far down as the height of the formula (`Formula.exists_mem_nodesAt_iff`), so a
statement on the depth of a formula can be proved of its nodes, a level at a time. -/

namespace GoalCompiler

namespace Formula

variable {σ : Type}

/-- The nodes of a formula at a depth, from left to right. -/
def nodesAt : Nat → Formula σ → List (Formula σ)
  | 0, f => [f]
  | depth + 1, f => f.children.flatMap (nodesAt depth)

theorem mem_nodesAt_zero {f g : Formula σ} : g ∈ f.nodesAt 0 ↔ g = f := List.mem_singleton

theorem mem_nodesAt_succ {depth : Nat} {f g : Formula σ} :
    g ∈ f.nodesAt (depth + 1) ↔ ∃ c ∈ f.children, g ∈ c.nodesAt depth := List.mem_flatMap

/-- The children of the nodes at a depth are one level deeper. -/
theorem mem_nodesAt_of_mem_children {depth : Nat} {f g c : Formula σ} (hg : g ∈ f.nodesAt depth)
    (hc : c ∈ g.children) : c ∈ f.nodesAt (depth + 1) := by
  induction depth generalizing f with
  | zero =>
    obtain rfl := mem_nodesAt_zero.1 hg
    exact mem_nodesAt_succ.2 ⟨c, hc, mem_nodesAt_zero.2 rfl⟩
  | succ depth ih =>
    obtain ⟨b, hb, hg⟩ := mem_nodesAt_succ.1 hg
    exact mem_nodesAt_succ.2 ⟨b, hb, ih hg⟩

/-- **A formula has nodes down to its height and none below.** -/
theorem exists_mem_nodesAt_iff {depth : Nat} {f : Formula σ} :
    (∃ g, g ∈ f.nodesAt depth) ↔ depth ≤ f.height := by
  induction depth generalizing f with
  | zero => simp [nodesAt]
  | succ depth ih =>
    rw [height_eq_heightBelow, Nat.succ_le_iff, lt_heightBelow_iff]
    simp only [mem_nodesAt_succ, ← ih]
    constructor
    · rintro ⟨g, c, hc, hg⟩
      exact ⟨c, hc, g, hg⟩
    · rintro ⟨c, hc, g, hg⟩
      exact ⟨g, c, hc, hg⟩

/-- A formula is too deep if it has a node on the level below the limit. -/
theorem exceedsDepth_eq_true_iff {limit : Nat} {f : Formula σ} :
    f.exceedsDepth limit = true ↔ ∃ g, g ∈ f.nodesAt (limit + 1) := by
  rw [exceedsDepth_iff_lt_height, exists_mem_nodesAt_iff, Nat.succ_le_iff]

/-! ## All nodes -/

/-- The nodes of a formula, level by level. -/
def nodes (f : Formula σ) : List (Formula σ) :=
  (List.range (f.height + 1)).flatMap fun depth => f.nodesAt depth

theorem mem_nodes_iff {f g : Formula σ} : g ∈ f.nodes ↔ ∃ depth, g ∈ f.nodesAt depth := by
  simp only [nodes, List.mem_flatMap, List.mem_range]
  constructor
  · rintro ⟨depth, -, hg⟩
    exact ⟨depth, hg⟩
  · rintro ⟨depth, hg⟩
    exact ⟨depth, Nat.lt_succ_of_le (exists_mem_nodesAt_iff.1 ⟨g, hg⟩), hg⟩

/-- The nodes are the formula itself and the nodes of its children. -/
theorem mem_nodes_iff_children {f g : Formula σ} :
    g ∈ f.nodes ↔ g = f ∨ ∃ c ∈ f.children, g ∈ c.nodes := by
  simp only [mem_nodes_iff]
  constructor
  · rintro ⟨depth, hg⟩
    cases depth with
    | zero => exact Or.inl (mem_nodesAt_zero.1 hg)
    | succ depth =>
      obtain ⟨c, hc, hg⟩ := mem_nodesAt_succ.1 hg
      exact Or.inr ⟨c, hc, depth, hg⟩
  · rintro (rfl | ⟨c, hc, depth, hg⟩)
    · exact ⟨0, mem_nodesAt_zero.2 rfl⟩
    · exact ⟨depth + 1, mem_nodesAt_succ.2 ⟨c, hc, hg⟩⟩

end Formula

end GoalCompiler
