import GoalCompiler.Formula.Basic

set_option autoImplicit false

/-! # Depth of formulas

The depth of a node is its distance from the root, and the height of a formula is the depth of its
deepest node. `Formula.height` is the recursive definition. `Formula.exceedsDepth` answers whether
the height is above a limit by walking down a level at a time; it needs no stack, so it can be asked
of any formula before the passes that do recurse. -/

namespace GoalCompiler

namespace Formula

variable {σ : Type}

/-! ## Height -/

mutual

/-- The depth of the deepest node. -/
def height : Formula σ → Nat
  | and fs => heightBelow fs
  | or fs => heightBelow fs
  | not f => f.height + 1
  | imply l r => max (l.height + 1) (r.height + 1)
  | quantified _ _ f => f.height + 1
  | compare _ l r => max (l.height + 1) (r.height + 1)
  | binary _ l r => max (l.height + 1) (r.height + 1)
  | unary _ f => f.height + 1
  | window _ a b c => max (a.height + 1) (max (b.height + 1) (c.height + 1))
  | ordering _ l r => max (l.height + 1) (r.height + 1)
  | hold _ t c => max (t.height + 1) (c.height + 1)
  | holdBetween a b c => max (a.height + 1) (max (b.height + 1) (c.height + 1))
  | _ => 0

/-- The height of a node with these children: zero without any, else one more than the height of
    the highest. -/
def heightBelow : List (Formula σ) → Nat
  | [] => 0
  | f :: fs => max (f.height + 1) (heightBelow fs)

end

theorem height_eq_heightBelow (f : Formula σ) : f.height = heightBelow f.children := by
  cases f <;> simp [height, heightBelow, children]

/-- A node with these children is higher than `limit` exactly when one of them is at least that
    high. -/
theorem lt_heightBelow_iff {limit : Nat} {fs : List (Formula σ)} :
    limit < heightBelow fs ↔ ∃ f ∈ fs, limit ≤ f.height := by
  induction fs with
  | nil => simp [heightBelow]
  | cons f fs ih =>
    simp only [heightBelow, List.mem_cons, exists_eq_or_imp, ← ih]
    omega

/-! ## Walking down the levels -/

/-- Whether some node lies more than `limit` levels below the nodes of `level`. -/
def exceedsDepthFrom : Nat → List (Formula σ) → Bool
  | 0, level => !(level.flatMap children).isEmpty
  | limit + 1, level =>
    let next := level.flatMap children
    !next.isEmpty && exceedsDepthFrom limit next

theorem exceedsDepthFrom_iff {limit : Nat} {level : List (Formula σ)} :
    exceedsDepthFrom limit level = true ↔ ∃ f ∈ level, limit < f.height := by
  induction limit generalizing level with
  | zero =>
    simp only [exceedsDepthFrom, Bool.not_eq_true', List.isEmpty_eq_false_iff_exists_mem,
      List.mem_flatMap, height_eq_heightBelow, lt_heightBelow_iff, Nat.zero_le, and_true]
    exact ⟨fun ⟨c, f, hf, hc⟩ => ⟨f, hf, c, hc⟩, fun ⟨f, hf, c, hc⟩ => ⟨c, f, hf, hc⟩⟩
  | succ limit ih =>
    simp only [exceedsDepthFrom, Bool.and_eq_true, ih, Bool.not_eq_true',
      List.isEmpty_eq_false_iff_exists_mem, List.mem_flatMap]
    constructor
    · rintro ⟨-, c, ⟨f, hf, hc⟩, hlt⟩
      refine ⟨f, hf, ?_⟩
      rw [height_eq_heightBelow f, lt_heightBelow_iff]
      exact ⟨c, hc, hlt⟩
    · rintro ⟨f, hf, hlt⟩
      rw [height_eq_heightBelow f, lt_heightBelow_iff] at hlt
      obtain ⟨c, hc, hlt⟩ := hlt
      exact ⟨⟨c, f, hf, hc⟩, c, ⟨f, hf, hc⟩, hlt⟩

/-- Whether some node is deeper than `limit`; the root has depth 0. -/
def exceedsDepth (f : Formula σ) (limit : Nat) : Bool := exceedsDepthFrom limit [f]

theorem exceedsDepth_iff_lt_height {limit : Nat} {f : Formula σ} :
    f.exceedsDepth limit = true ↔ limit < f.height := by
  rw [exceedsDepth, exceedsDepthFrom_iff]
  simp only [List.mem_singleton, exists_eq_left]

end Formula

end GoalCompiler
