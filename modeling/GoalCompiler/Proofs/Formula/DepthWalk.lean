import GoalCompiler.Proofs.Formula.Nodes
import GoalCompiler.Proofs.Loop
import Mathlib.Algebra.BigOperators.Group.List.Basic
import Mathlib.Algebra.GroupWithZero.Nat

set_option autoImplicit false

/-! # Measuring depth with a stack

`Formula.exceedsDepth` goes down a formula a level at a time. The other way to do it without
recursion is a stack of nodes that are still to be looked at, each with its depth (`Formula.visit`).

The invariant of that loop is that the nodes on the stack decide the answer (`Formula.Reaches`). Its
measure is the number of nodes that are still to come (`Formula.unvisited`), which a round lowers by
the one that it takes from the stack. So the walk ends after at most one round more than there are
nodes, and both ways compare the height with the limit (`Formula.exceedsDepth_walk`). -/

namespace GoalCompiler

namespace Formula

variable {σ : Type}

/-! ## Height -/

/-- The height is zero without children, and else one more than the greatest of their heights. -/
theorem height_eq_max? (f : Formula σ) :
    f.height = ((f.children.map height).max?.map (· + 1)).getD 0 := by
  rw [height_eq_heightBelow]
  induction f.children with
  | nil => rfl
  | cons c cs ih =>
    rw [heightBelow, ih, List.map_cons, List.max?_cons]
    cases (cs.map height).max? with
    | none => simp
    | some h => simp [Nat.succ_max_succ]

theorem height_lt_of_mem_children {f c : Formula σ} (h : c ∈ f.children) : c.height < f.height := by
  rw [height_eq_heightBelow f, lt_heightBelow_iff]
  exact ⟨c, h, Nat.le_refl _⟩

/-! ## The number of nodes -/

/-- There is nothing more to list below the height. -/
theorem flatMap_nodesAt_eq_nodes {f : Formula σ} {levels : Nat} (h : f.height < levels) :
    (List.range levels).flatMap (fun depth => f.nodesAt depth) = f.nodes := by
  induction h with
  | refl => rfl
  | @step levels hle ih =>
    have hnone : f.nodesAt levels = [] := by
      rw [List.eq_nil_iff_forall_not_mem]
      intro g hg
      exact absurd (exists_mem_nodesAt_iff.1 ⟨g, hg⟩) (Nat.not_le_of_lt hle)
    rw [List.range_succ, List.flatMap_append, List.flatMap_singleton, hnone, List.append_nil, ih]

/-- The nodes of some levels are the root and those of the children, one level less of each. -/
theorem length_flatMap_nodesAt (f : Formula σ) (levels : Nat) :
    ((List.range (levels + 1)).flatMap fun depth => f.nodesAt depth).length =
      (f.children.map fun c =>
        ((List.range levels).flatMap fun depth => c.nodesAt depth).length).sum + 1 := by
  induction levels with
  | zero => simp [nodesAt]
  | succ levels ih =>
    have hlevel : (f.nodesAt (levels + 1)).length =
        (f.children.map fun c => (c.nodesAt levels).length).sum := List.length_flatMap
    rw [List.range_succ, List.flatMap_append, List.flatMap_singleton, List.length_append, ih,
      hlevel, Nat.add_right_comm, ← List.sum_map_add]
    simp only [List.range_succ, List.flatMap_append, List.flatMap_singleton, List.length_append]

theorem length_nodes (f : Formula σ) :
    f.nodes.length = (f.children.map fun c => c.nodes.length).sum + 1 := by
  rw [nodes, length_flatMap_nodesAt]
  congr 2
  refine List.map_congr_left ?_
  intro c hc
  rw [flatMap_nodesAt_eq_nodes (height_lt_of_mem_children hc)]

/-! ## The walk -/

/-- One round of the walk, with the top of the stack in front. The node on top is taken off. If it
    is too deep, the walk is over, and if not, its children are put on the stack from left to
    right. -/
def visit (limit : Nat) : List (Formula σ × Nat) → Bool ⊕ List (Formula σ × Nat)
  | [] => .inl false
  | (f, depth) :: pending =>
    if limit < depth then .inl true
    else .inr ((f.children.map (·, depth + 1)).reverse ++ pending)

/-- Whether some node is too deep that is on the stack or below a node on it. -/
def Reaches (limit : Nat) (pending : List (Formula σ × Nat)) : Prop :=
  ∃ x ∈ pending, limit < x.2 + x.1.height

/-- The number of nodes that are on the stack or below a node on it. -/
def unvisited (pending : List (Formula σ × Nat)) : Nat :=
  (pending.map fun x => x.1.nodes.length).sum

theorem reaches_cons_iff {limit : Nat} {x : Formula σ × Nat} {pending : List (Formula σ × Nat)} :
    Reaches limit (x :: pending) ↔ limit < x.2 + x.1.height ∨ Reaches limit pending := by
  simp [Reaches]

/-- The children of a node within the limit decide the same as the node. -/
theorem reaches_children_iff {limit depth : Nat} {f : Formula σ} {pending : List (Formula σ × Nat)}
    (hdepth : depth ≤ limit) :
    Reaches limit ((f.children.map (·, depth + 1)).reverse ++ pending) ↔
      limit < depth + f.height ∨ Reaches limit pending := by
  have hchildren : limit < depth + f.height ↔ ∃ c ∈ f.children, limit < depth + 1 + c.height := by
    have hlevels : limit - depth < f.height ↔ ∃ c ∈ f.children, limit - depth ≤ c.height := by
      rw [height_eq_heightBelow, lt_heightBelow_iff]
    constructor
    · intro h
      obtain ⟨c, hc, hle⟩ := hlevels.1 (by omega)
      exact ⟨c, hc, by omega⟩
    · rintro ⟨c, hc, hle⟩
      have hlt := hlevels.2 ⟨c, hc, by omega⟩
      omega
  rw [hchildren]
  simp only [Reaches, List.mem_append, List.mem_reverse, List.mem_map, or_and_right, exists_or]
  constructor
  · rintro (⟨-, ⟨c, hc, rfl⟩, h⟩ | h)
    · exact Or.inl ⟨c, hc, h⟩
    · exact Or.inr h
  · rintro (⟨c, hc, h⟩ | h)
    · exact Or.inl ⟨_, ⟨c, hc, rfl⟩, h⟩
    · exact Or.inr h

/-- A round answers rightly or goes on with the same answer ahead and one node less. -/
theorem visit_progress {limit : Nat} {answer : Bool} {pending : List (Formula σ × Nat)}
    (h : answer = true ↔ Reaches limit pending) :
    (∃ a, visit limit pending = .inl a ∧ a = answer) ∨
      ∃ pending', visit limit pending = .inr pending' ∧ (answer = true ↔ Reaches limit pending') ∧
        unvisited pending' < unvisited pending := by
  cases pending with
  | nil =>
    refine Or.inl ⟨false, rfl, ?_⟩
    symm
    rw [← Bool.not_eq_true, h]
    simp [Reaches]
  | cons x pending =>
    obtain ⟨f, depth⟩ := x
    rw [reaches_cons_iff] at h
    by_cases hdepth : limit < depth
    · refine Or.inl ⟨true, by rw [visit, if_pos hdepth], ?_⟩
      exact (h.2 (Or.inl (Nat.lt_add_right _ hdepth))).symm
    · refine Or.inr ⟨_, by rw [visit, if_neg hdepth], ?_, ?_⟩
      · rw [h, reaches_children_iff (Nat.le_of_not_lt hdepth)]
      · simp only [unvisited, List.map_append, List.map_reverse, List.map_map, List.sum_append,
          List.sum_reverse, List.map_cons, List.sum_cons, length_nodes f]
        simp only [Function.comp_def]
        omega

/-- **Walking down a formula with a stack ends, and answers whether the height is above the limit.**
    So does walking a level at a time. -/
theorem exceedsDepth_walk (f : Formula σ) (limit : Nat) :
    (∃ rounds, rounds ≤ f.nodes.length + 1 ∧ ∀ n answer,
      Loop.Ends (visit limit) [(f, 0)] n answer ↔ n = rounds ∧ answer = f.exceedsDepth limit) ∧
    (f.exceedsDepth limit = true ↔ limit < f.height) ∧
    f.height = ((f.children.map height).max?.map (· + 1)).getD 0 := by
  have hstart : f.exceedsDepth limit = true ↔ Reaches limit [(f, 0)] := by
    rw [exceedsDepth_iff_lt_height]
    simp [Reaches]
  obtain ⟨rounds, answer, hle, hends, rfl⟩ :=
    Loop.exists_ends unvisited (fun _ => visit_progress) hstart
  refine ⟨⟨rounds, ?_, fun _ _ => hends.iff_eq⟩, exceedsDepth_iff_lt_height, height_eq_max? f⟩
  simpa [unvisited] using hle

end Formula

end GoalCompiler
