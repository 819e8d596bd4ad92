import GoalCompiler.Proofs.Formula.Nodes
import GoalCompiler.Proofs.Resolution.Scope

set_option autoImplicit false

/-! # Depth of resolved formulas

Resolution checks the depth of every formula that it resolves, with one level for each variable of a
quantifier. So the depths it checks are depths in the resolved formula, and one would expect that
this is never deeper than the limit. But task occurrences are nodes too, and they are not checked:
they are read off their labels where the constraint is resolved. In a method constraint the
condition stands on the same level, and the condition is checked. In an ordering nothing else does.

So a resolved formula is deeper than the limit exactly if it has an ordering on the last level that
the limit allows, and then it is deeper by the occurrences of such orderings alone
(`Formula.exceedsDepth_iff_of_resolve`). -/

namespace GoalCompiler

section

variable {p : Problem} {config : Config} {scope : List Name} {depth : Nat}

theorem ResolvesTo.shallow {f : Formula Name} {t : Formula Index}
    (h : ResolvesTo p config scope depth f t) : depth ≤ config.maxDepth := by
  cases h <;> assumption

/-- One step down: a child of a resolved formula is resolved one level below, or it is a task
    occurrence. In the second case it belongs to an ordering, or its level was checked for the
    condition beside it. -/
theorem ResolvesTo.child {f : Formula Name} {t c : Formula Index}
    (h : ResolvesTo p config scope depth f t) (hc : c ∈ t.children) :
    (∃ scope' g, ResolvesTo p config scope' (depth + 1) g c) ∨
      (∃ timed i, c = .occurrence timed i) ∧
        ((∃ o l r, t = .ordering o l r) ∨ depth + 1 ≤ config.maxDepth) := by
  cases h with
  | atom | function | equality | constant | number | elapsed | violated | task =>
    exact absurd hc (by simp [Formula.children])
  | and shallow length members =>
    obtain ⟨g, -, hg⟩ := exists_mem_of_forall₂ (List.forall₂_iff_zip.2 ⟨length, members⟩) hc
    exact Or.inl ⟨_, g, hg⟩
  | or shallow length members =>
    obtain ⟨g, -, hg⟩ := exists_mem_of_forall₂ (List.forall₂_iff_zip.2 ⟨length, members⟩) hc
    exact Or.inl ⟨_, g, hg⟩
  | not shallow body | unary shallow body | bindLast shallow typed known bound body
  | bindFirst shallow typed known bound body =>
    obtain rfl := List.mem_singleton.1 hc
    exact Or.inl ⟨_, _, body⟩
  | imply shallow left right | compare shallow left right | binary shallow left right =>
    simp only [Formula.children, List.mem_cons, List.not_mem_nil, or_false] at hc
    rcases hc with rfl | rfl
    · exact Or.inl ⟨_, _, left⟩
    · exact Or.inl ⟨_, _, right⟩
  | window shallow first second third =>
    simp only [Formula.children, List.mem_cons, List.not_mem_nil, or_false] at hc
    rcases hc with rfl | rfl | rfl
    · exact Or.inl ⟨_, _, first⟩
    · exact Or.inl ⟨_, _, second⟩
    · exact Or.inl ⟨_, _, third⟩
  | ordering shallow left right =>
    obtain ⟨timed, i, -, rfl⟩ := Formula.exists_of_resolveOccurrence left
    obtain ⟨timed', j, -, rfl⟩ := Formula.exists_of_resolveOccurrence right
    simp only [Formula.children, List.mem_cons, List.not_mem_nil, or_false] at hc
    rcases hc with rfl | rfl
    · exact Or.inr ⟨⟨_, _, rfl⟩, Or.inl ⟨_, _, _, rfl⟩⟩
    · exact Or.inr ⟨⟨_, _, rfl⟩, Or.inl ⟨_, _, _, rfl⟩⟩
  | hold shallow occurrence condition =>
    obtain ⟨timed, i, -, rfl⟩ := Formula.exists_of_resolveOccurrence occurrence
    simp only [Formula.children, List.mem_cons, List.not_mem_nil, or_false] at hc
    rcases hc with rfl | rfl
    · exact Or.inr ⟨⟨_, _, rfl⟩, Or.inr condition.shallow⟩
    · exact Or.inl ⟨_, _, condition⟩
  | holdBetween shallow first second condition =>
    obtain ⟨timed, i, -, rfl⟩ := Formula.exists_of_resolveOccurrence first
    obtain ⟨timed', j, -, rfl⟩ := Formula.exists_of_resolveOccurrence second
    simp only [Formula.children, List.mem_cons, List.not_mem_nil, or_false] at hc
    rcases hc with rfl | rfl | rfl
    · exact Or.inr ⟨⟨_, _, rfl⟩, Or.inr condition.shallow⟩
    · exact Or.inr ⟨⟨_, _, rfl⟩, Or.inr condition.shallow⟩
    · exact Or.inl ⟨_, _, condition⟩

/-- All the way down: a node below the limit hangs on an ordering that stands on the last level
    above it. The induction is on the level of the node. -/
theorem ResolvesTo.exists_ordering {f : Formula Name} {t g : Formula Index} {level : Nat}
    (h : ResolvesTo p config scope depth f t) (hg : g ∈ t.nodesAt level)
    (hdeep : config.maxDepth < depth + level) :
    ∃ k o l r, depth + k = config.maxDepth ∧ .ordering o l r ∈ t.nodesAt k := by
  induction level generalizing scope depth f t with
  | zero => exact absurd h.shallow (Nat.not_le_of_lt hdeep)
  | succ level ih =>
    obtain ⟨c, hc, hg⟩ := Formula.mem_nodesAt_succ.1 hg
    rcases h.child hc with ⟨scope', f', hchild⟩ | ⟨⟨timed, i, rfl⟩, hparent⟩
    · obtain ⟨k, o, l, r, hk, hmem⟩ := ih hchild hg (by omega)
      exact ⟨k + 1, o, l, r, by omega, Formula.mem_nodesAt_succ.2 ⟨c, hc, hmem⟩⟩
    · -- An occurrence has no children, so it is the node itself.
      have hlevel : level = 0 := by
        have hheight := Formula.exists_mem_nodesAt_iff.1 ⟨g, hg⟩
        exact Nat.le_zero.1 hheight
      have hshallow := h.shallow
      rcases hparent with ⟨o, l, r, rfl⟩ | hchecked
      · exact ⟨0, o, l, r, by omega, Formula.mem_nodesAt_zero.2 rfl⟩
      · omega

end

namespace Formula

/-- **A resolved formula is too deep exactly if it has an ordering on the last level allowed.** -/
theorem exceedsDepth_iff_of_resolve {p : Problem} {config : Config} {scope : List Name}
    {f : Formula Name} {t : Formula Index} (h : f.resolve p config scope = .ok t) :
    t.exceedsDepth config.maxDepth = true ↔
      ∃ o l r, ordering o l r ∈ t.nodesAt config.maxDepth := by
  rw [exceedsDepth_eq_true_iff]
  constructor
  · intro hdeep
    obtain ⟨g, hg⟩ := hdeep
    have hrelation : ResolvesTo p config scope 0 f t := resolveAt_eq_ok_iff.1 h
    obtain ⟨k, o, l, r, hk, hmem⟩ := hrelation.exists_ordering hg (by omega)
    rw [Nat.zero_add] at hk
    exact ⟨o, l, r, hk ▸ hmem⟩
  · intro hordering
    obtain ⟨o, l, r, hmem⟩ := hordering
    have hleft : l ∈ (ordering o l r).children := by simp [children]
    exact ⟨l, mem_nodesAt_of_mem_children hmem hleft⟩

end Formula

end GoalCompiler
