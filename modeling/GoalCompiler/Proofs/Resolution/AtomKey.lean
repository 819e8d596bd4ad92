import GoalCompiler.Condition.Conjunction
import GoalCompiler.Proofs.Condition.Literals
import GoalCompiler.Proofs.Resolution.Depth

set_option autoImplicit false

/-! # Keys of resolved atoms

The fluent of an atom is looked up under a key, `GroundAtom.ofApplication`, that keeps the indices of
the arguments but not whether they are variables or constants. The sign makes up for it: at every
place of a resolved formula the index of a variable is negative and that of a constant is not
(`Term.WellScoped`). So two resolved atoms with the same key are equal, whatever the formulas, the
scopes and the limits they were resolved with, and an atom with a variable is never taken for a
registered one that has only objects for arguments (`GroundAtom.ofFormula?_resolved`). -/

namespace GoalCompiler

/-- Whether an atom stands anywhere in a formula that resolution gives in the problem. -/
def Problem.IsResolvedAtom (p : Problem) (a : Application Index) : Prop :=
  ∃ (config : Config) (scope : List Name) (f : Formula Name) (t : Formula Index),
    f.resolve p config scope = .ok t ∧ .atom a ∈ t.nodes

/-! ## Atoms below -/

section

variable {p : Problem}

/-- Every atom of a resolved formula was resolved in some scope. The induction is on its level. -/
theorem ResolvesTo.exists_head {config : Config} {scope : List Name} {depth level : Nat}
    {f : Formula Name} {t : Formula Index} {a : Application Index}
    (h : ResolvesTo p config scope depth f t) (ha : .atom a ∈ t.nodesAt level) :
    ∃ (inner : List Name) (head : Application Name), head.resolve p .predicate inner = .ok a := by
  induction level generalizing scope depth f t with
  | zero =>
    obtain rfl := Formula.mem_nodesAt_zero.1 ha
    cases h with
    | atom shallow resolved => exact ⟨_, _, resolved⟩
  | succ level ih =>
    obtain ⟨c, hc, ha⟩ := Formula.mem_nodesAt_succ.1 ha
    rcases h.child hc with ⟨inner, g, hchild⟩ | ⟨⟨timed, i, rfl⟩, -⟩
    · exact ih hchild ha
    · -- A task occurrence has no nodes but itself.
      have hnode := Formula.mem_nodes_iff_children.1 (Formula.mem_nodes_iff.2 ⟨level, ha⟩)
      exact absurd hnode (by simp [Formula.children])

theorem Problem.IsResolvedAtom.wellScoped {a : Application Index} (h : p.IsResolvedAtom a) :
    ∃ n, a.WellScoped p .predicate n := by
  obtain ⟨config, scope, f, t, hresolve, ha⟩ := h
  obtain ⟨level, ha⟩ := Formula.mem_nodes_iff.1 ha
  have hrelation : ResolvesTo p config scope 0 f t := Formula.resolveAt_eq_ok_iff.1 hresolve
  obtain ⟨inner, head, hhead⟩ := hrelation.exists_head ha
  exact ⟨inner.length, Application.wellScoped_of_resolve hhead⟩

/-! ## Signs -/

theorem Term.WellScoped.neg_iff {n : Nat} {s : Term Index} (h : s.WellScoped p n) :
    s.symbol < 0 ↔ s.isVariable = true := by
  cases s with
  | «variable» i =>
    obtain ⟨-, hneg⟩ := h
    exact ⟨fun _ => rfl, fun _ => Int.lt_of_le_of_lt hneg (by decide)⟩
  | constant i =>
    obtain ⟨hpos, -⟩ := h
    exact ⟨fun hlt => absurd hlt (Int.not_lt.2 hpos), fun hvar => absurd hvar (by simp [isVariable])⟩

/-- The index of a term, with its sign, is the term. -/
theorem Term.WellScoped.eq_of_symbol_eq {m n : Nat} {s t : Term Index} (hs : s.WellScoped p m)
    (ht : t.WellScoped p n) (h : s.symbol = t.symbol) : s = t := by
  have hkind : s.isVariable = t.isVariable := by
    rw [Bool.eq_iff_iff, ← hs.neg_iff, ← ht.neg_iff, h]
  cases s <;> cases t <;> simp_all [isVariable, symbol]

/-- A list of terms is determined by its indices. -/
theorem Term.eq_of_map_symbol_eq {m n : Nat} {ss ts : List (Term Index)}
    (hs : ∀ s ∈ ss, s.WellScoped p m) (ht : ∀ t ∈ ts, t.WellScoped p n)
    (h : ss.map Term.symbol = ts.map Term.symbol) : ss = ts := by
  refine eq_of_map_eq_map h ?_
  intro s hmem t hmem'
  exact (hs s hmem).eq_of_symbol_eq (ht t hmem')

theorem Application.WellScoped.eq_of_key_eq {m n : Nat} {a b : Application Index}
    (ha : a.WellScoped p .predicate m) (hb : b.WellScoped p .predicate n)
    (h : GroundAtom.ofApplication a = GroundAtom.ofApplication b) : a = b := by
  obtain ⟨hsymbol, harguments⟩ := GroundAtom.mk.inj h
  have hterms := Term.eq_of_map_symbol_eq ha.arguments hb.arguments harguments
  cases a
  cases b
  rw [Application.mk.injEq]
  exact ⟨hsymbol, hterms⟩

/-! ## Look-up -/

/-- An atom with a variable has a negative index in its key, so it is not registered if no such key
    is. -/
theorem Problem.requireFluent_of_variable {n : Nat} {a : Application Index}
    (hfluents : ∀ g ∈ p.fluents.entries, ∀ i ∈ g.arguments, 0 ≤ i)
    (ha : a.WellScoped p .predicate n) (hvariable : ∃ s ∈ a.arguments, s.isVariable = true) :
    p.requireFluent a = .error (.unregistered (.ofApplication a)) := by
  have hmissing : p.fluent? (.ofApplication a) = none := by
    rw [Option.eq_none_iff_forall_ne_some]
    intro x hx
    have hmem := Table.mem_of_position? (fluent?_eq_some_iff.1 hx).1
    obtain ⟨s, hs, hvariable⟩ := hvariable
    have hneg : s.symbol < 0 := (ha.arguments s hs).neg_iff.2 hvariable
    have hpos : 0 ≤ s.symbol := hfluents _ hmem _ (List.mem_map_of_mem hs)
    exact absurd hneg (Int.not_lt.2 hpos)
  rw [requireFluent, hmissing]

end

namespace GroundAtom

/-- **The key of a resolved atom determines the atom.** So if all registered atoms have objects for
    arguments, a resolved atom with a variable is reported as not registered wherever it stands in a
    conjunction, negated or not. -/
theorem ofFormula?_resolved (p : Problem) :
    (∀ a b, p.IsResolvedAtom a → p.IsResolvedAtom b →
      (ofFormula? (.atom a) = ofFormula? (.atom b) ↔ a = b)) ∧
    ((∀ g ∈ p.fluents.entries, ∀ i ∈ g.arguments, 0 ≤ i) →
      ∀ a, p.IsResolvedAtom a → (∃ s ∈ a.arguments, s.isVariable = true) →
      ∀ (config : Config) (depth : Nat), depth ≤ config.maxDepth →
        Condition.ofFormulaAt p config depth (.atom a) = .error (.unregistered (ofApplication a)) ∧
        Condition.ofFormulaAt p config depth (.not (.atom a)) =
          .error (.unregistered (ofApplication a))) := by
  refine ⟨?_, ?_⟩
  · intro a b ha hb
    obtain ⟨m, ha⟩ := ha.wellScoped
    obtain ⟨n, hb⟩ := hb.wellScoped
    refine ⟨?_, ?_⟩
    · intro h
      exact ha.eq_of_key_eq hb (Option.some.inj h)
    · intro h
      rw [h]
  · intro hfluents a ha hvariable config depth hdepth
    obtain ⟨n, ha⟩ := ha.wellScoped
    have herror := Problem.requireFluent_of_variable hfluents ha hvariable
    refine ⟨?_, ?_⟩
    · rw [Condition.ofFormulaAt, if_neg (Nat.not_lt_of_le hdepth), herror]
      rfl
    · rw [Condition.ofFormulaAt, if_neg (Nat.not_lt_of_le hdepth), herror]
      rfl

/-- The variable `-1` and the constant `0` stand at the same place of two atoms, one of them below a
    method constraint. The constant's atom is registered, and the variable's is not. -/
theorem ofFormula?_resolved_variable :
    let p : Problem := {
      constants := ⟨["depot"], by decide⟩, types := ⟨["truck"], by decide⟩,
      predicates := ⟨["at"], by decide⟩, signatures := [[0]],
      fluents := ⟨[⟨0, [0]⟩], by decide⟩ }
    let a : Application Index := ⟨0, [.variable (-1)]⟩
    let b : Application Index := ⟨0, [.constant 0]⟩
    p.IsResolvedAtom a ∧ p.IsResolvedAtom b ∧ ofFormula? (.atom a) ≠ ofFormula? (.atom b) ∧
      Condition.ofFormula p .default (.atom a) = .error (.unregistered ⟨0, [-1]⟩) ∧
      Condition.ofFormula p .default (.atom b) = .ok (.single 0) := by
  intro p a b
  have ha : p.IsResolvedAtom a := by
    let f : Formula Name :=
      .quantified .existential [⟨"t", ["truck"]⟩] (.not (.atom ⟨"at", [.variable "t"]⟩))
    let t : Formula Index := .quantified .existential [⟨-1, [0]⟩] (.not (.atom a))
    have hnode : .atom a ∈ t.nodesAt 2 := List.mem_singleton_self _
    exact ⟨.default, [], f, t, rfl, Formula.mem_nodes_iff.2 ⟨2, hnode⟩⟩
  have hb : p.IsResolvedAtom b := by
    let f : Formula Name :=
      .hold .after (.occurrence false "t1") (.atom ⟨"at", [.constant "depot"]⟩)
    let t : Formula Index := .hold .after (.occurrence false 1) (.atom b)
    have hnode : .atom b ∈ t.nodesAt 1 := List.mem_cons_of_mem _ (List.mem_singleton_self _)
    exact ⟨.default, ["x"], f, t, rfl, Formula.mem_nodes_iff.2 ⟨1, hnode⟩⟩
  obtain ⟨hkeys, hlookup⟩ := ofFormula?_resolved p
  refine ⟨ha, hb, ?_, ?_, rfl⟩
  · intro h
    exact absurd ((hkeys a b ha hb).1 h) (by decide)
  · exact (hlookup (by decide) a ha ⟨_, List.mem_singleton_self _, rfl⟩ .default 0 (by decide)).1

end GroundAtom

end GoalCompiler
