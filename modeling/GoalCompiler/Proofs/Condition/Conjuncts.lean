import GoalCompiler.Condition.Conjunction
import GoalCompiler.Proofs.Formula.Conjuncts

set_option autoImplicit false

/-! # The condition of a conjunction, leaf by leaf

`Condition.ofFormulaAt` goes down through nested conjunctions, joins the conditions that it brings
back, and stops at the first node that it cannot use. Both the condition and the error have a
description that does not follow this recursion.

- The nested conjunctions have leaves, from left to right (`Formula.flatConjuncts`). The condition
  is read off the list of the leaves (`Condition.ofLiterals`): the fluents of its atoms, the fluents
  of its negated atoms, and its comparisons in order.
- The conjunctions and the leaves are nodes, each below a number of conjunctions
  (`Formula.conjunctionNodes`). Whether a node is at fault can be said of the node alone
  (`Problem.fault?`), and the error is the fault of the first node that has one.

`Condition.ofFormulaAt_eq` puts both together in one equation. -/

namespace GoalCompiler

/-! ## Faults -/

/-- What is wrong with a leaf that has no place in conditions. An atom is not registered, and any
    other leaf should not be there. -/
def ConditionError.ofLeaf : Formula Index → ConditionError
  | .atom a => .unregistered (.ofApplication a)
  | .not (.atom a) => .unregistered (.ofApplication a)
  | f => .unexpected f.keyword

namespace Problem

/-- Whether a leaf has a place in conditions: a registered atom or the negation of one, a
    comparison, or the truth value true. -/
def accepts (p : Problem) : Formula Index → Bool
  | .atom a => (p.fluent? (.ofApplication a)).isSome
  | .not (.atom a) => (p.fluent? (.ofApplication a)).isSome
  | .compare _ _ _ => true
  | .constant value => value
  | _ => false

/-- What is wrong with a node below a number of conjunctions, if anything. -/
def fault? (p : Problem) (config : Config) (node : Nat × Formula Index) : Option ConditionError :=
  if config.maxDepth < node.1 then some (.tooDeep config.maxDepth)
  else if node.2.isConjunction || p.accepts node.2 then none
  else some (.ofLeaf node.2)

variable {p : Problem} {config : Config}

theorem fault?_eq_none_iff {node : Nat × Formula Index} :
    p.fault? config node = none ↔
      node.1 ≤ config.maxDepth ∧ (node.2.isConjunction = true ∨ p.accepts node.2 = true) := by
  unfold fault?
  by_cases hdepth : config.maxDepth < node.1
  · rw [if_pos hdepth]
    simp [Nat.not_le_of_lt hdepth]
  · rw [if_neg hdepth, ← Bool.or_eq_true]
    cases node.2.isConjunction || p.accepts node.2 with
    | false => simp
    | true => simp [Nat.le_of_not_lt hdepth]

end Problem

/-! ## Conditions of leaves -/

namespace Problem

/-- The fluent that a leaf requires. -/
def required? (p : Problem) : Formula Index → Option FluentId
  | .atom a => p.fluent? (.ofApplication a)
  | _ => none

/-- The fluent that a leaf forbids: the one that is required by what it negates. -/
def forbidden? (p : Problem) : Formula Index → Option FluentId
  | .not f => p.required? f
  | _ => none

variable {p : Problem} {f : Formula Index} {x : FluentId}

theorem required?_eq_some_iff :
    p.required? f = some x ↔ ∃ a, f = .atom a ∧ p.fluent? (.ofApplication a) = some x := by
  unfold required?
  split
  · simp
  · next h =>
    simp only [reduceCtorEq, false_iff]
    rintro ⟨a, rfl, -⟩
    exact h a rfl

theorem forbidden?_eq_some_iff :
    p.forbidden? f = some x ↔ ∃ a, f = .not (.atom a) ∧ p.fluent? (.ofApplication a) = some x := by
  unfold forbidden?
  split
  · rw [required?_eq_some_iff]
    simp
  · next h =>
    simp only [reduceCtorEq, false_iff]
    rintro ⟨a, rfl, -⟩
    exact h _ rfl

/-- Some fluent is that of an atom among the leaves and that of a negated atom among them. -/
def Contradictory (p : Problem) (fs : List (Formula Index)) : Prop :=
  ∃ a b x, .atom a ∈ fs ∧ .not (.atom b) ∈ fs ∧
    p.fluent? (.ofApplication a) = some x ∧ p.fluent? (.ofApplication b) = some x

end Problem

/-- The constraint that a leaf puts on numbers. -/
def Formula.constraint? : Formula Index → Option NumericConstraint
  | .compare comparison left right => some { comparison, left, right }
  | _ => none

/-- The constraints of some leaves that are kept. -/
def NumericPolicy.constraints (policy : NumericPolicy) (fs : List (Formula Index)) :
    List NumericConstraint :=
  match policy with
  | drop => []
  | capture => fs.filterMap Formula.constraint?

namespace Condition

/-- The condition that some leaves make up together. -/
def ofLiterals (p : Problem) (policy : NumericPolicy) (fs : List (Formula Index)) : Condition where
  positive := .ofList (fs.filterMap p.required?)
  negative := .ofList (fs.filterMap p.forbidden?)
  numeric := policy.constraints fs

variable {p : Problem} {config : Config} {policy : NumericPolicy}

theorem ofLiterals_append (fs gs : List (Formula Index)) :
    ofLiterals p policy (fs ++ gs) =
      (ofLiterals p policy fs).conjoin (ofLiterals p policy gs) := by
  have hnumeric : policy.constraints (fs ++ gs) =
      policy.constraints fs ++ policy.constraints gs := by
    cases policy with
    | drop => rfl
    | capture => exact List.filterMap_append
  simp only [ofLiterals, conjoin, List.filterMap_append, FluentSet.ofList_append, hnumeric]

end Condition

/-! ## The condition or the first fault -/

namespace Condition

variable {p : Problem} {config : Config}

theorem ofLiterals_atom {a : Application Index} {x : FluentId}
    (hx : p.fluent? (.ofApplication a) = some x) (policy : NumericPolicy) :
    ofLiterals p policy [.atom a] = { positive := .singleton x } := by
  have hrequired : [Formula.atom a].filterMap p.required? = [x] := by simp [Problem.required?, hx]
  rw [ofLiterals, hrequired]
  cases policy <;> rfl

theorem ofLiterals_not_atom {a : Application Index} {x : FluentId}
    (hx : p.fluent? (.ofApplication a) = some x) (policy : NumericPolicy) :
    ofLiterals p policy [.not (.atom a)] = { negative := .singleton x } := by
  have hforbidden : [Formula.not (.atom a)].filterMap p.forbidden? = [x] := by
    simp [Problem.forbidden?, Problem.required?, hx]
  rw [ofLiterals, hforbidden]
  cases policy <;> rfl

/-- A leaf gives its own condition or its own fault. -/
theorem ofFormulaAt_of_leaf {f : Formula Index} (hleaf : f.isConjunction = false) (depth : Nat) :
    ofFormulaAt p config depth f =
      (p.fault? config (depth, f)).elim (.ok (ofLiterals p config.numericGoals [f])) .error := by
  unfold ofFormulaAt Problem.fault?
  by_cases hdepth : config.maxDepth < depth
  · rw [if_pos hdepth, if_pos hdepth]
    rfl
  rw [if_neg hdepth, if_neg hdepth, hleaf, Bool.false_or]
  cases f with
  | and fs => exact absurd hleaf (by simp [Formula.isConjunction])
  | atom a =>
    cases hx : p.fluent? (.ofApplication a) with
    | none =>
      simp only [Problem.requireFluent, Problem.accepts, hx]
      rfl
    | some x =>
      simp only [Problem.requireFluent, Problem.accepts, hx, ofLiterals_atom hx]
      rfl
  | not f =>
    cases f with
    | atom a =>
      cases hx : p.fluent? (.ofApplication a) with
      | none =>
        simp only [Problem.requireFluent, Problem.accepts, hx]
        rfl
      | some x =>
        simp only [Problem.requireFluent, Problem.accepts, hx, ofLiterals_not_atom hx]
        rfl
    | _ => rfl
  | compare c l r => cases config.numericGoals <;> rfl
  | constant value => cases value <;> cases config.numericGoals <;> rfl
  | _ => rfl

/-- The conjunction of formulas gives the condition of all their leaves or the first fault of all
    their nodes, if each formula does so for its own. -/
theorem ofConjuncts_eq_of_members {depth : Nat} (fs : List (Formula Index))
    (ih : ∀ f ∈ fs, ofFormulaAt p config depth f =
      ((f.conjunctionNodes depth).findSome? (p.fault? config)).elim
        (.ok (ofLiterals p config.numericGoals f.flatConjuncts)) .error) :
    ofConjuncts p config depth fs =
      ((Formula.conjunctionNodesOf depth fs).findSome? (p.fault? config)).elim
        (.ok (ofLiterals p config.numericGoals (Formula.flatConjunctsOf fs))) .error := by
  induction fs with
  | nil => cases config.numericGoals <;> rfl
  | cons f fs ihs =>
    have hrest := ihs fun f hf => ih f (by simp [hf])
    rw [ofConjuncts, ih f (by simp), hrest, Formula.conjunctionNodesOf, List.findSome?_append,
      Formula.flatConjunctsOf, ofLiterals_append]
    -- A fault among the first nodes hides those after it.
    cases (f.conjunctionNodes depth).findSome? (p.fault? config) with
    | some e => rfl
    | none =>
      cases (Formula.conjunctionNodesOf depth fs).findSome? (p.fault? config) with
      | some e => rfl
      | none => rfl

/-- **A formula gives the condition of its leaves, or the first fault of its nodes.** -/
theorem ofFormulaAt_eq (p : Problem) (config : Config) (depth : Nat) (f : Formula Index) :
    ofFormulaAt p config depth f =
      ((f.conjunctionNodes depth).findSome? (p.fault? config)).elim
        (.ok (ofLiterals p config.numericGoals f.flatConjuncts)) .error := by
  induction f using Formula.induction_children generalizing depth with
  | step f ih =>
    by_cases hleaf : f.isConjunction = false
    · rw [ofFormulaAt_of_leaf hleaf, Formula.conjunctionNodes_of_not_conjunction hleaf,
        Formula.flatConjuncts_of_not_conjunction hleaf, List.findSome?_singleton]
    · cases f with
      | and fs =>
        have hmembers := ofConjuncts_eq_of_members fs fun f hf => ih f hf (depth + 1)
        have hnode : p.fault? config (depth, .and fs) =
            if config.maxDepth < depth then some (.tooDeep config.maxDepth) else none := rfl
        rw [ofFormulaAt, hmembers, Formula.conjunctionNodes, Formula.flatConjuncts,
          List.findSome?_cons, hnode]
        by_cases hdepth : config.maxDepth < depth
        · rw [if_pos hdepth, if_pos hdepth]
          rfl
        · rw [if_neg hdepth, if_neg hdepth]
      | _ => exact absurd rfl hleaf

/-! ## Success and failure -/

/-- A formula has the condition of its leaves, if no node of it is at fault. -/
theorem ofFormulaAt_eq_ok_iff {depth : Nat} {f : Formula Index} {c : Condition} :
    ofFormulaAt p config depth f = .ok c ↔
      (∀ n ∈ f.conjunctionNodes depth, p.fault? config n = none) ∧
        c = ofLiterals p config.numericGoals f.flatConjuncts := by
  rw [ofFormulaAt_eq, ← List.findSome?_eq_none_iff]
  cases (f.conjunctionNodes depth).findSome? (p.fault? config) with
  | none => simp [eq_comm]
  | some e => simp

/-- The error is the fault of the first node that has one. -/
theorem ofFormulaAt_eq_error_iff {depth : Nat} {f : Formula Index} {e : ConditionError} :
    ofFormulaAt p config depth f = .error e ↔
      ∃ before n after, f.conjunctionNodes depth = before ++ n :: after ∧
        (∀ m ∈ before, p.fault? config m = none) ∧ p.fault? config n = some e := by
  have hfirst : ofFormulaAt p config depth f = .error e ↔
      (f.conjunctionNodes depth).findSome? (p.fault? config) = some e := by
    rw [ofFormulaAt_eq]
    cases (f.conjunctionNodes depth).findSome? (p.fault? config) with
    | none => simp
    | some e => simp
  rw [hfirst, List.findSome?_eq_some_iff]
  constructor
  · rintro ⟨before, n, after, hnodes, hn, hbefore⟩
    exact ⟨before, n, after, hnodes, hbefore, hn⟩
  · rintro ⟨before, n, after, hnodes, hbefore, hn⟩
    exact ⟨before, n, after, hnodes, hn, hbefore⟩

/-- No node is at fault exactly if none is too deep and every leaf has a place in conditions. -/
theorem forall_fault?_eq_none_iff {depth : Nat} {f : Formula Index} :
    (∀ n ∈ f.conjunctionNodes depth, p.fault? config n = none) ↔
      (∀ n ∈ f.conjunctionNodes depth, n.1 ≤ config.maxDepth) ∧
        ∀ g ∈ f.flatConjuncts, p.accepts g = true := by
  simp only [Problem.fault?_eq_none_iff, forall_and, Formula.flatConjuncts_eq_filter depth f,
    List.mem_filter, List.mem_map]
  refine and_congr_right fun _ => ?_
  constructor
  · rintro h g ⟨⟨n, hn, rfl⟩, hleaf⟩
    rcases h n hn with hand | haccepts
    · rw [hand] at hleaf
      exact absurd hleaf (by simp)
    · exact haccepts
  · intro h n hn
    cases hand : n.2.isConjunction with
    | true => exact Or.inl rfl
    | false => exact Or.inr (h n.2 ⟨⟨n, hn, rfl⟩, by rw [hand]; rfl⟩)

/-! ## What a condition holds -/

/-- The condition `c` holds what the leaves `fs` say, and nothing else. -/
structure Collects (p : Problem) (policy : NumericPolicy) (fs : List (Formula Index))
    (c : Condition) : Prop where
  positive : ∀ x, x ∈ c.positive ↔ ∃ a, .atom a ∈ fs ∧ p.fluent? (.ofApplication a) = some x
  negative : ∀ x, x ∈ c.negative ↔ ∃ a, .not (.atom a) ∈ fs ∧ p.fluent? (.ofApplication a) = some x
  captured : policy = .capture → c.numeric = fs.filterMap Formula.constraint?
  dropped : policy = .drop → c.numeric = []
  inconsistent : c.isConsistent = false ↔ p.Contradictory fs

theorem mem_positive_ofLiterals {policy : NumericPolicy} {fs : List (Formula Index)}
    {x : FluentId} : x ∈ (ofLiterals p policy fs).positive ↔
      ∃ a, .atom a ∈ fs ∧ p.fluent? (.ofApplication a) = some x := by
  simp only [ofLiterals, FluentSet.mem_ofList, List.mem_filterMap, Problem.required?_eq_some_iff]
  constructor
  · rintro ⟨_, hf, a, rfl, hx⟩
    exact ⟨a, hf, hx⟩
  · rintro ⟨a, hf, hx⟩
    exact ⟨_, hf, a, rfl, hx⟩

theorem mem_negative_ofLiterals {policy : NumericPolicy} {fs : List (Formula Index)}
    {x : FluentId} : x ∈ (ofLiterals p policy fs).negative ↔
      ∃ a, .not (.atom a) ∈ fs ∧ p.fluent? (.ofApplication a) = some x := by
  simp only [ofLiterals, FluentSet.mem_ofList, List.mem_filterMap, Problem.forbidden?_eq_some_iff]
  constructor
  · rintro ⟨_, hf, a, rfl, hx⟩
    exact ⟨a, hf, hx⟩
  · rintro ⟨a, hf, hx⟩
    exact ⟨_, hf, a, rfl, hx⟩

theorem isConsistent_eq_false_iff {c : Condition} :
    c.isConsistent = false ↔ ∃ x ∈ c.positive, x ∈ c.negative := by
  simp [isConsistent, FluentSet.isDisjoint, FluentSet.contains, FluentSet.mem_iff]

theorem isConsistent_ofLiterals {policy : NumericPolicy} {fs : List (Formula Index)} :
    (ofLiterals p policy fs).isConsistent = false ↔ p.Contradictory fs := by
  simp only [isConsistent_eq_false_iff, mem_positive_ofLiterals, mem_negative_ofLiterals]
  constructor
  · rintro ⟨x, ⟨a, ha, hax⟩, b, hb, hbx⟩
    exact ⟨a, b, x, ha, hb, hax, hbx⟩
  · rintro ⟨a, b, x, ha, hb, hax, hbx⟩
    exact ⟨x, ⟨a, ha, hax⟩, b, hb, hbx⟩

theorem collects_ofLiterals (policy : NumericPolicy) (fs : List (Formula Index)) :
    Collects p policy fs (ofLiterals p policy fs) where
  positive _ := mem_positive_ofLiterals
  negative _ := mem_negative_ofLiterals
  captured h := by
    subst h
    rfl
  dropped h := by
    subst h
    rfl
  inconsistent := isConsistent_ofLiterals

/-- **The condition of a formula is made of the leaves of its nested conjunctions.** It exists
    exactly if no node is below too many conjunctions and every leaf has a place in conditions.
    Otherwise the error is the fault of the first node, in the order of the text, that has one. -/
theorem ofFormula_leaves (p : Problem) (config : Config) (f : Formula Index) :
    ((∃ c, ofFormula p config f = .ok c) ↔
      (∀ n ∈ f.conjunctionNodes 0, n.1 ≤ config.maxDepth) ∧
        ∀ g ∈ f.flatConjuncts, p.accepts g = true) ∧
    (∀ c, ofFormula p config f = .ok c → Collects p config.numericGoals f.flatConjuncts c) ∧
    ∀ e, ofFormula p config f = .error e ↔
      ∃ before n after, f.conjunctionNodes 0 = before ++ n :: after ∧
        (∀ m ∈ before, p.fault? config m = none) ∧ p.fault? config n = some e := by
  refine ⟨?_, ?_, fun e => ofFormulaAt_eq_error_iff⟩
  · rw [← forall_fault?_eq_none_iff]
    constructor
    · rintro ⟨c, hc⟩
      exact (ofFormulaAt_eq_ok_iff.1 hc).1
    · intro hnone
      exact ⟨_, ofFormulaAt_eq_ok_iff.2 ⟨hnone, rfl⟩⟩
  · intro c hc
    obtain ⟨-, rfl⟩ := ofFormulaAt_eq_ok_iff.1 hc
    exact collects_ofLiterals config.numericGoals f.flatConjuncts

/-- Below two conjunctions there are a negated atom and a comparison; the atom of the fluent that is
    forbidden stands elsewhere. Of the two nodes at fault in the second formula the empty
    conjunction is the first. -/
theorem ofFormula_leaves_nested :
    let p : Problem := { fluents := ⟨[⟨0, []⟩, ⟨1, []⟩], by decide⟩ }
    let config : Config := { maxDepth := 2, numericGoals := .capture }
    let less : Formula Index := .compare .less .elapsed .elapsed
    let f : Formula Index := .and [less, .and [.not (.atom ⟨1, []⟩), .constant true, less],
      .atom ⟨0, []⟩, .atom ⟨1, []⟩]
    let g : Formula Index := .and [.and [.and [.and []]], .or []]
    (∃ c, ofFormula p config f = .ok c ∧ 1 ∈ c.positive ∧ 1 ∈ c.negative ∧
      c.numeric.length = 2 ∧ c.isConsistent = false) ∧
    ofFormula p config g = .error (.tooDeep 2) := by
  intro p config less f g
  have hatom : .atom ⟨1, []⟩ ∈ f.flatConjuncts := by
    simp [f, Formula.flatConjuncts, Formula.flatConjunctsOf]
  have hnegated : .not (.atom ⟨1, []⟩) ∈ f.flatConjuncts := by
    simp [f, Formula.flatConjuncts, Formula.flatConjunctsOf]
  obtain ⟨hexists, hcollects, -⟩ := ofFormula_leaves p config f
  obtain ⟨c, hc⟩ := hexists.2 ⟨by decide, by decide⟩
  have h := hcollects c hc
  refine ⟨⟨c, hc, ?_, ?_, ?_, ?_⟩, ?_⟩
  · exact (h.positive 1).2 ⟨_, hatom, rfl⟩
  · exact (h.negative 1).2 ⟨_, hnegated, rfl⟩
  · rw [h.captured rfl]
    rfl
  · exact h.inconsistent.2 ⟨_, _, 1, hatom, hnegated, rfl, rfl⟩
  · exact ((ofFormula_leaves p config g).2.2 _).2 ⟨[_, _, _], _, [_], rfl, by decide, by decide⟩

end Condition

end GoalCompiler
