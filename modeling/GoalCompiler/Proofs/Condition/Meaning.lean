import GoalCompiler.Condition.Conjunction
import GoalCompiler.Proofs.Success
import GoalCompiler.Proofs.Valuation

set_option autoImplicit false

/-! # Conditions keep the meaning of conjunctions

A state says which fluents are true. Other atoms have fixed values, and so have comparisons, since
nothing here changes numbers. Formulas are then read in a state through a valuation, while a
condition is checked against the state directly, without the problem. Both agree: if comparisons are
kept, the condition of a formula holds in exactly the states in which the formula is true
(`Condition.holds_ofFormulaAt`). -/

namespace GoalCompiler

/-! ## States -/

/-- A state of the world. -/
structure State where
  /-- Whether a fluent is true. -/
  fluents : FluentId → Bool
  /-- The values of the atoms that are not fluents. -/
  static : GroundAtom → Bool
  /-- The values of the other basic formulas, comparisons among them. -/
  other : Valuation Index

namespace State

/-- The truth value of a ground atom. -/
def holdsAtom (s : State) (p : Problem) (atom : GroundAtom) : Bool :=
  match p.fluent? atom with
  | some x => s.fluents x
  | none => s.static atom

/-- The values of basic formulas in a state. -/
def valuation (s : State) (p : Problem) : Valuation Index where
  value
    | .atom a => s.holdsAtom p (.ofApplication a)
    | f => s.other.value f
  opposite h l r := s.other.opposite h l r
  congruent {f g} hf h := by
    have hother := s.other.congruent hf h
    clear hf
    revert h
    fun_cases Formula.same f g <;> intro h
    case case1 a b => rw [eq_of_beq h]
    case case22 => exact absurd h (by simp)
    all_goals exact hother

end State

/-! ## Conditions in a state -/

namespace Condition

variable {s : State}

/-- Whether a condition holds in a state. -/
def holds (s : State) (c : Condition) : Bool :=
  c.positive.members.all s.fluents && c.negative.members.all (!s.fluents ·) &&
    c.numeric.all fun k => s.other.value (.compare k.comparison k.left k.right)

theorem holds_iff {c : Condition} :
    c.holds s = true ↔ (∀ x ∈ c.positive, s.fluents x = true) ∧
      (∀ x ∈ c.negative, s.fluents x = false) ∧
        ∀ k ∈ c.numeric, s.other.value (.compare k.comparison k.left k.right) = true := by
  simp [holds, FluentSet.mem_iff, and_assoc]

@[simp]
theorem holds_empty : empty.holds s = true := rfl

@[simp]
theorem holds_single (x : FluentId) : (single x).holds s = s.fluents x := by
  rw [Bool.eq_iff_iff, holds_iff]
  simp [single, FluentSet.mem_singleton, FluentSet.not_mem_empty]

/-- The condition that forbids one fluent. -/
theorem holds_forbidden (x : FluentId) :
    ({ negative := .singleton x } : Condition).holds s = !s.fluents x := by
  rw [Bool.eq_iff_iff, holds_iff]
  simp [FluentSet.mem_singleton, FluentSet.not_mem_empty]

/-- The condition that constrains numbers only. -/
theorem holds_constrained (k : NumericConstraint) :
    ({ numeric := [k] } : Condition).holds s =
      s.other.value (.compare k.comparison k.left k.right) := by
  rw [Bool.eq_iff_iff, holds_iff]
  simp [FluentSet.not_mem_empty]

theorem holds_conjoin (c d : Condition) : (c.conjoin d).holds s = (c.holds s && d.holds s) := by
  rw [Bool.eq_iff_iff, Bool.and_eq_true, holds_iff, holds_iff, holds_iff]
  simp only [conjoin, FluentSet.mem_union, List.mem_append, or_imp, forall_and]
  constructor
  · rintro ⟨⟨hc, hd⟩, ⟨hc', hd'⟩, hc'', hd''⟩
    exact ⟨⟨hc, hc', hc''⟩, hd, hd', hd''⟩
  · rintro ⟨⟨hc, hc', hc''⟩, hd, hd', hd''⟩
    exact ⟨⟨hc, hd⟩, ⟨hc', hd'⟩, hc'', hd''⟩

/-! ## Conjunctions -/

variable {p : Problem} {config : Config}

/-- The condition of a conjunction is the conjunction of the conditions of its members. -/
theorem ofConjuncts_eq_ok_iff {depth : Nat} {fs : List (Formula Index)} {c : Condition} :
    ofConjuncts p config depth fs = .ok c ↔ ∃ cs,
      List.Forall₂ (fun f c => ofFormulaAt p config depth f = .ok c) fs cs ∧
        cs.foldr conjoin empty = c := by
  induction fs generalizing c with
  | nil => simp [ofConjuncts, pure_eq_ok_iff]
  | cons f fs ih =>
    simp only [ofConjuncts, bind_eq_ok_iff, pure_eq_ok_iff, ih, List.forall₂_cons_left_iff]
    constructor
    · rintro ⟨first, hfirst, rest, ⟨cs, hcs, rfl⟩, rfl⟩
      exact ⟨first :: cs, ⟨first, cs, hfirst, hcs, rfl⟩, rfl⟩
    · rintro ⟨_, ⟨first, cs, hfirst, hcs, rfl⟩, rfl⟩
      exact ⟨first, hfirst, cs.foldr conjoin empty, ⟨cs, hcs, rfl⟩, rfl⟩

theorem holds_foldr_conjoin (cs : List Condition) :
    (cs.foldr conjoin empty).holds s = cs.all (holds s) := by
  induction cs with
  | nil => rfl
  | cons c cs ih => rw [List.foldr_cons, holds_conjoin, ih, List.all_cons]

theorem holdsAtom_of_requireFluent {a : Application Index} {x : FluentId}
    (h : p.requireFluent a = .ok x) : s.holdsAtom p (.ofApplication a) = s.fluents x := by
  unfold Problem.requireFluent at h
  split at h
  · exact absurd h (by simp)
  · next y hy =>
    cases h
    rw [State.holdsAtom, hy]

/-- **If comparisons are kept, the condition of a formula holds where the formula is true.** -/
theorem holds_ofFormulaAt (s : State) (hcapture : config.numericGoals = .capture) {depth : Nat}
    {f : Formula Index} {c : Condition} (h : ofFormulaAt p config depth f = .ok c) :
    c.holds s = f.truth (s.valuation p).value := by
  induction f using Formula.induction_children generalizing depth c with
  | step f ih =>
    unfold ofFormulaAt at h
    split at h
    · exact absurd h (by simp)
    · -- One goal for each kind of node that is accepted, and one for all others.
      split at h
      · next a =>
        simp only [bind_eq_ok_iff, pure_eq_ok_iff] at h
        obtain ⟨x, hx, rfl⟩ := h
        exact (holds_single x).trans (holdsAtom_of_requireFluent hx).symm
      · next a =>
        simp only [bind_eq_ok_iff, pure_eq_ok_iff] at h
        obtain ⟨x, hx, rfl⟩ := h
        rw [holds_forbidden, Formula.truth_not, ← holdsAtom_of_requireFluent hx]
        rfl
      · next fs =>
        obtain ⟨cs, hcs, rfl⟩ := ofConjuncts_eq_ok_iff.1 h
        have hmap : fs.map (Formula.truth (s.valuation p).value) = cs.map (holds s) :=
          map_eq_map_of_forall₂ hcs fun f hf c hc => (ih f hf hc).symm
        rw [holds_foldr_conjoin, Formula.truth_and]
        simpa using congrArg (List.all · id) hmap.symm
      · next comparison l r =>
        rw [pure_eq_ok_iff, hcapture] at h
        rw [← h]
        exact holds_constrained ⟨comparison, l, r⟩
      · rw [pure_eq_ok_iff] at h
        rw [← h, holds_empty, Formula.truth_constant]
      · exact absurd h (by simp)

end Condition

end GoalCompiler
