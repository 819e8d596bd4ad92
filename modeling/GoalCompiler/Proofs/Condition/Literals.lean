import GoalCompiler.Proofs.Condition.Conjuncts

set_option autoImplicit false

/-! # Literals of conditions

A condition is put together from the literals of a conjunction. Only some literals have a place in
it (`Problem.admits`): registered atoms and their negations, comparisons, and the truth value true.
What gets into the condition is the fluent of a registered atom, so every fluent that a condition
mentions is one of the problem (`Condition.registered_of_mentions`). -/

namespace GoalCompiler

/-! ## Fluents of atoms -/

namespace Problem

variable {p : Problem}

/-- A ground atom has a fluent if it is registered and its position fits the index space. -/
theorem fluent?_eq_some_iff {atom : GroundAtom} {x : FluentId} :
    p.fluent? atom = some x ↔ p.fluents.position? atom = some x ∧ x < fluentLimit := by
  rw [fluent?]
  cases p.fluents.position? atom with
  | none => simp
  | some i =>
    by_cases hi : i < fluentLimit
    · simp only [Option.bind_eq_bind, Option.bind_some, fluentOf, if_pos hi, Except.toOption,
        Option.some.injEq]
      constructor
      · rintro rfl
        exact ⟨rfl, hi⟩
      · exact And.left
    · simp only [Option.bind_eq_bind, Option.bind_some, fluentOf, if_neg hi, Except.toOption,
        reduceCtorEq, Option.some.injEq, false_iff]
      rintro ⟨rfl, hx⟩
      exact hi hx

theorem requireFluent_eq_ok_iff {a : Application Index} {x : FluentId} :
    p.requireFluent a = .ok x ↔ p.fluent? (.ofApplication a) = some x := by
  unfold requireFluent
  split
  · next h => simp [h]
  · next y h => simp [h]

/-- As long as the fluents fit the index space, the registered atoms are those with a fluent. -/
theorem isSome_fluent? (hroom : p.fluents.size ≤ fluentLimit) (atom : GroundAtom) :
    (p.fluent? atom).isSome = p.fluents.contains atom := by
  rw [Bool.eq_iff_iff, Option.isSome_iff_exists, Table.contains_iff_mem]
  simp only [fluent?_eq_some_iff]
  constructor
  · rintro ⟨x, hx, -⟩
    exact Table.mem_of_position? hx
  · intro hmem
    cases hx : p.fluents.position? atom with
    | none => exact absurd hmem (Table.position?_eq_none_iff.1 hx)
    | some x => exact ⟨x, rfl, Nat.lt_of_lt_of_le (Table.lt_size_of_position? hx) hroom⟩

end Problem

/-! ## Mentioned fluents -/

namespace Condition

/-- Whether a condition requires or forbids a fluent. -/
def Mentions (c : Condition) (x : FluentId) : Prop := x ∈ c.positive ∨ x ∈ c.negative

variable {p : Problem} {config : Config}

/-- **Every fluent that the condition of a formula mentions is one of the problem.** -/
theorem registered_of_mentions {depth : Nat} {f : Formula Index} {c : Condition} {x : FluentId}
    (h : ofFormulaAt p config depth f = .ok c) (hx : c.Mentions x) :
    ∃ atom, p.fluent? atom = some x := by
  obtain ⟨-, rfl⟩ := ofFormulaAt_eq_ok_iff.1 h
  rcases hx with hx | hx
  · obtain ⟨a, -, ha⟩ := mem_positive_ofLiterals.1 hx
    exact ⟨_, ha⟩
  · obtain ⟨a, -, ha⟩ := mem_negative_ofLiterals.1 hx
    exact ⟨_, ha⟩

end Condition

/-! ## Admitted literals -/

/-- Whether a literal has a place in conditions, if every registered atom has a fluent. -/
def Problem.admits (p : Problem) : Formula Index → Bool
  | .atom a => p.fluents.contains (.ofApplication a)
  | .not (.atom a) => p.fluents.contains (.ofApplication a)
  | .compare _ _ _ => true
  | .constant value => value
  | _ => false

/-- As long as the fluents fit the index space, it is enough that an atom is registered. -/
theorem Problem.accepts_eq_admits {p : Problem} (hroom : p.fluents.size ≤ fluentLimit)
    (f : Formula Index) : p.accepts f = p.admits f := by
  cases f with
  | atom a => exact isSome_fluent? hroom _
  | not f =>
    cases f with
    | atom a => exact isSome_fluent? hroom _
    | _ => rfl
  | _ => rfl

end GoalCompiler
