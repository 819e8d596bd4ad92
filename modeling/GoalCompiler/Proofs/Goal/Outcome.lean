import GoalCompiler.Proofs.Goal.FreshName
import GoalCompiler.Proofs.Resolution.Relation

set_option autoImplicit false

/-! # Runs of goal compilation

What a run has done, step by step. A goal with one alternative is its condition, and the problem
stays as it was. A goal with several alternatives takes a predicate and a fluent of its own, the
stand-in. `Goal.run_ofAlternatives` is the whole run for such a goal as one equation: either an index
space is full and nothing has happened, or the problem is extended, and the step that registers the
stand-in cannot fail any more.

The stand-in is not always new. Its ground atom is the predicate that is about to be registered, and
if that atom is a fluent already, this fluent is used. If no fluent has the predicate, the stand-in
is the number that follows the fluents there were. -/

namespace GoalCompiler

/-! ## Registration -/

theorem fluentOf_eq_ok_iff {position : Nat} {x : FluentId} :
    fluentOf position = .ok x ↔ position < fluentLimit ∧ position = x := by
  unfold fluentOf
  split
  · next h => simp [h]
  · next h => simp [h]

namespace Problem

variable {p : Problem}

/-- A new predicate comes with its signature. -/
theorem addPredicate_of_not_mem {name : Name} (h : name ∉ p.predicates.entries)
    (signature : List Nat) :
    (p.addPredicate name signature).2 =
      { p with
        predicates := p.predicates.insert name
        signatures := p.signatures ++ [signature] } := by
  have hnew : p.predicates.contains name = false := by
    rw [Bool.eq_false_iff]
    exact fun hknown => h (Table.contains_iff_mem.1 hknown)
  simp [addPredicate, Table.add, hnew]

theorem fluent?_of_room {atom : GroundAtom} (hroom : p.fluents.size ≤ fluentLimit) :
    p.fluent? atom = p.fluents.position? atom := by
  rw [fluent?]
  cases hposition : p.fluents.position? atom with
  | none => rfl
  | some i =>
    have hlt : i < fluentLimit := Nat.lt_of_lt_of_le (Table.lt_size_of_position? hposition) hroom
    simp [fluentOf, hlt, Except.toOption]

/-- As long as there is room, registering a fluent does not fail. -/
theorem addFluent_of_room (atom : GroundAtom) (hroom : p.fluents.size < fluentLimit) :
    p.addFluent atom =
      .ok ((p.fluents.add atom).1, { p with fluents := p.fluents.insert atom }) := by
  rw [addFluent, fluent?_of_room (Nat.le_of_lt hroom), Table.add]
  cases hposition : p.fluents.position? atom with
  | none =>
    simp [fluentOf, hroom, bind, Except.bind, pure, Except.pure]
  | some i =>
    rw [Table.insert_of_mem (Table.mem_of_position? hposition)]
    rfl

end Problem

/-! ## Stand-ins -/

namespace Goal

/-- The ground atom of the predicate that is registered next. -/
def standInAtom (p : Problem) : GroundAtom := ⟨p.predicates.size, []⟩

/-- The fluent that stands for a goal with several alternatives. -/
def standIn (p : Problem) : FluentId := (p.fluents.add (standInAtom p)).1

/-- The problem with a stand-in and an action for each alternative. -/
def extend (config : Config) (cs : List Condition) (p : Problem) : Problem :=
  { p with
    predicates := p.predicates.insert (p.predicates.freshName config.goalName)
    signatures := p.signatures ++ [[]]
    fluents := p.fluents.insert (standInAtom p)
    actions := p.actions ++
      cs.map (Action.synthetic config.actionName · (.unconditional (.adding (standIn p)))) }

variable {config : Config} {p p' : Problem} {goal : Goal}

theorem standIn_of_not_mem (hnew : standInAtom p ∉ p.fluents.entries) :
    standIn p = p.fluents.size := Table.add_fst_of_not_mem hnew

/-- The predicate of the stand-in has a name of its own. -/
theorem entries_predicates_extend (config : Config) (cs : List Condition) (p : Problem) :
    (extend config cs p).predicates.entries =
      p.predicates.entries ++ [p.predicates.freshName config.goalName] :=
  Table.entries_insert_of_not_mem (p.predicates.freshName_not_mem config.goalName)

theorem size_predicates_extend (config : Config) (cs : List Condition) (p : Problem) :
    (extend config cs p).predicates.size = p.predicates.size + 1 := by
  rw [Table.size, entries_predicates_extend, List.length_append]
  rfl

/-- **A goal with several alternatives extends the problem, unless an index space is full.** -/
theorem run_ofAlternatives (config : Config) (cs : List Condition) (p : Problem) :
    ofAlternatives config cs p =
      if indexLimit ≤ p.predicates.size then .error (.overflow ⟨.symbols .predicate⟩) p
      else if fluentLimit ≤ p.fluents.size then .error (.overflow ⟨.fluents⟩) p
      else .ok ⟨.single (standIn p)⟩ (extend config cs p) := by
  unfold ofAlternatives
  rw [run_get_bind, indexOf]
  split
  · next hpredicates =>
    rw [if_neg (Nat.not_le_of_lt hpredicates), Except.mapError, run_ofExcept_ok_bind, fluentOf]
    split
    · next hfluents =>
      rw [if_neg (Nat.not_le_of_lt hfluents), Except.mapError, run_ofExcept_ok_bind]
      simp only [run_set_bind]
      -- The predicate has taken no room from the fluents.
      have hroom : (p.addPredicate (p.predicates.freshName config.goalName) []).2.fluents.size <
          fluentLimit := hfluents
      have hfresh := p.predicates.freshName_not_mem config.goalName
      rw [Problem.addFluent_of_room _ hroom, Problem.addPredicate_of_not_mem hfresh]
      rfl
    · next hfluents =>
      rw [if_pos (Nat.le_of_not_lt hfluents), Except.mapError, run_ofExcept_error_bind]
  · next hpredicates =>
    rw [if_pos (Nat.le_of_not_lt hpredicates), Except.mapError, run_ofExcept_error_bind]

theorem ofAlternatives_eq_ok_iff {cs : List Condition} :
    ofAlternatives config cs p = .ok goal p' ↔ p.predicates.size < indexLimit ∧
      p.fluents.size < fluentLimit ∧ goal = ⟨.single (standIn p)⟩ ∧ p' = extend config cs p := by
  rw [run_ofAlternatives]
  split
  · next hpredicates => simp [Nat.not_lt_of_le hpredicates]
  · next hpredicates =>
    split
    · next hfluents => simp [Nat.not_lt_of_le hfluents]
    · next hfluents => simp [Nat.lt_of_not_le hpredicates, Nat.lt_of_not_le hfluents, eq_comm]

/-- If the atom of the new predicate is not registered, the goal is a fluent that no state has yet,
    and each alternative has an action that adds it. -/
theorem ofAlternatives_of_not_mem {cs : List Condition}
    (hnew : ⟨p.predicates.size, []⟩ ∉ p.fluents.entries)
    (h : ofAlternatives config cs p = .ok goal p') :
    goal = ⟨.single p.fluents.size⟩ ∧
      p'.actions = p.actions ++ cs.map
        (Action.synthetic config.actionName · (.unconditional (.adding p.fluents.size))) := by
  obtain ⟨-, -, rfl, rfl⟩ := ofAlternatives_eq_ok_iff.1 h
  rw [extend, standIn_of_not_mem hnew]
  exact ⟨rfl, rfl⟩

/-! ## Runs -/

/-- The run for a resolved goal, pass by pass. -/
theorem run_ofFormula (config : Config) (f : Formula Index) (p : Problem) :
    ofFormula config f p =
      if f.exceedsDepth config.maxDepth = true then .error (.tooDeep config.maxDepth) p
      else
        match f.dnf config.maxClauses with
        | .error cause => .error (.normalForm cause) p
        | .ok normal =>
          match alternatives p config normal with
          | .error cause => .error (.condition cause) p
          | .ok [] => .error .unsatisfiable p
          | .ok [c] => .ok ⟨c⟩ p
          | .ok cs => ofAlternatives config cs p := by
  unfold ofFormula
  split
  · rfl
  · cases f.dnf config.maxClauses with
    | error cause => rfl
    | ok normal =>
      rw [Except.mapError, run_ofExcept_ok_bind, run_get_bind]
      dsimp only
      cases alternatives p config normal with
      | error cause => rfl
      | ok cs => rcases cs with _ | ⟨c, _ | ⟨d, cs⟩⟩ <;> rfl

/-- With several alternatives the last pass is `Goal.ofAlternatives`. -/
theorem run_ofFormula_of_several {f normal : Formula Index} {cs : List Condition}
    (hshallow : f.exceedsDepth config.maxDepth = false)
    (hnormal : f.dnf config.maxClauses = .ok normal) (hcs : alternatives p config normal = .ok cs)
    (hseveral : 2 ≤ cs.length) : ofFormula config f p = ofAlternatives config cs p := by
  rcases cs with _ | ⟨c, _ | ⟨d, cs⟩⟩
  · simp at hseveral
  · simp at hseveral
  · simp [run_ofFormula, hshallow, hnormal, hcs]

theorem run_compile (config : Config) (f : Formula Name) (p : Problem) :
    compile config f p =
      match f.resolve p config [] with
      | .error cause => .error (.resolution cause) p
      | .ok t => ofFormula config t p := by
  rw [compile, run_get_bind]
  cases f.resolve p config [] <;> rfl

theorem ofFormula_eq_ok_iff {f : Formula Index} :
    ofFormula config f p = .ok goal p' ↔ f.exceedsDepth config.maxDepth = false ∧
      ∃ normal, f.dnf config.maxClauses = .ok normal ∧
        ∃ cs, alternatives p config normal = .ok cs ∧ (cs = [goal.condition] ∧ p' = p ∨
          2 ≤ cs.length ∧ ofAlternatives config cs p = .ok goal p') := by
  rw [run_ofFormula]
  split
  · next hdeep => simp [hdeep]
  · next hdeep =>
    cases f.dnf config.maxClauses with
    | error cause => simp
    | ok normal =>
      cases hcs : alternatives p config normal with
      | error cause => simp [hcs]
      | ok cs =>
        -- The goal has no alternative, one, or several.
        rcases cs with _ | ⟨c, _ | ⟨d, cs⟩⟩
        · simp [hdeep, hcs]
        · cases goal
          simp [hdeep, hcs, eq_comm]
        · simp [hdeep, hcs]

theorem compile_eq_ok_iff {f : Formula Name} :
    compile config f p = .ok goal p' ↔
      ∃ t, f.resolve p config [] = .ok t ∧ ofFormula config t p = .ok goal p' := by
  rw [run_compile]
  cases f.resolve p config [] with
  | error cause => simp
  | ok t => simp

end Goal

end GoalCompiler
