import GoalCompiler.Proofs.Goal.Outcome

set_option autoImplicit false

/-! # The effect of goal compilation on the problem

A goal with one clause leaves the problem alone. A goal with several clauses adds to four tables
(`Goal.Extension`), and the positions of what it adds have to fit each other: the signature stands
where the predicate stands, the fluent is the ground atom of that position, and the actions add the
position of the fluent. Nothing else changes, and nothing that was there moves.

This is said for problems whose signatures are in step with their predicates, and in which the ground
atom of the next predicate is not a fluent yet. -/

namespace GoalCompiler

namespace Goal

/-- The problem `p'` is `p` with a predicate of a new name, the fluent of this predicate and, for each
    of the conditions, an action that requires the condition and adds the fluent. -/
structure Extension (config : Config) (cs : List Condition) (p p' : Problem) : Prop where
  predicates : ∃ name, name ∉ p.predicates.entries ∧
    p'.predicates.entries = p.predicates.entries ++ [name]
  signatures : p'.signatures = p.signatures ++ [[]]
  /-- The new signature stands where the new predicate stands. -/
  parallel : p'.signatures.length = p'.predicates.size
  fluents : p'.fluents.entries = p.fluents.entries ++ [⟨p.predicates.size, []⟩]
  actions : p'.actions = p.actions ++ cs.map fun c =>
    { name := config.actionName
      parameters := []
      cost := .zero
      precondition := c
      effects := [{
        condition := .empty
        effect := { positive := .singleton p.fluents.size, negative := .empty } }]
      isSynthetic := true }
  constants : p'.constants = p.constants
  types : p'.types = p.types
  functions : p'.functions = p.functions
  tasks : p'.tasks = p.tasks
  primitiveTasks : p'.primitiveTasks = p.primitiveTasks

variable {config : Config} {p p' : Problem} {goal : Goal}

theorem extension_extend (cs : List Condition) (hparallel : p.signatures.length = p.predicates.size)
    (hnew : standInAtom p ∉ p.fluents.entries) : Extension config cs p (extend config cs p) := by
  exact {
    predicates := ⟨_, p.predicates.freshName_not_mem config.goalName,
      entries_predicates_extend config cs p⟩
    signatures := rfl
    parallel := by
      rw [size_predicates_extend, ← hparallel]
      exact List.length_append
    fluents := Table.entries_insert_of_not_mem hnew
    actions := by
      rw [extend, standIn_of_not_mem hnew]
      rfl
    constants := rfl
    types := rfl
    functions := rfl
    tasks := rfl
    primitiveTasks := rfl }

/-- **A compiled goal is the condition of its only clause and leaves the problem alone, or it is a new
    fluent and extends the problem by what reaches this fluent from each of its clauses.** -/
theorem ofFormula_effect {f : Formula Index} (hparallel : p.signatures.length = p.predicates.size)
    (hnew : ⟨p.predicates.size, []⟩ ∉ p.fluents.entries)
    (h : ofFormula config f p = .ok goal p') :
    ∃ normal cs, f.dnf config.maxClauses = .ok normal ∧
      List.Forall₂ (fun clause c => Condition.ofFormula p config clause.toConjunction = .ok c)
        normal.disjuncts cs ∧
      (cs = [goal.condition] ∧ p' = p ∨
        2 ≤ cs.length ∧ goal = ⟨.single p.fluents.size⟩ ∧ Extension config cs p p') := by
  obtain ⟨-, normal, hnormal, cs, hcs, hcases⟩ := ofFormula_eq_ok_iff.1 h
  refine ⟨normal, cs, hnormal, mapM_eq_ok_iff.1 hcs, ?_⟩
  rcases hcases with hone | ⟨hseveral, hrun⟩
  · exact Or.inl hone
  · obtain ⟨-, -, rfl, rfl⟩ := ofAlternatives_eq_ok_iff.1 hrun
    refine Or.inr ⟨hseveral, ?_, extension_extend cs hparallel hnew⟩
    rw [standIn_of_not_mem hnew]

/-- Three clauses, two of which are the same, in a problem that has an action and whose predicates
    include the name wanted for the new one. -/
theorem ofFormula_effect_repeated_clause :
    let p : Problem := {
      constants := ⟨["truck"], by decide⟩, types := ⟨["vehicle"], by decide⟩,
      predicates := ⟨["at-home", "loaded", "dummy-goal"], by decide⟩, signatures := [[0], [0], []],
      fluents := ⟨[⟨1, [0]⟩, ⟨0, [0]⟩], by decide⟩,
      actions := [{ name := "load", effects := [.unconditional (.adding 0)] }] }
    let loaded : Formula Index := .atom ⟨1, [.constant 0]⟩
    let f : Formula Index := .or [loaded, .imply (.atom ⟨0, [.constant 0]⟩) loaded]
    let cs : List Condition := [.single 0, { negative := .singleton 1 }]
    let p' : Problem := { p with
      predicates := ⟨["at-home", "loaded", "dummy-goal", "dummy-goal-1"], by decide⟩,
      signatures := [[0], [0], [], []],
      fluents := ⟨[⟨1, [0]⟩, ⟨0, [0]⟩, ⟨3, []⟩], by decide⟩,
      actions := p.actions ++
        cs.map (Action.synthetic "dummy-operator" · (.unconditional (.adding 2))) }
    ofFormula .default f p = .ok ⟨.single 2⟩ p' ∧
      ∃ normal cs, f.dnf Config.default.maxClauses = .ok normal ∧
        List.Forall₂ (fun clause c => Condition.ofFormula p .default clause.toConjunction = .ok c)
          normal.disjuncts cs ∧
        (cs = [.single 2] ∧ p' = p ∨
          2 ≤ cs.length ∧ (⟨.single 2⟩ : Goal) = ⟨.single p.fluents.size⟩ ∧
            Extension .default cs p p') := by
  intro p loaded f cs p'
  have h : ofFormula .default f p = .ok ⟨.single 2⟩ p' := by rfl
  exact ⟨h, ofFormula_effect (by decide) (by decide) h⟩

end Goal

end GoalCompiler
