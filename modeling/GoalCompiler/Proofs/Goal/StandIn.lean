import GoalCompiler.Proofs.Problem.Run

set_option autoImplicit false

/-! # When the stand-in of a goal is a new fluent

A goal with several clauses is to be replaced by a fluent that nothing else uses. The name of its
predicate is new for sure, but its ground atom is only the number of predicates there were, and the
atom is registered like any other: if it is a fluent already, this fluent is taken.

Whether this can happen is a matter of the whole history of the problem. No goal compiled before leads
to it, since the predicate of every earlier stand-in is in the table. So it happens exactly if the
ground atom was registered by a call, ahead of the predicate that it belongs to
(`Goal.ofFormula_standIn_of_run`). -/

namespace GoalCompiler

namespace Goal

/-- The atom of the next predicate is a fluent exactly if a call has registered it. -/
theorem standInAtom_mem_run_iff {ops : List Operation}
    (hroom : (Problem.empty.run ops).fluents.size < fluentLimit) :
    standInAtom (Problem.empty.run ops) ∈ (Problem.empty.run ops).fluents.entries ↔
      .addFluent (standInAtom (Problem.empty.run ops)) ∈ ops := by
  constructor
  · intro hmem
    rcases Problem.mem_fluents_run hmem with hempty | hcalled | hlt
    · exact absurd hempty List.not_mem_nil
    · exact hcalled
    · exact absurd hlt (Int.lt_irrefl _)
  · intro hcalled
    exact Problem.mem_fluents_of_addFluent_mem hcalled hroom

variable {config : Config} {p p' : Problem} {goal : Goal}

/-- The goal of several clauses is the stand-in. -/
theorem ofFormula_of_several {f normal : Formula Index} (h : ofFormula config f p = .ok goal p')
    (hnormal : f.dnf config.maxClauses = .ok normal) (hseveral : 2 ≤ normal.disjuncts.length) :
    p.fluents.size < fluentLimit ∧ goal = ⟨.single (standIn p)⟩ ∧
      ∃ cs, p' = extend config cs p := by
  obtain ⟨-, normal', hnormal', cs, hcs, hcases⟩ := ofFormula_eq_ok_iff.1 h
  obtain rfl : normal = normal' := Except.ok.inj (hnormal.symm.trans hnormal')
  have hlength : normal.disjuncts.length = cs.length := (mapM_eq_ok_iff.1 hcs).length_eq
  rcases hcases with ⟨rfl, -⟩ | ⟨-, hrun⟩
  · rw [hlength] at hseveral
    exact absurd hseveral (by simp)
  · obtain ⟨-, hroom, hgoal, hextend⟩ := ofAlternatives_eq_ok_iff.1 hrun
    exact ⟨hroom, hgoal, cs, hextend⟩

/-- **After any run, a goal of several clauses is a new fluent exactly if no call has registered the
    ground atom of the next predicate.** Then one fluent is added, and it is the goal. Otherwise none
    is added, and the goal is the fluent that the call has registered. -/
theorem ofFormula_standIn_of_run {ops : List Operation} {f normal : Formula Index}
    (hnormal : f.dnf config.maxClauses = .ok normal) (hseveral : 2 ≤ normal.disjuncts.length)
    (hp : p = Problem.empty.run ops) (h : ofFormula config f p = .ok goal p') :
    (.addFluent ⟨p.predicates.size, []⟩ ∉ ops ∧ goal = ⟨.single p.fluents.size⟩ ∧
        p'.fluents.entries = p.fluents.entries ++ [⟨p.predicates.size, []⟩]) ∨
      (.addFluent ⟨p.predicates.size, []⟩ ∈ ops ∧ p'.fluents = p.fluents ∧
        ∃ x, p.fluents.position? ⟨p.predicates.size, []⟩ = some x ∧ goal = ⟨.single x⟩) := by
  obtain ⟨hroom, rfl, cs, rfl⟩ := ofFormula_of_several h hnormal hseveral
  subst hp
  have hregistered := standInAtom_mem_run_iff hroom
  cases hx : (Problem.empty.run ops).fluents.position? (standInAtom (Problem.empty.run ops)) with
  | none =>
    have hnew := Table.position?_eq_none_iff.1 hx
    refine Or.inl ⟨fun hcalled => hnew (hregistered.2 hcalled), ?_, ?_⟩
    · rw [standIn_of_not_mem hnew]
    · exact Table.entries_insert_of_not_mem hnew
  | some x =>
    have hmem := Table.mem_of_position? hx
    refine Or.inr ⟨hregistered.1 hmem, Table.insert_of_mem hmem, x, hx, ?_⟩
    rw [standIn, Table.add, hx]
    rfl

/-- Two goals in a row: the stand-in of the second is new although the first has one already. -/
theorem ofFormula_standIn_of_run_second_goal :
    let f : Formula Index := .or [.atom ⟨0, []⟩, .atom ⟨1, []⟩]
    let ops : List Operation := [.addPredicate "p" [], .addPredicate "q" [],
      .addFluent ⟨0, []⟩, .addFluent ⟨1, []⟩, .resolvedGoal .default f]
    let p := Problem.empty.run ops
    let p' := Goal.after (ofFormula .default f) p
    f.dnf Config.default.maxClauses = .ok f ∧ ofFormula .default f p = .ok ⟨.single 3⟩ p' ∧
      ((.addFluent ⟨p.predicates.size, []⟩ ∉ ops ∧
          (⟨.single 3⟩ : Goal) = ⟨.single p.fluents.size⟩ ∧
          p'.fluents.entries = p.fluents.entries ++ [⟨p.predicates.size, []⟩]) ∨
        (.addFluent ⟨p.predicates.size, []⟩ ∈ ops ∧ p'.fluents = p.fluents ∧
          ∃ x, p.fluents.position? ⟨p.predicates.size, []⟩ = some x ∧
            (⟨.single 3⟩ : Goal) = ⟨.single x⟩)) := by
  intro f ops p p'
  have hnormal : f.dnf Config.default.maxClauses = .ok f := by rfl
  have h : ofFormula .default f p = .ok ⟨.single 3⟩ p' := by rfl
  exact ⟨hnormal, h, ofFormula_standIn_of_run hnormal (by decide) rfl h⟩

/-- With the atom of the next predicate registered ahead of it, the goal is an old fluent. -/
theorem ofFormula_takes_old_fluent :
    let f : Formula Index := .or [.atom ⟨0, []⟩, .atom ⟨1, []⟩]
    let p := Problem.empty.run [.addPredicate "p" [], .addFluent ⟨0, []⟩, .addFluent ⟨1, []⟩]
    let p' := Goal.after (ofFormula .default f) p
    f.dnf Config.default.maxClauses = .ok f ∧ 2 ≤ f.disjuncts.length ∧
      ofFormula .default f p = .ok ⟨.single 1⟩ p' ∧ p.fluents.size = 2 ∧ p'.fluents.size = 2 := by
  refine ⟨rfl, ?_, rfl, rfl, rfl⟩
  decide

end Goal

end GoalCompiler
