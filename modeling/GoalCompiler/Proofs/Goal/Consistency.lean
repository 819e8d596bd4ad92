import GoalCompiler.Proofs.Goal.Clauses
import GoalCompiler.Proofs.Goal.Meaning
import GoalCompiler.Proofs.NormalForm.Polarity

set_option autoImplicit false

/-! # Consistency of compiled goals

A clause may have an atom and the negation of it, or of another atom with the same fluent. Its
condition then requires and forbids one fluent and holds nowhere. The normal form only removes
repetitions, so when it distributes conjunctions over disjunctions such clauses arise and stay, also
in goals that can be reached (`Goal.ofFormula_keeps_contradictory_clause`).

The conditions of all other clauses are consistent. A clause that is true in some state is one of
them, so if there is a state in which the goal is true, the compiled goal is consistent and so is
the precondition of one of the actions (`Goal.ofFormula_consistent`). No clause is contradictory if
no fluent has both polarities in the goal (`Goal.ofFormula_consistent_of_polarity`). -/

namespace GoalCompiler

/-! ## Contradictory clauses -/

namespace Problem

variable {p : Problem}

/-- Leaves that are true in one state do not contradict each other. -/
theorem not_contradictory_of_truth (s : State) {fs : List (Formula Index)}
    (h : ∀ f ∈ fs, f.truth (s.valuation p).value = true) : ¬ p.Contradictory fs := by
  rintro ⟨a, b, x, ha, hb, hax, hbx⟩
  have hread {c : Application Index} (hc : p.fluent? (.ofApplication c) = some x) :
      (Formula.atom c).truth (s.valuation p).value = s.fluents x := by
    show s.holdsAtom p (.ofApplication c) = s.fluents x
    rw [State.holdsAtom, hc]
  have htrue := h _ ha
  have hfalse := h _ hb
  rw [hread hax] at htrue
  rw [Formula.truth_not, hread hbx, htrue] at hfalse
  exact absurd hfalse (by simp)

end Problem

theorem Condition.isConsistent_single (x : FluentId) : (single x).isConsistent = true := by
  simp [isConsistent, single, FluentSet.isDisjoint_iff, FluentSet.not_mem_empty]

/-- Where a formula is true, all literals of one of its clauses are. -/
theorem Formula.exists_clause_of_truth {σ : Type} {value : Formula σ → Bool} {f : Formula σ}
    (h : f.truth value = true) :
    ∃ clause ∈ f.disjuncts, ∀ g ∈ clause.conjuncts, g.truth value = true := by
  rw [truth_eq_any_disjuncts, List.any_eq_true] at h
  obtain ⟨clause, hclause, htrue⟩ := h
  rw [← truth_toConjunction, toConjunction_eq, truth_and, List.all_eq_true] at htrue
  exact ⟨clause, hclause, htrue⟩

/-! ## Alternatives -/

namespace Goal

variable {config : Config} {p p' : Problem} {goal : Goal} {f : Formula Index}

/-- The alternatives of a normal form are the conditions of its clauses. -/
theorem alternatives_eq_map {normal : Formula Index} {cs : List Condition}
    (hnormal : normal.IsNormal) (h : alternatives p config normal = .ok cs) :
    cs = normal.disjuncts.map fun clause => .ofLiterals p config.numericGoals clause.conjuncts := by
  have hmap : normal.disjuncts.map
      (fun clause => .ofLiterals p config.numericGoals clause.conjuncts) = cs.map id := by
    refine map_eq_map_of_forall₂ (mapM_eq_ok_iff.1 h) ?_
    intro clause hclause c hc
    obtain ⟨-, rfl⟩ := Condition.ofFormulaAt_eq_ok_iff.1 hc
    rw [(hnormal.isClause_of_mem hclause).flatConjuncts_toConjunction]
    rfl
  rw [hmap, List.map_id]

/-- What a run emits, in terms of the clauses of the goal: the condition of the only clause, or the
    stand-in and an action for each clause. -/
theorem exists_clauses_of_ofFormula (h : ofFormula config f p = .ok goal p') :
    ∃ normal, f.dnf config.maxClauses = .ok normal ∧
      ((∃ clause, normal.disjuncts = [clause] ∧ p' = p ∧
          goal.condition = .ofLiterals p config.numericGoals clause.conjuncts) ∨
        goal.condition = .single (standIn p) ∧
          p'.actions = p.actions ++ normal.disjuncts.map fun clause =>
            .synthetic config.actionName (.ofLiterals p config.numericGoals clause.conjuncts)
              (.unconditional (.adding (standIn p)))) := by
  obtain ⟨-, normal, hnormal, cs, hcs, hcases⟩ := ofFormula_eq_ok_iff.1 h
  have hshape : normal.IsNormal := by
    rw [Formula.dnf_eq_ofClauses_expansion hnormal]
    exact Formula.isNormal_ofClauses_expansion f
  obtain rfl := alternatives_eq_map hshape hcs
  refine ⟨normal, hnormal, ?_⟩
  rcases hcases with ⟨hone, rfl⟩ | ⟨-, hrun⟩
  · obtain ⟨clause, hclause, hcondition⟩ := List.map_eq_singleton_iff.1 hone
    exact Or.inl ⟨clause, hclause, rfl, hcondition.symm⟩
  · obtain ⟨-, -, rfl, rfl⟩ := ofAlternatives_eq_ok_iff.1 hrun
    exact Or.inr ⟨rfl, by rw [extend, List.map_map]; rfl⟩

/-! ## Reachable goals -/

/-- **If a goal is true in some state, its compiled form is consistent.** The appended actions with
    inconsistent preconditions are those of the contradictory clauses, and there is another one. -/
theorem ofFormula_consistent (s : State) (hsat : f.truth (s.valuation p).value = true)
    (h : ofFormula config f p = .ok goal p') :
    goal.condition.isConsistent = true ∧
      ∃ normal new, f.dnf config.maxClauses = .ok normal ∧ p'.actions = p.actions ++ new ∧
        (normal.disjuncts.length = 1 ∧ new = [] ∨
          List.Forall₂ (fun clause (a : Action) =>
            a.precondition.isConsistent = false ↔ p.Contradictory clause.conjuncts)
              normal.disjuncts new ∧
          ∃ a ∈ new, a.precondition.isConsistent = true) := by
  obtain ⟨normal, hnormal, hcases⟩ := exists_clauses_of_ofFormula h
  -- The clause that is true in the state has a consistent condition.
  have htruth : normal.truth (s.valuation p).value = true := by
    rw [Formula.dnf_eq_ofClauses_expansion hnormal, Formula.truth_ofClauses_expansion, hsat]
  obtain ⟨clause, hclause, hliterals⟩ := Formula.exists_clause_of_truth htruth
  have hconsistent : (Condition.ofLiterals p config.numericGoals clause.conjuncts).isConsistent =
      true := by
    rw [← Bool.not_eq_false, Condition.isConsistent_ofLiterals]
    exact Problem.not_contradictory_of_truth s hliterals
  rcases hcases with ⟨only, hone, rfl, hgoal⟩ | ⟨hgoal, hactions⟩
  · rw [hone, List.mem_singleton] at hclause
    subst hclause
    rw [hgoal]
    exact ⟨hconsistent, normal, [], hnormal, by simp, Or.inl ⟨by rw [hone]; rfl, rfl⟩⟩
  · rw [hgoal]
    refine ⟨Condition.isConsistent_single _, normal, _, hnormal, hactions, Or.inr ⟨?_, ?_⟩⟩
    · rw [List.forall₂_map_right_iff, List.forall₂_same]
      intro clause _
      exact Condition.isConsistent_ofLiterals
    · exact ⟨_, List.mem_map_of_mem hclause, hconsistent⟩

/-- The clause of the negated left side is contradictory, since the left side is also required. The
    other clause is not. -/
theorem ofFormula_consistent_imply :
    let p : Problem := {
      predicates := ⟨["wet", "cold"], by decide⟩, signatures := [[], []],
      fluents := ⟨[⟨0, []⟩, ⟨1, []⟩], by decide⟩ }
    let f : Formula Index := .and [.imply (.atom ⟨0, []⟩) (.atom ⟨1, []⟩), .atom ⟨0, []⟩]
    let s : State := ⟨fun _ => true, fun _ => false, .ofAtoms fun _ => false⟩
    f.truth (s.valuation p).value = true ∧
      ∃ goal p', ofFormula {} f p = .ok goal p' ∧
        p'.actions.map (·.precondition.isConsistent) = [false, true] ∧
        goal.condition.isConsistent = true ∧
        ∃ normal new, f.dnf ({} : Config).maxClauses = .ok normal ∧ p'.actions = p.actions ++ new ∧
          (normal.disjuncts.length = 1 ∧ new = [] ∨
            List.Forall₂ (fun clause (a : Action) =>
              a.precondition.isConsistent = false ↔ p.Contradictory clause.conjuncts)
                normal.disjuncts new ∧
            ∃ a ∈ new, a.precondition.isConsistent = true) := by
  intro p f s
  have hsat : f.truth (s.valuation p).value = true := rfl
  exact ⟨hsat, _, _, rfl, rfl, ofFormula_consistent s hsat rfl⟩

/-- A goal that is true where the second fluent is true and the first is not. One of its two clauses
    has the first atom and its negation, and this clause has an action, too. -/
theorem ofFormula_keeps_contradictory_clause :
    let p : Problem := {
      predicates := ⟨["wet", "cold"], by decide⟩, signatures := [[], []],
      fluents := ⟨[⟨0, []⟩, ⟨1, []⟩], by decide⟩ }
    let f : Formula Index :=
      .and [.or [.atom ⟨0, []⟩, .atom ⟨1, []⟩], .not (.atom ⟨0, []⟩)]
    let s : State := ⟨fun x => x == 1, fun _ => false, .ofAtoms fun _ => false⟩
    f.truth (s.valuation p).value = true ∧
      ∃ goal p', ofFormula {} f p = .ok goal p' ∧
        ∃ a ∈ p'.actions, a ∉ p.actions ∧ a.precondition.isConsistent = false := by
  intro p f s
  refine ⟨rfl, _, _, rfl, _, List.mem_cons_self, ?_, rfl⟩
  exact List.not_mem_nil

/-! ## Goals of one polarity -/

/-- **If no fluent is that of an atom under one polarity and of an atom under the other, all that is
    emitted is consistent.** -/
theorem ofFormula_consistent_of_polarity
    (hpolarity : ∀ a b x, (false, .atom a) ∈ f.signedNodes false →
      (true, .atom b) ∈ f.signedNodes false → p.fluent? (.ofApplication a) = some x →
        p.fluent? (.ofApplication b) ≠ some x)
    (h : ofFormula config f p = .ok goal p') :
    goal.condition.isConsistent = true ∧
      ∃ new, p'.actions = p.actions ++ new ∧ ∀ a ∈ new, a.precondition.isConsistent = true := by
  obtain ⟨normal, hnormal, hcases⟩ := exists_clauses_of_ofFormula h
  have hconsistent : ∀ clause ∈ normal.disjuncts,
      (Condition.ofLiterals p config.numericGoals clause.conjuncts).isConsistent = true := by
    intro clause hclause
    rw [← Bool.not_eq_false, Condition.isConsistent_ofLiterals]
    rintro ⟨a, b, x, ha, hb, hax, hbx⟩
    have hleaf {g : Formula Index} (hg : g ∈ clause.conjuncts) : g ∈ (f.nnf false).leaves :=
      Formula.mem_leaves_of_mem_conjuncts hnormal hclause hg
    exact hpolarity a b x (Formula.mem_signedNodes_of_atom (hleaf ha))
      (Formula.mem_signedNodes_of_not_atom (hleaf hb)) hax hbx
  rcases hcases with ⟨only, hone, rfl, hgoal⟩ | ⟨hgoal, hactions⟩
  · rw [hgoal]
    exact ⟨hconsistent only (by simp [hone]), [], by simp, by simp⟩
  · rw [hgoal]
    exact ⟨Condition.isConsistent_single _, _, hactions, List.forall_mem_map.2 hconsistent⟩

end Goal

end GoalCompiler
