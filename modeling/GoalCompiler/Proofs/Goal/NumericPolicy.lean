import GoalCompiler.Proofs.Condition.Conjuncts
import GoalCompiler.Proofs.Goal.Outcome

set_option autoImplicit false

/-! # The numeric policy

The configuration says whether comparisons are kept as numeric constraints or left out. Nothing else
depends on it: two compilations that differ in the policy alone fail alike, or both succeed with
results that are the same but for the numeric constraints (`Goal.ofFormula_policies`).

One lemma carries this through the passes. What a pass gives if comparisons are left out is what it
gives under any policy, with the numeric constraints taken off afterwards. Errors are not touched by
that, so they are the same ones, and neither is the number of alternatives, which decides whether a
stand-in is made up. -/

namespace GoalCompiler

/-- The configuration with another policy. -/
def Config.withPolicy (config : Config) (policy : NumericPolicy) : Config :=
  { config with numericGoals := policy }

/-! ## Conditions without numbers -/

namespace Condition

/-- A condition without its numeric constraints. -/
def withoutNumbers (c : Condition) : Condition := { c with numeric := [] }

variable {p : Problem} {config : Config} {policy : NumericPolicy}

/-- **Leaving comparisons out is to take the numeric constraints off afterwards.** -/
theorem ofFormulaAt_drop (depth : Nat) (f : Formula Index) :
    ofFormulaAt p (config.withPolicy .drop) depth f =
      (ofFormulaAt p (config.withPolicy policy) depth f).map withoutNumbers := by
  -- Whether a node is at fault does not depend on the policy.
  have hfault (policy : NumericPolicy) :
      p.fault? (config.withPolicy policy) = p.fault? config := rfl
  rw [ofFormulaAt_eq, ofFormulaAt_eq, hfault, hfault]
  cases (f.conjunctionNodes depth).findSome? (p.fault? config) with
  | none => rfl
  | some e => rfl

end Condition

/-! ## Alternatives -/

namespace Goal

variable {p : Problem} {config : Config} {policy : NumericPolicy}

theorem alternatives_drop (policy : NumericPolicy) (normal : Formula Index) :
    alternatives p (config.withPolicy .drop) normal =
      (alternatives p (config.withPolicy policy) normal).map
        (List.map Condition.withoutNumbers) := by
  rw [alternatives, alternatives, ← mapM_map_eq_map]
  congr 1
  funext clause
  exact Condition.ofFormulaAt_drop 0 clause.toConjunction

end Goal

/-! ## Goals -/

/-- A goal without its numeric constraints. -/
def Goal.withoutNumbers (g : Goal) : Goal := ⟨g.condition.withoutNumbers⟩

/-- An action without the numeric constraints of its precondition. -/
def Action.withoutNumbers (a : Action) : Action :=
  { a with precondition := a.precondition.withoutNumbers }

namespace Goal

/-- The results of two compilations in the problem `p` are the same but for the numeric constraints
    of the goals and of the preconditions of the actions that are new. -/
structure SameButNumbers (p : Problem) (goal goal' : Goal) (q q' : Problem) : Prop where
  goal : goal.withoutNumbers = goal'.withoutNumbers
  /-- Everything but the actions is the same. -/
  tables : { q with actions := [] } = { q' with actions := [] }
  actions : ∃ new new', q.actions = p.actions ++ new ∧ q'.actions = p.actions ++ new' ∧
    new.map Action.withoutNumbers = new'.map Action.withoutNumbers

/-- A compilation in the problem `p` has put no numeric constraint anywhere. -/
structure HasNoNumbers (p : Problem) (goal : Goal) (q : Problem) : Prop where
  goal : goal.condition.numeric = []
  actions : ∃ new, q.actions = p.actions ++ new ∧ ∀ a ∈ new, a.precondition.numeric = []

variable {p : Problem} {config : Config} {policy : NumericPolicy}

theorem sameButNumbers_of_one (p : Problem) (c : Condition) :
    SameButNumbers p ⟨c.withoutNumbers⟩ ⟨c⟩ p p where
  goal := rfl
  tables := rfl
  actions := ⟨[], [], by simp⟩

theorem hasNoNumbers_of_one (p : Problem) (c : Condition) :
    HasNoNumbers p ⟨c.withoutNumbers⟩ p where
  goal := rfl
  actions := ⟨[], by simp⟩

/-- The stand-in and the effects of the new actions do not depend on the alternatives. -/
theorem sameButNumbers_extend (cs : List Condition) :
    SameButNumbers p ⟨.single (standIn p)⟩ ⟨.single (standIn p)⟩
      (extend (config.withPolicy .drop) (cs.map Condition.withoutNumbers) p)
      (extend (config.withPolicy policy) cs p) where
  goal := rfl
  tables := rfl
  actions := by
    refine ⟨_, _, rfl, rfl, ?_⟩
    rw [List.map_map, List.map_map, List.map_map]
    rfl

theorem hasNoNumbers_extend (cs : List Condition) :
    HasNoNumbers p ⟨.single (standIn p)⟩
      (extend (config.withPolicy .drop) (cs.map Condition.withoutNumbers) p) where
  goal := rfl
  actions := by
    refine ⟨_, rfl, ?_⟩
    simp [Action.synthetic, Condition.withoutNumbers]

/-- With several alternatives both runs stop at a full index space, or both extend the problem. -/
theorem ofAlternatives_policies (config : Config) (cs : List Condition) (p : Problem) :
    (∃ e, ofAlternatives (config.withPolicy .drop) (cs.map Condition.withoutNumbers) p =
        .error e p ∧
      ofAlternatives (config.withPolicy .capture) cs p = .error e p) ∨
    ∃ goal goal' q q',
      ofAlternatives (config.withPolicy .drop) (cs.map Condition.withoutNumbers) p = .ok goal q ∧
      ofAlternatives (config.withPolicy .capture) cs p = .ok goal' q' ∧
      SameButNumbers p goal goal' q q' ∧ HasNoNumbers p goal q := by
  rw [run_ofAlternatives, run_ofAlternatives]
  split
  · exact Or.inl ⟨_, rfl, rfl⟩
  · split
    · exact Or.inl ⟨_, rfl, rfl⟩
    · exact Or.inr ⟨_, _, _, _, rfl, rfl, sameButNumbers_extend cs, hasNoNumbers_extend cs⟩

/-- **Two compilations of a goal that differ only in the numeric policy fail with the same error, or
    succeed with results that are the same but for numeric constraints, of which the one that leaves
    comparisons out has none.** -/
theorem ofFormula_policies (config : Config) (f : Formula Index) (p : Problem) :
    (∃ e, ofFormula (config.withPolicy .drop) f p = .error e p ∧
      ofFormula (config.withPolicy .capture) f p = .error e p) ∨
    ∃ goal goal' q q', ofFormula (config.withPolicy .drop) f p = .ok goal q ∧
      ofFormula (config.withPolicy .capture) f p = .ok goal' q' ∧
      SameButNumbers p goal goal' q q' ∧ HasNoNumbers p goal q := by
  rw [run_ofFormula, run_ofFormula]
  have hdepth (policy) : (config.withPolicy policy).maxDepth = config.maxDepth := rfl
  have hclauses (policy) : (config.withPolicy policy).maxClauses = config.maxClauses := rfl
  simp only [hdepth, hclauses]
  by_cases hdeep : f.exceedsDepth config.maxDepth = true
  · rw [if_pos hdeep, if_pos hdeep]
    exact Or.inl ⟨_, rfl, rfl⟩
  rw [if_neg hdeep, if_neg hdeep]
  cases f.dnf config.maxClauses with
  | error cause => exact Or.inl ⟨_, rfl, rfl⟩
  | ok normal =>
    dsimp only
    rw [alternatives_drop .capture]
    cases alternatives p (config.withPolicy .capture) normal with
    | error cause => exact Or.inl ⟨_, rfl, rfl⟩
    | ok cs =>
      -- The policy has no say in how many alternatives there are.
      rcases cs with _ | ⟨c, _ | ⟨d, cs⟩⟩
      · exact Or.inl ⟨_, rfl, rfl⟩
      · exact Or.inr ⟨_, _, _, _, rfl, rfl, sameButNumbers_of_one p c, hasNoNumbers_of_one p c⟩
      · exact ofAlternatives_policies config (c :: d :: cs) p

end Goal

end GoalCompiler
