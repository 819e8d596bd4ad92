import GoalCompiler.Proofs.Condition.Conjuncts
import GoalCompiler.Proofs.Goal.Acceptance
import GoalCompiler.Proofs.NormalForm.Conjunction

set_option autoImplicit false

/-! # Goals that are conjunctions

There are two ways from a conjunction of literals to a condition. `Condition.ofFormula` goes down
through the conjunctions and takes what it finds. Goal compilation does not know that the goal is a
conjunction: it normalizes it and takes the condition of the only clause. Both read the leaves of
the nested conjunctions from left to right, but the clause has them without repetitions.

For fluents this makes no difference, since they are in a set anyway. The constraints on numbers are
a list, and there the repetitions are missing (`Condition.ofLiterals_eraseDups`). -/

namespace GoalCompiler

/-! ## Leaves -/

namespace Problem

variable {p : Problem} {f g : Formula Index}

/-- What has a place in conditions is a literal that the normal form keeps as it is. -/
theorem isNormalLiteral_of_accepts (h : p.accepts f = true) : f.isNormalLiteral = true := by
  unfold accepts at h
  split at h
  · rfl
  · rfl
  · rfl
  · rfl
  · exact absurd h (by simp)

theorem required?_eq_of_same (h : f.same g = true) : p.required? f = p.required? g := by
  revert h
  fun_cases Formula.same f g <;> intro h
  case case1 a b => rw [eq_of_beq h]
  case case22 => exact absurd h (by simp)
  all_goals rfl

theorem forbidden?_eq_of_same (h : f.same g = true) : p.forbidden? f = p.forbidden? g := by
  revert h
  fun_cases Formula.same f g <;> intro h
  case case6 f g => exact required?_eq_of_same h
  case case22 => exact absurd h (by simp)
  all_goals rfl

end Problem

/-- Comparisons are equal exactly if their constraints are. -/
theorem Formula.same_eq_of_constraint? {f g : Formula Index} {k m : NumericConstraint}
    (hf : f.constraint? = some k) (hg : g.constraint? = some m) : f.same g = (k == m) := by
  unfold constraint? at hf hg
  split at hf
  · split at hg
    · cases hf
      cases hg
      rw [same]
      rfl
    · exact absurd hg (by simp)
  · exact absurd hf (by simp)

theorem Formula.same_eq_false_of_constraint? {f g : Formula Index} {k : NumericConstraint}
    (hf : f.constraint? = some k) (hg : g.constraint? = none) : f.same g = false := by
  fun_cases same f g
  case case10 => exact absurd hg (by simp [constraint?])
  case case22 => rfl
  all_goals exact absurd hf (by simp [constraint?])

/-! ## Conditions -/

theorem NumericPolicy.constraints_eraseDups (policy : NumericPolicy) (fs : List (Formula Index)) :
    policy.constraints fs.eraseDups = (policy.constraints fs).eraseDups := by
  cases policy with
  | drop => rfl
  | capture =>
    refine filterMap_eraseDups ?_ ?_ fs
    · intro f g k m hf hg
      exact Formula.same_eq_of_constraint? hf hg
    · intro f g k hf hg
      exact Formula.same_eq_false_of_constraint? hf hg

theorem ofList_filterMap_eraseDups {read : Formula Index → Option FluentId}
    (hread : ∀ f g, f.same g = true → read f = read g) (fs : List (Formula Index)) :
    FluentSet.ofList (fs.eraseDups.filterMap read) = .ofList (fs.filterMap read) := by
  apply FluentSet.ext_mem
  intro x
  rw [FluentSet.mem_ofList, FluentSet.mem_ofList]
  exact mem_filterMap_eraseDups hread

/-- **Repeated leaves change a condition only in its constraints.** -/
theorem Condition.ofLiterals_eraseDups (p : Problem) (policy : NumericPolicy)
    (fs : List (Formula Index)) :
    ofLiterals p policy fs.eraseDups =
      { ofLiterals p policy fs with numeric := (ofLiterals p policy fs).numeric.eraseDups } := by
  rw [ofLiterals, ofList_filterMap_eraseDups fun f g h => Problem.required?_eq_of_same h,
    ofList_filterMap_eraseDups fun f g h => Problem.forbidden?_eq_of_same h,
    NumericPolicy.constraints_eraseDups]
  rfl

/-! ## Goals -/

namespace Goal

variable {config : Config} {p : Problem}

/-- The clause of some leaves has one alternative. -/
theorem alternatives_joinDistinct (hdepth : 1 ≤ config.maxDepth) {fs : List (Formula Index)}
    (hfs : ∀ f ∈ fs, p.accepts f = true) :
    alternatives p config (Formula.joinDistinct .and fs) =
      .ok [Condition.ofLiterals p config.numericGoals fs.eraseDups] := by
  have hnormal : ∀ f ∈ fs, f.isNormalLiteral = true := by
    intro f hf
    exact Problem.isNormalLiteral_of_accepts (hfs f hf)
  have hclause := Formula.isClause_joinDistinct hnormal
  have hcondition : Condition.ofFormula p config (Formula.joinDistinct .and fs).toConjunction =
      .ok (Condition.ofLiterals p config.numericGoals fs.eraseDups) := by
    rw [Condition.ofFormula_toConjunction_eq_ok_iff hdepth hclause,
      Formula.conjuncts_joinDistinct hnormal]
    exact ⟨fun f hf => hfs f ((eraseDups_sublist fs).subset hf), rfl⟩
  rw [alternatives, hclause.disjuncts_eq, mapM_eq_ok_iff]
  exact .cons hcondition .nil

/-- **A goal that is a conjunction compiles to its condition, less repeated constraints, and nothing
    is added to the problem.** -/
theorem ofFormula_of_conjunction {f : Formula Index} {c : Condition} (hdepth : 1 ≤ config.maxDepth)
    (hclauses : 1 ≤ config.maxClauses) (hheight : f.height ≤ config.maxDepth)
    (h : Condition.ofFormula p config f = .ok c) :
    ofFormula config f p = .ok ⟨{ c with numeric := c.numeric.eraseDups }⟩ p := by
  obtain ⟨hnone, rfl⟩ := Condition.ofFormulaAt_eq_ok_iff.1 h
  obtain ⟨-, haccepts⟩ := Condition.forall_fault?_eq_none_iff.1 hnone
  have hnormal : ∀ g ∈ f.flatConjuncts, g.isNormalLiteral = true := by
    intro g hg
    exact Problem.isNormalLiteral_of_accepts (haccepts g hg)
  have hdnf := Formula.dnf_of_literals hclauses hnormal
  have halternatives := alternatives_joinDistinct hdepth haccepts
  rw [Condition.ofLiterals_eraseDups] at halternatives
  exact ofFormula_eq_ok_iff.2 ⟨Formula.exceedsDepth_eq_false_iff.2 hheight, _, hdnf, _,
    halternatives, Or.inl ⟨rfl, rfl⟩⟩

/-- The two zeros are equal, so the second of them goes. A NaN is not equal to itself and stays
    twice. The atom that is there twice is one fluent either way. -/
theorem ofFormula_of_conjunction_repeated :
    let p : Problem := { fluents := ⟨[⟨0, []⟩, ⟨1, []⟩], by decide⟩ }
    let config : Config := { maxDepth := 3, maxClauses := 1, numericGoals := .capture }
    let bound (bits : UInt64) : NumericConstraint := ⟨.less, .elapsed, .number ⟨bits⟩⟩
    let below (bits : UInt64) : Formula Index := .compare .less .elapsed (.number ⟨bits⟩)
    let f : Formula Index := .and [below 0, .and [.atom ⟨0, []⟩, below 0x7ff8000000000000,
      .not (.atom ⟨1, []⟩)], below 0x8000000000000000, .atom ⟨0, []⟩, below 0x7ff8000000000000]
    let c : Condition := {
      positive := .singleton 0, negative := .singleton 1
      numeric := [bound 0, bound 0x7ff8000000000000, bound 0x8000000000000000,
        bound 0x7ff8000000000000] }
    Condition.ofFormula p config f = .ok c ∧
      ofFormula config f p = .ok ⟨{ c with
        numeric := [bound 0, bound 0x7ff8000000000000, bound 0x7ff8000000000000] }⟩ p := by
  intro p config bound below f c
  have h : Condition.ofFormula p config f = .ok c := by rfl
  exact ⟨h, ofFormula_of_conjunction (by decide) (by decide) (by decide) h⟩

end Goal

end GoalCompiler
