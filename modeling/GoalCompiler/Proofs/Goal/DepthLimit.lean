import GoalCompiler.Proofs.Goal.Acceptance
import GoalCompiler.Proofs.Goal.Failure
import GoalCompiler.Proofs.Resolution.Depth

set_option autoImplicit false

/-! # The depth limit in goal compilation

Depth is checked three times on the way of a goal: by resolution, by goal compilation before it
normalizes, and once more in the clauses of the normal form. A goal that has passed one check should
not fail at the next, and with two exceptions it does not.

- Resolution lets an ordering pass on the last level allowed, although the task occurrences below it
  are one level deeper (`Goal.tooDeep_iff_ordering`).
- A clause of one literal is made a conjunction before its condition is built, and this puts the
  literal one level down. A limit of zero then refuses every goal that is a literal
  (`Goal.depthError_iff`). Under any other limit there is room, since clauses have no more than two
  levels that are checked. -/

namespace GoalCompiler

/-! ## Formulas without levels below -/

namespace Formula

variable {σ : Type}

/-- A formula of height zero is basic, or a connective of nothing. -/
theorem isBasic_or_of_height_eq_zero {f : Formula σ} (h : f.height = 0) :
    f.isBasic = true ∨ f = and [] ∨ f = or [] := by
  cases f with
  | and fs =>
    cases fs with
    | nil => exact Or.inr (Or.inl rfl)
    | cons f fs => exact absurd h (by simp [height, heightBelow])
  | or fs =>
    cases fs with
    | nil => exact Or.inr (Or.inr rfl)
    | cons f fs => exact absurd h (by simp [height, heightBelow])
  | not f => exact absurd h (by simp [height])
  | imply l r => exact absurd h (by simp [height])
  | _ => exact Or.inl rfl

theorem isLiteral_of_isBasic {f : Formula σ} (h : f.isBasic = true) : f.isLiteral = true := by
  cases f with
  | not f => exact absurd h (by simp [isBasic])
  | _ => exact h

theorem nnf_of_isBasic {f : Formula σ} (h : f.isBasic = true) : f.nnf false = .leaf f := by
  cases f with
  | and | or | imply | not => exact absurd h (by simp [isBasic])
  | _ => rfl

variable [DecidableEq σ]

/-- A basic formula is its own normal form, unless no clause at all is allowed. -/
theorem dnf_of_isBasic {f : Formula σ} (h : f.isBasic = true) (limit : Nat) :
    f.dnf limit = if limit = 0 then .error ⟨limit⟩ else .ok f := by
  rw [dnf, nnf_of_isBasic h, AndOr.clauses]
  split <;> rfl

end Formula

/-! ## Faults of depth -/

theorem Condition.ofFormulaAt_of_deep {p : Problem} {config : Config} {depth : Nat}
    {f : Formula Index} (hdeep : config.maxDepth < depth) :
    ofFormulaAt p config depth f = .error (.tooDeep config.maxDepth) := by
  unfold ofFormulaAt
  rw [if_pos hdeep]

theorem ConditionError.ofLeaf_ne_tooDeep (f : Formula Index) (limit : Nat) :
    ofLeaf f ≠ tooDeep limit := by
  unfold ofLeaf
  split <;> simp

/-- A node within the limit may be at fault, but not for its depth. -/
theorem Problem.lt_of_fault?_eq_tooDeep {p : Problem} {config : Config} {n : Nat × Formula Index}
    {limit : Nat} (h : p.fault? config n = some (.tooDeep limit)) : config.maxDepth < n.1 := by
  unfold fault? at h
  split at h
  · assumption
  · split at h
    · exact absurd h (by simp)
    · exact absurd (Option.some.inj h) (ConditionError.ofLeaf_ne_tooDeep n.2 limit)

/-! ## Goals -/

namespace Goal

variable {p : Problem} {config : Config}

/-- **What resolution lets pass is too deep for goal compilation exactly if an ordering stands on
    the last level allowed.** So a goal as written is refused for its depth after it was resolved
    exactly if it resolves to such a formula. -/
theorem tooDeep_iff_ordering (p : Problem) (config : Config) :
    (∀ (scope : List Name) (f : Formula Name) (t : Formula Index),
      f.resolve p config scope = .ok t →
        (t.exceedsDepth config.maxDepth = true ↔
          ∃ o l r, .ordering o l r ∈ t.nodesAt config.maxDepth)) ∧
    ∀ f : Formula Name, (∃ limit q, compile config f p = .error (.tooDeep limit) q) ↔
      ∃ t, f.resolve p config [] = .ok t ∧
        ∃ o l r, .ordering o l r ∈ t.nodesAt config.maxDepth := by
  refine ⟨fun scope f t h => Formula.exceedsDepth_iff_of_resolve h, ?_⟩
  intro f
  simp only [compile_eq_error_iff, ofFormula_eq_error_iff]
  constructor
  · intro h
    obtain ⟨limit, q, ⟨cause, -, herror, -⟩ | ⟨t, hresolve, -, hrefused⟩⟩ := h
    · exact absurd herror (by simp)
    · cases hrefused with
      | tooDeep deep => exact ⟨t, hresolve, (Formula.exceedsDepth_iff_of_resolve hresolve).1 deep⟩
  · intro h
    obtain ⟨t, hresolve, hordering⟩ := h
    have hdeep := (Formula.exceedsDepth_iff_of_resolve hresolve).2 hordering
    exact ⟨_, p, Or.inr ⟨t, hresolve, rfl, .tooDeep hdeep⟩⟩

/-- Two levels are enough for the method constraint, whose condition is on the level of the task
    occurrence. They are one too few for the ordering, although it is resolved. -/
theorem tooDeep_iff_ordering_constraints :
    let f : Formula Name := .and [
      .hold .after (.occurrence false "t1") (.constant true),
      .not (.ordering .before (.occurrence false "t1") (.occurrence true "t2"))]
    let t : Formula Index := .and [
      .hold .after (.occurrence false 1) (.constant true),
      .not (.ordering .before (.occurrence false 1) (.occurrence true 2))]
    f.resolve .empty { maxDepth := 2 } ["x"] = .ok t ∧ t.exceedsDepth 2 = true ∧
      (∃ limit q, compile { maxDepth := 2 } f .empty = .error (.tooDeep limit) q) ∧
      ¬ ∃ limit q, compile { maxDepth := 3 } f .empty = .error (.tooDeep limit) q := by
  intro f t
  have hresolve (scope : List Name) : f.resolve .empty { maxDepth := 2 } scope = .ok t := rfl
  have hordering : ∃ o l r, Formula.ordering o l r ∈ t.nodesAt 2 :=
    ⟨_, _, _, List.mem_cons_of_mem _ (List.mem_cons_of_mem _ List.mem_cons_self)⟩
  obtain ⟨hguards, hcompile⟩ := tooDeep_iff_ordering .empty { maxDepth := 2 }
  refine ⟨hresolve ["x"], (hguards ["x"] f t (hresolve ["x"])).2 hordering,
    (hcompile f).2 ⟨t, hresolve [], hordering⟩, ?_⟩
  rw [(tooDeep_iff_ordering .empty { maxDepth := 3 }).2 f]
  rintro ⟨u, hu, o, l, r, hmem⟩
  cases hu
  simp [Formula.nodesAt, Formula.children] at hmem

/-- With a limit of one level the ordering below a conjunction is resolved, to a formula of two
    levels, and it is goal compilation that refuses it. -/
theorem resolve_lets_ordering_pass :
    let f : Formula Name :=
      .and [.ordering .before (.occurrence false "t1") (.occurrence false "t2")]
    let t : Formula Index := .and [.ordering .before (.occurrence false 1) (.occurrence false 2)]
    let config : Config := { maxDepth := 1 }
    f.resolve .empty config [] = .ok t ∧ t.exceedsDepth config.maxDepth = true ∧
      compile config f .empty = .error (.tooDeep 1) .empty := by
  exact ⟨rfl, rfl, rfl⟩

/-- Under a limit of at least one level no clause of a normal form is too deep. -/
theorem alternatives_ne_tooDeep {limit : Nat} {normal : Formula Index}
    (hdepth : 1 ≤ config.maxDepth) (hnormal : normal.IsNormal) :
    alternatives p config normal ≠ .error (.tooDeep limit) := by
  intro h
  obtain ⟨clause, hclause, herror⟩ := exists_mem_of_mapM_eq_error h
  obtain ⟨before, n, after, hnodes, -, hfault⟩ := Condition.ofFormulaAt_eq_error_iff.1 herror
  have hlevel : n.1 ≤ 1 := by
    refine (hnormal.isClause_of_mem hclause).depth_le_one n ?_
    rw [hnodes]
    exact List.mem_append_right before List.mem_cons_self
  have hdeep := Problem.lt_of_fault?_eq_tooDeep hfault
  omega

/-- Under a limit of zero a literal has no condition as a clause. -/
theorem alternatives_of_isBasic {f : Formula Index} (hdepth : config.maxDepth = 0)
    (hf : f.isBasic = true) : alternatives p config f = .error (.tooDeep config.maxDepth) := by
  have hliteral := Formula.isLiteral_of_isBasic hf
  have hdeep : Condition.ofFormulaAt p config 1 f = .error (.tooDeep config.maxDepth) :=
    Condition.ofFormulaAt_of_deep (by omega)
  have hclause : Condition.ofFormula p config f.toConjunction =
      .error (.tooDeep config.maxDepth) := by
    rw [Formula.toConjunction_eq, Formula.conjuncts_of_isLiteral hliteral, Condition.ofFormula,
      Condition.ofFormulaAt, if_neg (Nat.not_lt_zero _), Condition.ofConjuncts, hdeep]
    rfl
  rw [alternatives, Formula.disjuncts_of_isLiteral hliteral, List.mapM_cons, hclause]
  rfl

/-- **A goal within the depth limit is refused for its depth exactly if the limit is zero and the
    goal is a basic formula, of which there is a normal form.** -/
theorem depthError_iff {f : Formula Index} (hshallow : f.exceedsDepth config.maxDepth = false) :
    (∃ limit q, ofFormula config f p = .error (.tooDeep limit) q ∨
        ofFormula config f p = .error (.condition (.tooDeep limit)) q) ↔
      config.maxDepth = 0 ∧ config.maxClauses ≠ 0 ∧ f.isBasic = true := by
  simp only [ofFormula_eq_error_iff]
  constructor
  · intro h
    obtain ⟨limit, q, ⟨rfl, hrefused⟩ | ⟨rfl, hrefused⟩⟩ := h
    · cases hrefused with
      | tooDeep deep => exact absurd deep (by simp [hshallow])
    · cases hrefused with
      | @condition normal cause shallow expanded refused =>
        have hnormal : normal.IsNormal := by
          rw [Formula.dnf_eq_ofClauses_expansion expanded]
          exact Formula.isNormal_ofClauses_expansion f
        by_cases hdepth : 1 ≤ config.maxDepth
        · exact absurd refused (alternatives_ne_tooDeep hdepth hnormal)
        · -- The limit is zero, so the goal is one of three kinds, and two of them are not refused.
          have hzero : config.maxDepth = 0 := Nat.eq_zero_of_not_pos hdepth
          have hheight : f.height = 0 := by
            have hle := Formula.exceedsDepth_eq_false_iff.1 hshallow
            omega
          rcases Formula.isBasic_or_of_height_eq_zero hheight with hbasic | rfl | rfl
          · refine ⟨hzero, ?_, hbasic⟩
            intro hclauses
            rw [Formula.dnf_of_isBasic hbasic, if_pos hclauses] at expanded
            exact absurd expanded (by simp)
          · cases expanded
            have hdone : alternatives q config (.and []) = .ok [.empty] := rfl
            exact absurd (hdone.symm.trans refused) (by simp)
          · cases expanded
            have hdone : alternatives q config (.or []) = .ok [] := rfl
            exact absurd (hdone.symm.trans refused) (by simp)
  · intro h
    obtain ⟨hzero, hclauses, hbasic⟩ := h
    have hexpanded : f.dnf config.maxClauses = .ok f := by
      rw [Formula.dnf_of_isBasic hbasic, if_neg hclauses]
    exact ⟨_, p, Or.inr ⟨rfl, .condition hshallow hexpanded (alternatives_of_isBasic hzero hbasic)⟩⟩

/-- A limit of one level is enough for a disjunction whose clauses are made conjunctions. -/
theorem depthError_iff_one_level :
    let f : Formula Index := .or [.atom ⟨0, []⟩, .constant true]
    let config : Config := { maxDepth := 1 }
    f.exceedsDepth config.maxDepth = false ∧
      ¬ ∃ limit q, ofFormula config f .empty = .error (.tooDeep limit) q ∨
        ofFormula config f .empty = .error (.condition (.tooDeep limit)) q := by
  intro f config
  have hshallow : f.exceedsDepth config.maxDepth = false := rfl
  refine ⟨hshallow, ?_⟩
  rw [depthError_iff hshallow]
  intro h
  exact absurd h.1 (by decide)

/-- Under a limit of zero an atom is refused as a goal for its depth, although it has no depth and
    has a condition under this limit. -/
theorem ofFormula_refuses_atom :
    let p : Problem := { predicates := ⟨["p"], by decide⟩, fluents := ⟨[⟨0, []⟩], by decide⟩ }
    let f : Formula Index := .atom ⟨0, []⟩
    let config : Config := { maxDepth := 0 }
    f.exceedsDepth config.maxDepth = false ∧
      ofFormula config f p = .error (.condition (.tooDeep 0)) p ∧
      Condition.ofFormula p config f = .ok (.single 0) := by
  exact ⟨rfl, rfl, rfl⟩

end Goal

end GoalCompiler
