import GoalCompiler.Goal.Compile
import GoalCompiler.Proofs.Condition.Conjuncts
import GoalCompiler.Proofs.NormalForm.Shape

set_option autoImplicit false

/-! # Clauses of a formula in normal form

Goal compilation takes a formula in normal form apart again: into its disjuncts, and each of these
into its conjuncts. These are the clauses that the formula was made of, less repetitions
(`Formula.disjuncts_ofClauses`, `Formula.conjuncts_joinDistinct`). A test that does not tell equal
formulas apart does not see the repetitions: it holds of all literals of the formula exactly if it
holds of all literals of the clauses (`Formula.all_literals_ofClauses`). -/

namespace GoalCompiler

namespace Formula

variable {σ : Type}

/-! ## Taking formulas apart -/

/-- The formulas that a formula is the conjunction of. -/
def conjuncts : Formula σ → List (Formula σ)
  | and fs => fs
  | f => [f]

theorem toConjunction_eq (f : Formula σ) : f.toConjunction = and f.conjuncts := by
  cases f <;> rfl

theorem conjuncts_of_isLiteral {f : Formula σ} (h : f.isLiteral = true) : f.conjuncts = [f] := by
  cases f with
  | and fs => exact absurd h (by simp [isLiteral, isBasic])
  | _ => rfl

theorem disjuncts_of_isLiteral {f : Formula σ} (h : f.isLiteral = true) : f.disjuncts = [f] := by
  cases f with
  | or fs => exact absurd h (by simp [isLiteral, isBasic])
  | _ => rfl

theorem isLiteral_of_isNormalLiteral {f : Formula σ} (h : f.isNormalLiteral = true) :
    f.isLiteral = true := by
  unfold isNormalLiteral at h
  rw [Bool.and_eq_true] at h
  exact h.1

variable [DecidableEq σ]

theorem IsClause.disjuncts_eq {f : Formula σ} (h : f.IsClause) : f.disjuncts = [f] := by
  cases h with
  | literal normal => exact disjuncts_of_isLiteral (isLiteral_of_isNormalLiteral normal)
  | and => rfl

theorem IsClause.isNormalLiteral_of_mem {f g : Formula σ} (h : f.IsClause)
    (hg : g ∈ f.conjuncts) : g.isNormalLiteral = true := by
  cases h with
  | literal normal =>
    rw [conjuncts_of_isLiteral (isLiteral_of_isNormalLiteral normal), List.mem_singleton] at hg
    rw [hg, normal]
  | and literals => exact literals g hg

theorem IsClause.isLiteral_of_mem {f g : Formula σ} (h : f.IsClause) (hg : g ∈ f.conjuncts) :
    g.isLiteral = true := isLiteral_of_isNormalLiteral (h.isNormalLiteral_of_mem hg)

theorem IsClause.not_conjunction_of_mem {f g : Formula σ} (h : f.IsClause)
    (hg : g ∈ f.conjuncts) : g.isConjunction = false :=
  not_conjunction_of_isLiteral (h.isLiteral_of_mem hg)

theorem IsClause.flatConjuncts_toConjunction {f : Formula σ} (h : f.IsClause) :
    f.toConjunction.flatConjuncts = f.conjuncts := by
  rw [toConjunction_eq]
  exact flatConjunctsOf_of_leaves fun g hg => h.not_conjunction_of_mem hg

/-- The literals of a clause are one level below the conjunction that is made of it. -/
theorem IsClause.depth_le_one {f : Formula σ} (h : f.IsClause) :
    ∀ n ∈ f.toConjunction.conjunctionNodes 0, n.1 ≤ 1 := by
  intro n hn
  rw [toConjunction_eq, conjunctionNodes,
    conjunctionNodesOf_of_leaves fun g hg => h.not_conjunction_of_mem hg] at hn
  rcases List.mem_cons.1 hn with rfl | hn
  · exact Nat.zero_le 1
  · obtain ⟨g, -, rfl⟩ := List.mem_map.1 hn
    exact Nat.le_refl 1

/-- The disjuncts of a normal form are clauses. -/
theorem IsNormal.isClause_of_mem {f g : Formula σ} (h : f.IsNormal) (hg : g ∈ f.disjuncts) :
    g.IsClause := by
  cases h with
  | clause clause =>
    rw [clause.disjuncts_eq, List.mem_singleton] at hg
    rw [hg]
    exact clause
  | or clauses => exact clauses g hg

/-! ## Clauses -/

/-- The conjuncts of a clause are its literals without repetitions. -/
theorem conjuncts_joinDistinct {fs : List (Formula σ)}
    (hfs : ∀ f ∈ fs, f.isNormalLiteral = true) :
    (joinDistinct and fs).conjuncts = fs.eraseDups := by
  rcases joinDistinct_cases and fs with hone | ⟨-, hjoin⟩
  · have hmem : joinDistinct and fs ∈ fs.eraseDups := by
      rw [hone]
      exact List.mem_singleton_self _
    have hliteral := isLiteral_of_isNormalLiteral (hfs _ ((eraseDups_sublist fs).subset hmem))
    rw [conjuncts_of_isLiteral hliteral, hone]
  · rw [hjoin, conjuncts]

/-- The disjuncts of the formula of some clauses are the clauses without repetitions. -/
theorem disjuncts_ofClauses {cs : List (List (Formula σ))}
    (hcs : ∀ c ∈ cs, ∀ f ∈ c, f.isNormalLiteral = true) :
    (ofClauses cs).disjuncts = (cs.map (joinDistinct and)).eraseDups := by
  rw [ofClauses]
  rcases joinDistinct_cases or (cs.map (joinDistinct and)) with hone | ⟨-, hjoin⟩
  · have hmem : joinDistinct or (cs.map (joinDistinct and)) ∈ cs.map (joinDistinct and) := by
      refine (eraseDups_sublist _).subset ?_
      rw [hone]
      exact List.mem_singleton_self _
    obtain ⟨c, hc, hjoin⟩ := List.mem_map.1 hmem
    have hclause := isClause_joinDistinct (hcs c hc)
    rw [hjoin] at hclause
    rw [hclause.disjuncts_eq, hone]
  · rw [hjoin, disjuncts]

theorem disjuncts_ofClauses_ne_nil {cs : List (List (Formula σ))}
    (hcs : ∀ c ∈ cs, ∀ f ∈ c, f.isNormalLiteral = true) (hne : cs ≠ []) :
    (ofClauses cs).disjuncts ≠ [] := by
  obtain ⟨c, hc⟩ := List.exists_mem_of_ne_nil cs hne
  obtain ⟨f, hf, -⟩ := exists_mem_eraseDups (List.mem_map_of_mem (f := joinDistinct and) hc)
  rw [disjuncts_ofClauses hcs]
  exact List.ne_nil_of_mem hf

/-- The literals of the clauses of a normal form are leaves of the and/or tree. -/
theorem mem_leaves_of_mem_conjuncts {limit : Nat} {f normal clause g : Formula σ}
    (h : f.dnf limit = .ok normal) (hclause : clause ∈ normal.disjuncts)
    (hg : g ∈ clause.conjuncts) : g ∈ (f.nnf false).leaves := by
  have hliterals := isNormalLiteral_of_mem_expansion f
  rw [dnf_eq_ofClauses_expansion h, disjuncts_ofClauses hliterals] at hclause
  obtain ⟨c, hc, rfl⟩ := List.mem_map.1 ((eraseDups_sublist _).subset hclause)
  rw [conjuncts_joinDistinct (hliterals c hc)] at hg
  exact AndOr.mem_leaves_of_mem_expansion hc ((eraseDups_sublist _).subset hg)

/-! ## Tests of literals -/

variable {q : Formula σ → Bool}

theorem all_eq_all_of_sameAll (hq : ∀ f g, f.same g = true → q f = q g) {fs gs : List (Formula σ)}
    (h : sameAll fs gs = true) : fs.all q = gs.all q := by
  induction fs generalizing gs with
  | nil =>
    cases gs with
    | nil => rfl
    | cons g gs => exact absurd h (by simp [sameAll])
  | cons f fs ih =>
    cases gs with
    | nil => exact absurd h (by simp [sameAll])
    | cons g gs =>
      rw [sameAll, Bool.and_eq_true] at h
      rw [List.all_cons, List.all_cons, hq f g h.1, ih h.2]

/-- Equal formulas have equal conjuncts as far as such a test can see. -/
theorem all_conjuncts_of_same (hq : ∀ f g, f.same g = true → q f = q g) {f g : Formula σ}
    (h : f.same g = true) : f.conjuncts.all q = g.conjuncts.all q := by
  have hfg := hq f g h
  revert h
  fun_cases same f g <;> intro h
  case case4 fs gs => exact all_eq_all_of_sameAll hq h
  case case22 => exact absurd h (by simp)
  all_goals simp only [conjuncts, List.all_cons, List.all_nil, hfg]

/-- **A test that does not tell equal formulas apart holds of all literals of the formula of some
    clauses exactly if it holds of all literals of the clauses.** -/
theorem all_literals_ofClauses (hq : ∀ f g, f.same g = true → q f = q g)
    {cs : List (List (Formula σ))} (hcs : ∀ c ∈ cs, ∀ f ∈ c, f.isNormalLiteral = true) :
    (ofClauses cs).disjuncts.all (fun clause => clause.conjuncts.all q) =
      cs.all fun c => c.all q := by
  have hclause : ∀ c ∈ cs, (joinDistinct and c).conjuncts.all q = c.all q := by
    intro c hc
    rw [conjuncts_joinDistinct (hcs c hc), all_eraseDups hq]
  rw [disjuncts_ofClauses hcs, all_eraseDups fun f g h => all_conjuncts_of_same hq h, List.all_map]
  rw [Bool.eq_iff_iff, List.all_eq_true, List.all_eq_true]
  refine forall₂_congr fun c hc => ?_
  rw [Function.comp_apply, hclause c hc]

end Formula

/-- With a level for its literals a clause has their condition, if each of them has a place in
    conditions. -/
theorem Condition.ofFormula_toConjunction_eq_ok_iff {p : Problem} {config : Config}
    {clause : Formula Index} {c : Condition} (hdepth : 1 ≤ config.maxDepth)
    (hclause : clause.IsClause) :
    ofFormula p config clause.toConjunction = .ok c ↔
      (∀ g ∈ clause.conjuncts, p.accepts g = true) ∧
        c = ofLiterals p config.numericGoals clause.conjuncts := by
  have hlevels : ∀ n ∈ clause.toConjunction.conjunctionNodes 0, n.1 ≤ config.maxDepth := by
    intro n hn
    exact Nat.le_trans (hclause.depth_le_one n hn) hdepth
  rw [ofFormula, ofFormulaAt_eq_ok_iff, forall_fault?_eq_none_iff, and_iff_right hlevels,
    hclause.flatConjuncts_toConjunction]

end GoalCompiler
