import GoalCompiler.Proofs.Condition.Literals
import GoalCompiler.Proofs.Goal.Clauses
import GoalCompiler.Proofs.Goal.Outcome
import GoalCompiler.Proofs.NormalForm.Polarity

set_option autoImplicit false

/-! # Which goals are accepted

As long as there is room for a stand-in, goal compilation refuses a goal for one of three reasons: it
is too deep, it has too many clauses, or it has a literal that no condition has a place for. Each can
be read off the goal as it stands. The depth is that of its nodes, the number of clauses is
`Formula.clauseCount`, and whether a basic node makes a literal that is admitted depends on the node
and on its polarity alone (`Problem.admitsSigned`).

Neither the distribution nor the removal of repetitions hides a literal from the check. Without
empty disjunctions every literal is in some clause, and what is removed as a repetition equals
something that is checked (`Goal.admits_normal_iff`). -/

namespace GoalCompiler

/-! ## Literals and their polarity -/

namespace Problem

/-- Whether the literal of a basic node, as it stands or negated, has a place in conditions. Of the
    comparisons only equality has no opposite, and so is refused when it is negated. -/
def admitsSigned (p : Problem) (negated : Bool) : Formula Index → Bool
  | .atom a => p.fluents.contains (.ofApplication a)
  | .compare comparison _ _ => !negated || comparison != .equal
  | .constant value => value != negated
  | _ => false

theorem admits_literal (p : Problem) (negated : Bool) {f : Formula Index} (h : f.isBasic = true) :
    p.admits (f.literal negated) = p.admitsSigned negated f := by
  cases negated with
  | false =>
    cases f with
    | and | or | imply | not => exact absurd h (by simp [Formula.isBasic])
    | constant value => cases value <;> rfl
    | _ => rfl
  | true =>
    cases f with
    | and | or | imply | not => exact absurd h (by simp [Formula.isBasic])
    | constant value => cases value <;> rfl
    | compare comparison l r => cases comparison <;> rfl
    | _ => rfl

/-- Equal literals are admitted alike. -/
theorem admits_eq_of_same (p : Problem) {f g : Formula Index} (h : f.same g = true) :
    p.admits f = p.admits g := by
  revert h
  fun_cases Formula.same f g <;> intro h
  case case1 a b => rw [eq_of_beq h]
  case case6 f g =>
    revert h
    fun_cases Formula.same f g <;> intro h
    case case1 a b => rw [eq_of_beq h]
    case case22 => exact absurd h (by simp)
    all_goals rfl
  case case8 a b => rw [eq_of_beq h]
  case case22 => exact absurd h (by simp)
  all_goals rfl

end Problem

/-! ## Depth -/

theorem Formula.exceedsDepth_eq_false_iff {σ : Type} {f : Formula σ} {limit : Nat} :
    f.exceedsDepth limit = false ↔ f.height ≤ limit := by
  rw [← Bool.not_eq_true, exceedsDepth_iff_lt_height, Nat.not_lt]

namespace Goal

variable {config : Config} {p : Problem}

/-! ## Alternatives -/

/-- The condition of a clause exists exactly if its literals are admitted. -/
theorem exists_condition_iff (hroom : p.fluents.size ≤ fluentLimit) (hdepth : 1 ≤ config.maxDepth)
    {clause : Formula Index} (hclause : clause.IsClause) :
    (∃ c, Condition.ofFormula p config clause.toConjunction = .ok c) ↔
      clause.conjuncts.all p.admits = true := by
  simp only [Condition.ofFormula_toConjunction_eq_ok_iff hdepth hclause, exists_and_left, exists_eq,
    and_true, List.all_eq_true, Problem.accepts_eq_admits hroom]

/-- The conditions of a normal form exist exactly if its literals are admitted. -/
theorem exists_alternatives_iff (hroom : p.fluents.size ≤ fluentLimit)
    (hdepth : 1 ≤ config.maxDepth) {normal : Formula Index} (hnormal : normal.IsNormal) :
    (∃ cs, alternatives p config normal = .ok cs) ↔
      normal.disjuncts.all (fun clause => clause.conjuncts.all p.admits) = true := by
  simp only [alternatives, mapM_eq_ok_iff, exists_forall₂_iff, List.all_eq_true]
  refine forall₂_congr fun clause hclause => ?_
  rw [exists_condition_iff hroom hdepth (hnormal.isClause_of_mem hclause), List.all_eq_true]

/-! ## Goals -/

/-- **The literals of the normal form are admitted exactly if each basic node of the goal is under
    its polarity.** -/
theorem admits_normal_iff (p : Problem) {f : Formula Index}
    (hproper : (f.nnf false).isProper = true) :
    (Formula.ofClauses (f.nnf false).expansion).disjuncts.all
        (fun clause => clause.conjuncts.all p.admits) = true ↔
      ∀ n ∈ f.signedNodes false, n.2.isBasic = true → p.admitsSigned n.1 n.2 = true := by
  have hleaves : ((f.nnf false).expansion.all fun c => c.all p.admits) = true ↔
      ∀ g ∈ (f.nnf false).leaves, p.admits g = true := by
    simp only [List.all_eq_true]
    constructor
    · intro h g hg
      obtain ⟨c, hc, hgc⟩ := AndOr.exists_mem_expansion_of_mem_leaves hproper hg
      exact h c hc g hgc
    · intro h c hc g hg
      exact h g (AndOr.mem_leaves_of_mem_expansion hc hg)
  rw [Formula.all_literals_ofClauses (fun f g h => p.admits_eq_of_same h)
    (Formula.isNormalLiteral_of_mem_expansion f), hleaves, Formula.leaves_nnf]
  simp only [List.forall_mem_map, List.mem_filter, and_imp]
  refine forall₂_congr fun n hn => ?_
  refine forall_congr' fun hbasic => ?_
  rw [p.admits_literal n.1 hbasic]

/-- With room for a stand-in a goal is accepted as soon as it has alternatives. -/
theorem exists_ofFormula_iff (hpredicates : p.predicates.size < indexLimit)
    (hfluents : p.fluents.size < fluentLimit) {f : Formula Index} :
    (∃ goal p', ofFormula config f p = .ok goal p') ↔
      f.exceedsDepth config.maxDepth = false ∧ ∃ normal, f.dnf config.maxClauses = .ok normal ∧
        ∃ cs, alternatives p config normal = .ok cs ∧ cs ≠ [] := by
  simp only [ofFormula_eq_ok_iff, ofAlternatives_eq_ok_iff]
  constructor
  · rintro ⟨goal, p', hshallow, normal, hnormal, cs, hcs, ⟨rfl, -⟩ | ⟨hseveral, -⟩⟩
    · exact ⟨hshallow, normal, hnormal, _, hcs, by simp⟩
    · have hne : cs ≠ [] := List.ne_nil_of_length_pos (Nat.lt_of_lt_of_le Nat.zero_lt_two hseveral)
      exact ⟨hshallow, normal, hnormal, cs, hcs, hne⟩
  · rintro ⟨hshallow, normal, hnormal, cs, hcs, hne⟩
    rcases cs with _ | ⟨c, _ | ⟨d, cs⟩⟩
    · exact absurd rfl hne
    · exact ⟨⟨c⟩, p, hshallow, normal, hnormal, _, hcs, Or.inl ⟨rfl, rfl⟩⟩
    · refine ⟨_, _, hshallow, normal, hnormal, _, hcs, Or.inr ⟨?_, hpredicates, hfluents, rfl, rfl⟩⟩
      simp

theorem alternatives_ne_nil {f : Formula Index} {cs : List Condition}
    (hproper : (f.nnf false).isProper = true)
    (h : alternatives p config (Formula.ofClauses (f.nnf false).expansion) = .ok cs) : cs ≠ [] := by
  obtain ⟨c, hc⟩ := AndOr.exists_mem_expansion hproper
  have hne := Formula.disjuncts_ofClauses_ne_nil (Formula.isNormalLiteral_of_mem_expansion f)
    (List.ne_nil_of_mem hc)
  rw [← List.length_pos_iff, ← (mapM_eq_ok_iff.1 h).length_eq, List.length_pos_iff]
  exact hne

/-- **A goal without empty disjunctions is accepted exactly if it is not too deep, has not too many
    clauses, and each of its literals is admitted under its polarity.** -/
theorem accepted_iff {f : Formula Index} (hpredicates : p.predicates.size < indexLimit)
    (hfluents : p.fluents.size < fluentLimit) (hdepth : 1 ≤ config.maxDepth)
    (hclauses : 1 ≤ config.maxClauses)
    (hproper : ∀ n ∈ f.signedNodes false, Formula.isEmptyDisjunction n.1 n.2 = false) :
    (∃ goal p', ofFormula config f p = .ok goal p') ↔
      f.height ≤ config.maxDepth ∧ f.clauseCount false ≤ config.maxClauses ∧
        ∀ n ∈ f.signedNodes false, n.2.isBasic = true → p.admitsSigned n.1 n.2 = true := by
  have htree : (f.nnf false).isProper = true := Formula.isProper_nnf_iff.2 hproper
  rw [exists_ofFormula_iff hpredicates hfluents, Formula.exceedsDepth_eq_false_iff,
    Formula.dnf_eq_ite htree hclauses, ← admits_normal_iff p htree,
    ← exists_alternatives_iff (Nat.le_of_lt hfluents) hdepth
      (Formula.isNormal_ofClauses_expansion f)]
  refine and_congr_right fun _ => ?_
  by_cases hcount : f.clauseCount false ≤ config.maxClauses
  · rw [if_pos hcount]
    constructor
    · rintro ⟨normal, hnormal, cs, hcs, -⟩
      cases hnormal
      exact ⟨hcount, cs, hcs⟩
    · rintro ⟨-, cs, hcs⟩
      exact ⟨_, rfl, cs, hcs, alternatives_ne_nil htree hcs⟩
  · rw [if_neg hcount]
    simp [hcount]

/-- Under the negation the conjunction counts as a disjunction of two, so a limit of one clause is
    too low. The left side of the implication is negated twice, so its equality is admitted. -/
theorem accepted_iff_negated_imply :
    let p : Problem := {
      predicates := ⟨["ready"], by decide⟩, signatures := [[]],
      fluents := ⟨[⟨0, []⟩], by decide⟩ }
    let ready : Formula Index := .atom ⟨0, []⟩
    let f : Formula Index := .not (.imply (.compare .equal .elapsed .elapsed)
      (.and [ready, .compare .less .elapsed .elapsed]))
    (∀ n ∈ f.signedNodes false, Formula.isEmptyDisjunction n.1 n.2 = false) ∧
      (∃ goal p', ofFormula { maxDepth := 4, maxClauses := 2 } f p = .ok goal p') ∧
      ¬ ∃ goal p', ofFormula { maxDepth := 4, maxClauses := 1 } f p = .ok goal p' := by
  intro p ready f
  have hproper : ∀ n ∈ f.signedNodes false, Formula.isEmptyDisjunction n.1 n.2 = false := by
    decide
  have hiff (config : Config) (hdepth : 1 ≤ config.maxDepth) (hclauses : 1 ≤ config.maxClauses) :=
    accepted_iff (p := p) (by decide) (by decide) hdepth hclauses hproper
  refine ⟨hproper, ?_, ?_⟩
  · exact (hiff _ (by decide) (by decide)).2 ⟨by decide, by decide, by decide⟩
  · rw [hiff _ (by decide) (by decide)]
    rintro ⟨-, hcount, -⟩
    exact absurd hcount (by decide)

end Goal

end GoalCompiler
