import GoalCompiler.Formula.Equivalence
import GoalCompiler.Proofs.NormalForm.Distinct
import GoalCompiler.Proofs.NormalForm.Expansion
import GoalCompiler.Proofs.Valuation

set_option autoImplicit false

/-! # Normal forms keep the meaning

Each of the three steps of `Formula.dnf` keeps the truth value under every valuation. Moving
negations to the leaves is stated for both polarities at once: the tree for `negated` has the value
of the formula, flipped if `negated` (`Formula.truth_nnf`). The distribution is
`AndOr.truth_expansion`. The step back to a formula drops only what equals something that is kept
(`Formula.truth_ofClauses`). -/

namespace GoalCompiler

namespace Formula

variable {σ : Type}

/-! ## Negations at the leaves -/

/-- The trees of several formulas have the values of the formulas, flipped if `negated`. -/
theorem map_truth_nnfAll {value : Formula σ → Bool} (negated : Bool) (fs : List (Formula σ))
    (ih : ∀ f ∈ fs, (f.nnf negated).truth (truth value) = (negated ^^ f.truth value)) :
    (nnfAll negated fs).map (AndOr.truth (truth value)) =
      fs.map fun f => negated ^^ f.truth value := by
  rw [nnfAll_eq_map, List.map_map]
  exact List.map_congr_left ih

variable [DecidableEq σ]

theorem truth_literal (v : Valuation σ) (negated : Bool) (f : Formula σ) :
    (literal negated f).truth v.value = (negated ^^ f.truth v.value) := by
  cases negated with
  | false => simp [literal]
  | true =>
    unfold literal
    rw [if_pos rfl, Bool.true_xor]
    split
    · next b => rw [truth_constant, truth_constant]
    · next c l r =>
      split
      · next d hd => exact v.opposite hd l r
      · exact truth_not v.value (compare c l r)
    · exact truth_not v.value _

/-- **The and/or tree of a formula has its truth value, and the tree of its negation the other.** -/
theorem truth_nnf (v : Valuation σ) (negated : Bool) (f : Formula σ) :
    (f.nnf negated).truth (truth v.value) = (negated ^^ f.truth v.value) := by
  induction f using induction_children generalizing negated with
  | step f ih =>
    cases f with
    | not g =>
      rw [nnf, ih g (by simp [children]) (!negated), truth_not]
      cases negated <;> simp
    | and fs =>
      have hmap := map_truth_nnfAll negated fs fun f hf => ih f hf negated
      -- De Morgan: under a negation the conjunction has become a disjunction.
      cases negated with
      | false => simpa [nnf] using congrArg (List.all · id) hmap
      | true => simpa [nnf, List.not_all_eq_any_not] using congrArg (List.any · id) hmap
    | or fs =>
      have hmap := map_truth_nnfAll negated fs fun f hf => ih f hf negated
      cases negated with
      | false => simpa [nnf] using congrArg (List.any · id) hmap
      | true => simpa [nnf, List.not_any_eq_all_not] using congrArg (List.all · id) hmap
    | imply l r =>
      have hl := ih l (by simp [children])
      have hr := ih r (by simp [children])
      cases negated <;> simp [nnf, hl, hr]
    | _ => exact truth_literal v negated _

/-! ## Clauses as a formula -/

theorem truth_joinDistinct_and (v : Valuation σ) (fs : List (Formula σ)) :
    (joinDistinct and fs).truth v.value = fs.all (truth v.value) := by
  have hkept : fs.eraseDups.all (truth v.value) = fs.all (truth v.value) :=
    all_eraseDups (fun _ _ h => truth_eq_of_same v h) fs
  rcases joinDistinct_cases and fs with hone | ⟨-, hjoin⟩
  · rw [hone] at hkept
    simpa using hkept
  · rw [hjoin, truth_and, hkept]

theorem truth_joinDistinct_or (v : Valuation σ) (fs : List (Formula σ)) :
    (joinDistinct or fs).truth v.value = fs.any (truth v.value) := by
  have hkept : fs.eraseDups.any (truth v.value) = fs.any (truth v.value) :=
    any_eraseDups (fun _ _ h => truth_eq_of_same v h) fs
  rcases joinDistinct_cases or fs with hone | ⟨-, hjoin⟩
  · rw [hone] at hkept
    simpa using hkept
  · rw [hjoin, truth_or, hkept]

/-- The formula of some clauses is true exactly when one of the clauses is. -/
theorem truth_ofClauses (v : Valuation σ) (cs : List (List (Formula σ))) :
    (ofClauses cs).truth v.value = AndOr.clausesTruth (truth v.value) cs := by
  rw [ofClauses, truth_joinDistinct_or, List.any_map, AndOr.clausesTruth]
  congr 1
  funext c
  exact truth_joinDistinct_and v c

/-! ## Normal forms -/

theorem dnf_eq_ok_iff {limit : Nat} {f g : Formula σ} :
    f.dnf limit = .ok g ↔ ∃ cs, (f.nnf false).clauses limit = .ok cs ∧ ofClauses cs = g := by
  simp only [dnf, bind_eq_ok_iff, pure_eq_ok_iff]

/-- A normal form is the formula of the expansion, whatever the limit was. -/
theorem dnf_eq_ofClauses_expansion {limit : Nat} {f g : Formula σ} (h : f.dnf limit = .ok g) :
    g = ofClauses (f.nnf false).expansion := by
  obtain ⟨cs, hcs, rfl⟩ := dnf_eq_ok_iff.1 h
  rw [AndOr.clauses_eq_expansion hcs]

/-- The formula of the expansion means what the formula means. -/
theorem truth_ofClauses_expansion (v : Valuation σ) (f : Formula σ) :
    (ofClauses (f.nnf false).expansion).truth v.value = f.truth v.value := by
  rw [truth_ofClauses, AndOr.truth_expansion, truth_nnf, Bool.false_xor]

/-- **A formula and its normal form have the same truth value under every valuation.** -/
theorem truth_dnf (v : Valuation σ) {limit : Nat} {f g : Formula σ} (h : f.dnf limit = .ok g) :
    g.truth v.value = f.truth v.value := by
  rw [dnf_eq_ofClauses_expansion h]
  exact truth_ofClauses_expansion v f

/-- A case with all three steps: a negated implication, a comparison that turns round, and four
    clauses of which two are repetitions. -/
theorem truth_dnf_not_imply :
    let f : Formula Index := not (imply (or [atom ⟨0, []⟩, atom ⟨0, []⟩])
      (and [compare .less (function ⟨0, []⟩) elapsed, atom ⟨1, []⟩]))
    let g : Formula Index := or [
      and [atom ⟨0, []⟩, compare .greaterEqual (function ⟨0, []⟩) elapsed],
      and [atom ⟨0, []⟩, not (atom ⟨1, []⟩)]]
    let v : Valuation Index := .ofAtoms fun a => a.symbol == 0
    f.dnf 4 = .ok g ∧ g.truth v.value = f.truth v.value := by
  intro f g v
  have h : f.dnf 4 = .ok g := rfl
  exact ⟨h, truth_dnf v h⟩

end Formula

end GoalCompiler
