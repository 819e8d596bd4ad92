import GoalCompiler.Proofs.Formula.Conjuncts
import GoalCompiler.Proofs.NormalForm.Threshold

set_option autoImplicit false

/-! # Normal forms of conjunctions

Conjunctions of literals, nested as they may be, are a single clause. There is nothing to
distribute, so the clause is the list of the leaves (`Formula.expansion_nnf_of_literals`) and a limit
of one clause is enough (`Formula.peak_nnf_of_literals_le`). The normal form is the conjunction of
the leaves without repetitions. -/

namespace GoalCompiler

/-- A conjunction of single clauses is expanded without ever holding more than one clause. -/
theorem AndOr.peakAll_le_one {α : Type} {ts : List (AndOr α)} (hpeak : ∀ t ∈ ts, t.peak ≤ 1)
    (hcount : ∀ t ∈ ts, t.count = 1) : peakAll 1 ts ≤ 1 := by
  induction ts with
  | nil => exact Nat.zero_le 1
  | cons t ts ih =>
    have hfirst := hpeak t (by simp)
    have hrest := ih (fun t ht => hpeak t (by simp [ht])) (fun t ht => hcount t (by simp [ht]))
    rw [peakAll, hcount t (by simp), Nat.mul_one]
    omega

namespace Formula

variable {σ : Type}

/-- The negation of a literal in normal form stays where it is. -/
theorem nnf_of_isNormalLiteral {f : Formula σ} (h : f.isNormalLiteral = true) :
    f.nnf false = .leaf f := by
  cases f with
  | and | or | imply => exact absurd h (by simp [isNormalLiteral, isLiteral, isBasic])
  | not f =>
    cases f with
    | and | or | imply | not => exact absurd h (by simp [isNormalLiteral, isLiteral, isBasic])
    | constant value => exact absurd h (by simp [isNormalLiteral])
    | compare c l r =>
      have hequal : c = .equal := by simpa [isNormalLiteral, isLiteral, isBasic] using h
      subst hequal
      rfl
    | _ => rfl
  | _ => rfl

theorem flatConjuncts_of_isNormalLiteral {f : Formula σ} (h : f.isNormalLiteral = true) :
    f.flatConjuncts = [f] :=
  flatConjuncts_of_not_conjunction (not_conjunction_of_isLiteral (isLiteral_of_isNormalLiteral h))

theorem expansionAll_nnfAll {fs : List (Formula σ)}
    (ih : ∀ f ∈ fs, (f.nnf false).expansion = [f.flatConjuncts]) :
    AndOr.expansionAll (nnfAll false fs) = [flatConjunctsOf fs] := by
  induction fs with
  | nil => rfl
  | cons f fs ihs =>
    rw [nnfAll, AndOr.expansionAll, ih f (by simp), ihs fun f hf => ih f (by simp [hf])]
    rfl

section

variable {f : Formula σ} (h : ∀ g ∈ f.flatConjuncts, g.isNormalLiteral = true)

include h

/-- The only clause is that of the leaves. -/
theorem expansion_nnf_of_literals : (f.nnf false).expansion = [f.flatConjuncts] := by
  induction f using induction_children with
  | step f ih =>
    cases f with
    | and fs =>
      refine expansionAll_nnfAll fun f hf => ih f hf fun g hg => ?_
      exact h g (mem_flatConjunctsOf.2 ⟨f, hf, hg⟩)
    | _ =>
      rw [nnf_of_isNormalLiteral (h _ (List.mem_singleton_self _))]
      rfl

theorem count_nnf_of_literals : (f.nnf false).count = 1 := by
  rw [← AndOr.length_expansion, expansion_nnf_of_literals h]
  rfl

/-- One clause is enough on the way, too. -/
theorem peak_nnf_of_literals_le : (f.nnf false).peak ≤ 1 := by
  induction f using induction_children with
  | step f ih =>
    cases f with
    | and fs =>
      have hmembers : ∀ f ∈ fs, ∀ g ∈ f.flatConjuncts, g.isNormalLiteral = true := by
        intro f hf g hg
        exact h g (mem_flatConjunctsOf.2 ⟨f, hf, hg⟩)
      show AndOr.peakAll 1 (nnfAll false fs) ≤ 1
      rw [nnfAll_eq_map]
      refine AndOr.peakAll_le_one ?_ ?_
      · exact List.forall_mem_map.2 fun f hf => ih f hf (hmembers f hf)
      · exact List.forall_mem_map.2 fun f hf => count_nnf_of_literals (hmembers f hf)
    | _ =>
      rw [nnf_of_isNormalLiteral (h _ (List.mem_singleton_self _))]
      exact Nat.le_refl 1

end

variable [DecidableEq σ]

/-- **The normal form of nested conjunctions of literals is one conjunction of them, without
    repetitions.** -/
theorem dnf_of_literals {limit : Nat} {f : Formula σ} (hlimit : 1 ≤ limit)
    (h : ∀ g ∈ f.flatConjuncts, g.isNormalLiteral = true) :
    f.dnf limit = .ok (joinDistinct and f.flatConjuncts) := by
  rw [dnf_eq_ok_iff_peak, expansion_nnf_of_literals h]
  exact ⟨Nat.le_trans (peak_nnf_of_literals_le h) hlimit, rfl⟩

/-! ## Clauses -/

/-- A clause of a normal form has no conjunctions below it. -/
theorem IsClause.flatConjuncts_eq {f : Formula σ} (h : f.IsClause) :
    f.flatConjuncts = f.conjuncts := by
  cases h with
  | literal normal =>
    rw [flatConjuncts_of_isNormalLiteral normal,
      conjuncts_of_isLiteral (isLiteral_of_isNormalLiteral normal)]
  | and literals =>
    refine flatConjunctsOf_of_leaves fun f hf => ?_
    exact not_conjunction_of_isLiteral (isLiteral_of_isNormalLiteral (literals f hf))

theorem IsClause.isNormalLiteral_of_mem_flatConjuncts {f : Formula σ} (h : f.IsClause) :
    ∀ g ∈ f.flatConjuncts, g.isNormalLiteral = true := by
  intro g hg
  rw [h.flatConjuncts_eq] at hg
  exact h.isNormalLiteral_of_mem hg

end Formula

end GoalCompiler
