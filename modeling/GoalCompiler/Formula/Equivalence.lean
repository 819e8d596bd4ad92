import GoalCompiler.Formula.Equality
import GoalCompiler.Formula.Induction

set_option autoImplicit false

/-! # Laws of formula equality

Equality of formulas inherits what numeric equality has: it is symmetric and transitive, and it is
not reflexive where a NaN occurs. So it is an equivalence on the formulas that equal themselves. -/

namespace GoalCompiler

namespace Formula

variable {σ : Type} [DecidableEq σ]

/-! ## Symmetry -/

theorem sameAll_symm_of {fs gs : List (Formula σ)}
    (ih : ∀ f ∈ fs, ∀ g, f.same g = true → g.same f = true) (h : sameAll fs gs = true) :
    sameAll gs fs = true := by
  induction fs generalizing gs with
  | nil => cases gs <;> simp_all [sameAll]
  | cons f fs ihs =>
    cases gs with
    | nil => simp [sameAll] at h
    | cons g gs =>
      simp only [sameAll, Bool.and_eq_true] at h ⊢
      exact ⟨ih f (by simp) g h.1, ihs (fun f hf => ih f (by simp [hf])) h.2⟩

theorem same_symm {f g : Formula σ} (h : f.same g = true) : g.same f = true := by
  induction f using induction_children generalizing g with
  | step f ih =>
    cases f <;> cases g <;>
      simp only [same, Bool.and_eq_true, beq_iff_eq, Bool.false_eq_true, children, List.mem_cons,
        List.not_mem_nil, or_false, forall_eq_or_imp, forall_eq] at h ih ⊢
    case and fs gs => exact sameAll_symm_of (fun f hf g hg => ih f hf hg) h
    case or fs gs => exact sameAll_symm_of (fun f hf g hg => ih f hf hg) h
    case number x y => exact PartialEquivBEq.symm h
    all_goals grind

/-! ## Transitivity -/

theorem sameAll_trans_of {fs gs hs : List (Formula σ)}
    (ih : ∀ f ∈ fs, ∀ g h, f.same g = true → g.same h = true → f.same h = true)
    (hfg : sameAll fs gs = true) (hgh : sameAll gs hs = true) : sameAll fs hs = true := by
  induction fs generalizing gs hs with
  | nil => cases gs <;> cases hs <;> simp_all [sameAll]
  | cons f fs ihs =>
    cases gs with
    | nil => simp [sameAll] at hfg
    | cons g gs =>
      cases hs with
      | nil => simp [sameAll] at hgh
      | cons h hs =>
        simp only [sameAll, Bool.and_eq_true] at hfg hgh ⊢
        exact ⟨ih f (by simp) g h hfg.1 hgh.1, ihs (fun f hf => ih f (by simp [hf])) hfg.2 hgh.2⟩

theorem same_trans {f g h : Formula σ} (hfg : f.same g = true) (hgh : g.same h = true) :
    f.same h = true := by
  induction f using induction_children generalizing g h with
  | step f ih =>
    cases f <;> cases g <;>
      simp only [same, Bool.and_eq_true, beq_iff_eq, Bool.false_eq_true] at hfg <;>
      cases h <;>
      simp only [same, Bool.and_eq_true, beq_iff_eq, Bool.false_eq_true, children, List.mem_cons,
        List.not_mem_nil, or_false, forall_eq_or_imp, forall_eq] at hfg hgh ih ⊢
    case and fs gs hs => exact sameAll_trans_of (fun f hf g h hg hh => ih f hf hg hh) hfg hgh
    case or fs gs hs => exact sameAll_trans_of (fun f hf g h hg hh => ih f hf hg hh) hfg hgh
    case number x y z => exact PartialEquivBEq.trans hfg hgh
    all_goals grind

instance : PartialEquivBEq (Formula σ) where
  symm := same_symm
  trans := same_trans

end Formula

end GoalCompiler
