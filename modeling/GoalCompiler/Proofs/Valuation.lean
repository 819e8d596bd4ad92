import GoalCompiler.Formula.Equality
import GoalCompiler.Formula.Induction

set_option autoImplicit false

/-! # Truth of formulas

Formulas are read classically. The connectives of propositional logic and the truth values have
their usual meaning, the empty conjunction is true and the empty disjunction is false. Every other
node is basic, and a valuation says whether it is true.

A valuation is free except for two laws. Comparisons that negate each other have opposite values on
the same operands, and basic formulas that are the same (`Formula.same`) have the same value. The
second law is what makes it right to drop a repeated formula, and it carries over from basic
formulas to all formulas (`Formula.truth_eq_of_same`). -/

namespace GoalCompiler

variable {σ : Type}

namespace Formula

/-! ## Truth -/

mutual

/-- The truth value of a formula whose basic nodes have the given values. -/
def truth (value : Formula σ → Bool) : Formula σ → Bool
  | and fs => truthAll value fs
  | or fs => truthAny value fs
  | not f => !f.truth value
  | imply l r => !l.truth value || r.truth value
  | constant b => b
  | f => value f

/-- Whether all of the formulas are true. -/
def truthAll (value : Formula σ → Bool) : List (Formula σ) → Bool
  | [] => true
  | f :: fs => f.truth value && truthAll value fs

/-- Whether one of the formulas is true. -/
def truthAny (value : Formula σ → Bool) : List (Formula σ) → Bool
  | [] => false
  | f :: fs => f.truth value || truthAny value fs

end

theorem truthAll_eq_all (value : Formula σ → Bool) (fs : List (Formula σ)) :
    truthAll value fs = fs.all (truth value) := by
  induction fs with
  | nil => rfl
  | cons f fs ih => simp [truthAll, ih]

theorem truthAny_eq_any (value : Formula σ → Bool) (fs : List (Formula σ)) :
    truthAny value fs = fs.any (truth value) := by
  induction fs with
  | nil => rfl
  | cons f fs ih => simp [truthAny, ih]

@[simp]
theorem truth_and (value : Formula σ → Bool) (fs : List (Formula σ)) :
    (and fs).truth value = fs.all (truth value) := by
  rw [truth, truthAll_eq_all]

@[simp]
theorem truth_or (value : Formula σ → Bool) (fs : List (Formula σ)) :
    (or fs).truth value = fs.any (truth value) := by
  rw [truth, truthAny_eq_any]

@[simp]
theorem truth_not (value : Formula σ → Bool) (f : Formula σ) :
    (not f).truth value = !f.truth value := by
  rw [truth]

@[simp]
theorem truth_imply (value : Formula σ → Bool) (l r : Formula σ) :
    (imply l r).truth value = (!l.truth value || r.truth value) := by
  rw [truth]

@[simp]
theorem truth_constant (value : Formula σ → Bool) (b : Bool) :
    (constant b : Formula σ).truth value = b := by
  rw [truth]

end Formula

/-! ## Valuations -/

variable [DecidableEq σ]

/-- Truth values for basic formulas. The values of other formulas are never read. -/
structure Valuation (σ : Type) [DecidableEq σ] where
  value : Formula σ → Bool
  /-- Comparisons that negate each other have opposite values. -/
  opposite : ∀ {c d : Comparison}, c.negated? = some d →
    ∀ l r, value (.compare d l r) = !value (.compare c l r)
  /-- Basic formulas that are the same have the same value. -/
  congruent : ∀ {f g : Formula σ}, f.isBasic = true → f.same g = true → value f = value g

namespace Valuation

/-- The valuation that makes the given atoms true, and the comparisons with `<` and `<=`. -/
def ofAtoms (holds : Application σ → Bool) : Valuation σ where
  value
    | .atom a => holds a
    | .compare .less _ _ => true
    | .compare .lessEqual _ _ => true
    | _ => false
  opposite {c d} h l r := by
    cases c <;> cases d <;> simp_all [Comparison.negated?]
  congruent {f g} hf h := by
    clear hf
    revert h
    fun_cases Formula.same f g <;> intro h
    case case1 a b => rw [eq_of_beq h]
    case case10 c l r c' l' r' =>
      simp only [Bool.and_eq_true] at h
      rw [eq_of_beq h.1.1]
      cases c' <;> rfl
    case case22 => exact absurd h (by simp)
    all_goals rfl

end Valuation

namespace Formula

/-- Lists of formulas that are the same are true alike, if their elements are. -/
theorem map_truth_eq_of_sameAll {value : Formula σ → Bool} {fs gs : List (Formula σ)}
    (ih : ∀ f ∈ fs, ∀ g, f.same g = true → f.truth value = g.truth value)
    (h : sameAll fs gs = true) : fs.map (truth value) = gs.map (truth value) := by
  induction fs generalizing gs with
  | nil =>
    cases gs with
    | nil => rfl
    | cons g gs => simp [sameAll] at h
  | cons f fs ihs =>
    cases gs with
    | nil => simp [sameAll] at h
    | cons g gs =>
      simp only [sameAll, Bool.and_eq_true] at h
      have hhead : f.truth value = g.truth value := ih f (by simp) g h.1
      have htail := ihs (fun f hf => ih f (by simp [hf])) h.2
      rw [List.map_cons, List.map_cons, hhead, htail]

/-- **Formulas that are the same have the same truth value.** -/
theorem truth_eq_of_same (v : Valuation σ) {f g : Formula σ} (h : f.same g = true) :
    f.truth v.value = g.truth v.value := by
  induction f using induction_children generalizing g with
  | step f ih =>
    have hbasic : f.isBasic = true → v.value f = v.value g := fun hf => v.congruent hf h
    revert h
    fun_cases same f g <;> intro h
    case case4 fs gs =>
      have hmap : fs.map (truth v.value) = gs.map (truth v.value) :=
        map_truth_eq_of_sameAll (fun f hf g => ih f hf) h
      simpa using congrArg (List.all · id) hmap
    case case5 fs gs =>
      have hmap : fs.map (truth v.value) = gs.map (truth v.value) :=
        map_truth_eq_of_sameAll (fun f hf g => ih f hf) h
      simpa using congrArg (List.any · id) hmap
    case case6 f g =>
      rw [truth_not, truth_not, ih f (by simp [children]) h]
    case case7 l r l' r' =>
      rw [Bool.and_eq_true] at h
      rw [truth_imply, truth_imply, ih l (by simp [children]) h.1, ih r (by simp [children]) h.2]
    case case8 a b =>
      rw [truth_constant, truth_constant, eq_of_beq h]
    case case22 => exact absurd h (by simp)
    -- The other nodes are basic, so their truth is the value itself.
    all_goals exact hbasic rfl

end Formula

end GoalCompiler
