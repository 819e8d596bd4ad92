import GoalCompiler.Formula.Basic

set_option autoImplicit false

/-! # Induction on formulas

A formula is built from its children, and there is one principle for all connectives: what holds of a
formula whenever it holds of the children holds of every formula. -/

namespace GoalCompiler

namespace Formula

variable {σ : Type}

theorem sizeOf_lt_of_mem_children {f c : Formula σ} (h : c ∈ f.children) : sizeOf c < sizeOf f := by
  cases f with
  | and fs | or fs =>
    have hlt : sizeOf c < sizeOf fs := List.sizeOf_lt_of_mem h
    simp only [and.sizeOf_spec, or.sizeOf_spec]
    omega
  | atom | function | equality | constant | number | elapsed | violated | task | occurrence =>
    simp [children] at h
  | not | imply | quantified | compare | binary | unary | window | ordering | hold | holdBetween =>
    simp only [children, List.mem_cons, List.not_mem_nil, or_false] at h
    rcases h with rfl | rfl | rfl <;> simp <;> omega

/-- Induction from the children of a formula to the formula. -/
theorem induction_children {motive : Formula σ → Prop}
    (step : ∀ f : Formula σ, (∀ c ∈ f.children, motive c) → motive f) (f : Formula σ) :
    motive f := by
  induction h : sizeOf f using Nat.strongRecOn generalizing f with
  | _ n ih =>
    subst h
    exact step f fun c hc => ih (sizeOf c) (sizeOf_lt_of_mem_children hc) c rfl

end Formula

end GoalCompiler
