import GoalCompiler.Proofs.Resolution.Relation

set_option autoImplicit false

/-! # Grouped and nested quantifiers

A quantifier may declare its variables together or one quantifier inside the other. Resolution takes
two different ways there. Declared variables are peeled off by `Formula.resolveBinders`, and a
quantifier in the body is met by `Formula.resolveAt`, which then starts to peel anew. Each way
checks the depth, extends the scope and stops at errors on its own.

One step of the peeling is a quantifier over one variable around everything that is left
(`Formula.resolveBinders_cons`). So a declaration may be split at any place
(`Formula.resolveBinders_append`), and both ways give the same layers or the same error. -/

namespace GoalCompiler

namespace Formula

variable {p : Problem} {config : Config} {q : Quantifier}
variable {body : List Name → Nat → Except ResolutionError (Formula Index)}

/-- The first of several variables is bound in a layer around the layers of the others. -/
theorem resolveBinders_cons {v : TypedVariable Name} {vs : List (TypedVariable Name)}
    (hvs : vs ≠ []) (scope : List Name) (depth : Nat) :
    resolveBinders p config q body (v :: vs) scope depth =
      resolveBinders p config q (fun scope depth => resolveBinders p config q body vs scope depth)
        [v] scope depth := by
  have hsome : vs.isEmpty = false := by simpa using hvs
  conv => lhs; unfold resolveBinders
  conv => rhs; unfold resolveBinders
  simp only [hsome, List.isEmpty_nil, if_true, Bool.false_eq_true, if_false]

/-- Variables that are declared together are bound like those of two quantifiers, wherever the
    declaration is split. -/
theorem resolveBinders_append {xs ys : List (TypedVariable Name)} (hxs : xs ≠ []) (hys : ys ≠ [])
    (scope : List Name) (depth : Nat) :
    resolveBinders p config q body (xs ++ ys) scope depth =
      resolveBinders p config q (fun scope depth => resolveBinders p config q body ys scope depth)
        xs scope depth := by
  induction xs generalizing scope depth with
  | nil => exact absurd rfl hxs
  | cons x xs ih =>
    by_cases hrest : xs = []
    · subst hrest
      exact resolveBinders_cons hys scope depth
    · have hlong : xs ++ ys ≠ [] := List.append_ne_nil_of_left_ne_nil hrest ys
      rw [List.cons_append, resolveBinders_cons hlong, resolveBinders_cons hrest]
      congr 1
      funext scope depth
      exact ih hrest scope depth

/-- **A quantifier over two groups of variables resolves like two quantifiers, one inside the
    other,** to the same formula or with the same error. -/
theorem resolve_quantified_append (p : Problem) (config : Config) (scope : List Name)
    (q : Quantifier) {xs ys : List (TypedVariable Name)} (hxs : xs ≠ []) (hys : ys ≠ [])
    (f : Formula Name) :
    (quantified q (xs ++ ys) f).resolve p config scope =
      (quantified q xs (quantified q ys f)).resolve p config scope := by
  rw [resolve, resolve, resolveAt_quantified, resolveAt_quantified, resolveBinders_append hxs hys]
  simp only [resolveAt_quantified]

/-- Two variables and a third one below them that repeats a name, in a scope with a variable of its
    own. With one level less there is no room for the body, and with an untyped variable inside
    there is an error, both ways. -/
theorem resolve_quantified_append_repeated_name :
    let p : Problem := {
      types := ⟨["block"], by decide⟩, predicates := ⟨["on"], by decide⟩, signatures := [[0, 0]] }
    let block (name : Name) : TypedVariable Name := ⟨name, ["block"]⟩
    let f : Formula Name := atom ⟨"on", [.variable "x", .variable "table"]⟩
    let layer (k : Index) (t : Formula Index) := quantified .existential [⟨k, [0]⟩] t
    let t := layer (-2) (layer (-3) (layer (-4) (atom ⟨0, [.variable (-2), .variable (-1)]⟩)))
    let grouped (v : TypedVariable Name) :=
      quantified .existential ([block "x", block "y"] ++ [v]) f
    let nested (v : TypedVariable Name) :=
      quantified .existential [block "x", block "y"] (quantified .existential [v] f)
    (grouped (block "x")).resolve p { maxDepth := 3 } ["table"] = .ok t ∧
      (nested (block "x")).resolve p { maxDepth := 3 } ["table"] = .ok t ∧
      (nested (block "x")).resolve p { maxDepth := 2 } ["table"] = .error (.tooDeep 2) ∧
      (nested ⟨"x", []⟩).resolve p { maxDepth := 3 } ["table"] = .error (.untypedVariable "x") := by
  intro p block f layer t grouped nested
  have hsplit (config : Config) (v : TypedVariable Name) :
      (grouped v).resolve p config ["table"] = (nested v).resolve p config ["table"] :=
    resolve_quantified_append p config ["table"] .existential (List.cons_ne_nil _ _)
      (List.cons_ne_nil _ _) f
  refine ⟨rfl, ?_, ?_, ?_⟩
  · rw [← hsplit]
    rfl
  · rw [← hsplit]
    rfl
  · rw [← hsplit]
    rfl

end Formula

end GoalCompiler
