import GoalCompiler.Proofs.Formula.Variables
import GoalCompiler.Proofs.Resolution.Binders
import GoalCompiler.Proofs.Resolution.WellFormed
import Mathlib.Logic.Equiv.Basic

set_option autoImplicit false

/-! # Resolution under changes of the scope

Names of variables are of no account: what matters is the position of a binder in the scope. Two
changes of the scope follow from this.

- If all variables are renamed, in the formula and in the scope, nothing changes but the names in
  errors (`Formula.resolve_rename`).
- If binders are put around the scope, and none of them has the name of a variable of the formula,
  all variables move below them (`Formula.resolve_append_scope`).

Both are one statement, `Formula.resolveAt_mapVariables`: a formula is renamed and resolved below
`outer`, and it becomes what it was, shifted by the length of `outer`. The induction has to treat
both at once, because the condition of a method constraint is renamed with its formula, but is below
no binders. Only binders that are put around may lead to an overflow that was not there before, so
only for them there has to be room in the index space. -/

namespace GoalCompiler

/-- Rename the variable that an error is about. -/
def ResolutionError.rename (g : Name → Name) : ResolutionError → ResolutionError
  | unboundVariable name => unboundVariable (g name)
  | untypedVariable name => untypedVariable (g name)
  | e => e

/-! ## Outcomes -/

section

variable {α β γ δ : Type} {g : Name → Name}

/-- The outcome of a renamed formula: the result is mapped, and the variable in an error is
    renamed. -/
def renameOutcome (g : Name → Name) (φ : α → β) (x : Except ResolutionError α) :
    Except ResolutionError β :=
  (x.map φ).mapError (ResolutionError.rename g)

theorem renameOutcome_id (φ : α → β) (x : Except ResolutionError α) :
    renameOutcome id φ x = x.map φ := by
  cases x with
  | error e => cases e <;> rfl
  | ok a => rfl

/-- Two sequences of steps have corresponding outcomes if their steps have. -/
theorem bind_eq_renameOutcome {φ : α → β} {ψ : γ → δ} {x : Except ResolutionError α}
    {x' : Except ResolutionError β} {k : α → Except ResolutionError γ}
    {k' : β → Except ResolutionError δ} (hx : x' = renameOutcome g φ x)
    (hk : ∀ a, k' (φ a) = renameOutcome g ψ (k a)) :
    (x' >>= k') = renameOutcome g ψ (x >>= k) := by
  subst hx
  cases x with
  | error e => rfl
  | ok a => exact hk a

theorem mapM_eq_renameOutcome {φ : β → δ} {ρ : α → γ} {r : α → Except ResolutionError β}
    {r' : γ → Except ResolutionError δ} {as : List α}
    (h : ∀ a ∈ as, r' (ρ a) = renameOutcome g φ (r a)) :
    (as.map ρ).mapM r' = renameOutcome g (List.map φ) (as.mapM r) := by
  induction as with
  | nil => rfl
  | cons a as ih =>
    rw [List.map_cons, List.mapM_cons, List.mapM_cons]
    have hrest := ih fun a ha => h a (by simp [ha])
    exact bind_eq_renameOutcome (h a (by simp)) fun b =>
      bind_eq_renameOutcome hrest fun bs => rfl

end

/-! ## Symbols and terms -/

theorem idxOf?_map {g : Name → Name} (hg : Function.Injective g) (scope : List Name) (x : Name) :
    (scope.map g).idxOf? (g x) = scope.idxOf? x := by
  induction scope with
  | nil => rfl
  | cons y scope ih =>
    rw [List.map_cons, List.idxOf?_cons, List.idxOf?_cons, ih]
    by_cases hyx : y = x
    · rw [hyx, beq_self_eq_true, beq_self_eq_true]
    · have hne : g y ≠ g x := fun h => hyx (hg h)
      rw [beq_false_of_ne hyx, beq_false_of_ne hne]

/-- Other names in front of the scope do not change which binder is found. -/
theorem idxOf?_append_of_not_mem {outer scope : List Name} {x : Name} (hx : x ∉ outer) :
    (outer ++ scope).idxOf? x = (scope.idxOf? x).map (outer.length + ·) := by
  induction outer with
  | nil => simp
  | cons y outer ih =>
    rw [List.mem_cons, not_or] at hx
    rw [List.cons_append, List.idxOf?_cons, ih hx.2, beq_false_of_ne (Ne.symm hx.1),
      List.length_cons]
    cases scope.idxOf? x with
    | none => rfl
    | some k =>
      show some (outer.length + k + 1) = some (outer.length + 1 + k)
      rw [Nat.add_right_comm]

/-- A binder below `n` others has the index that it has without them, shifted by `n`. -/
theorem binderIndex_add {n k : Nat} (hroom : n = 0 ∨ n + k < indexLimit) (g : Name → Name) :
    binderIndex (n + k) = renameOutcome g (shiftIndex n) (binderIndex k) := by
  by_cases hk : k < indexLimit
  · have hlow : binderIndex k = .ok (-(k : Int)) := binderIndex_eq_ok_iff.2 ⟨hk, rfl⟩
    have hhigh : binderIndex (n + k) = .ok (-((n + k : Nat) : Int)) :=
      binderIndex_eq_ok_iff.2 ⟨by omega, rfl⟩
    have hshift : -((n + k : Nat) : Int) = -(k : Int) - n := by omega
    rw [hlow, hhigh, hshift]
    rfl
  · obtain rfl : n = 0 := by omega
    have herror : binderIndex k = .error (.overflow ⟨.scope⟩) := by
      rw [binderIndex, indexOf, if_neg hk]
      rfl
    rw [Nat.zero_add, herror]
    rfl

section

variable {g : Name → Name} {p : Problem} {config : Config} {outer scope : List Name} {depth : Nat}

theorem Problem.resolveSymbol_eq_renameOutcome (kind : SymbolKind) (name : Name) :
    p.resolveSymbol kind name = renameOutcome g id (p.resolveSymbol kind name) := by
  unfold Problem.resolveSymbol indexOf
  cases p.position? kind name with
  | none => rfl
  | some position =>
    by_cases hlt : position < indexLimit
    · simp only [if_pos hlt]
      rfl
    · simp only [if_neg hlt]
      rfl

theorem Term.resolve_mapVariable (hg : Function.Injective g) {t : Term Name}
    (hfresh : ∀ x, t = .variable x → g x ∉ outer)
    (hroom : outer.length = 0 ∨ outer.length + scope.length < indexLimit) :
    (t.mapVariable g).resolve p (outer ++ scope.map g) =
      renameOutcome g (Term.mapVariable (shiftIndex outer.length)) (t.resolve p scope) := by
  cases t with
  | «variable» x =>
    rw [Term.mapVariable, Term.resolve, Term.resolve, idxOf?_append_of_not_mem (hfresh x rfl),
      idxOf?_map hg]
    cases hk : scope.idxOf? x with
    | none => rfl
    | some k =>
      have hlt : k < scope.length := (List.idxOf?_eq_some_iff.1 hk).1
      have hindex := binderIndex_add (n := outer.length) (k := k + 1) (by omega) g
      exact bind_eq_renameOutcome hindex fun i => rfl
  | constant c =>
    exact bind_eq_renameOutcome (Problem.resolveSymbol_eq_renameOutcome .constant c) fun i => rfl

theorem Term.mapM_resolve_mapVariable (hg : Function.Injective g) {ts : List (Term Name)}
    (hfresh : ∀ x ∈ (ts.filter Term.isVariable).map Term.symbol, g x ∉ outer)
    (hroom : outer.length = 0 ∨ outer.length + scope.length < indexLimit) :
    (ts.map (Term.mapVariable g)).mapM (Term.resolve p (outer ++ scope.map g)) =
      renameOutcome g (List.map (Term.mapVariable (shiftIndex outer.length)))
        (ts.mapM (Term.resolve p scope)) := by
  refine mapM_eq_renameOutcome ?_
  intro t ht
  refine Term.resolve_mapVariable hg ?_ hroom
  intro x hx
  exact hfresh x (Formula.mem_map_symbol_of_variable (hx ▸ ht))

theorem Application.resolve_mapVariables (hg : Function.Injective g) {kind : SymbolKind}
    {a : Application Name}
    (hfresh : ∀ x ∈ (a.arguments.filter Term.isVariable).map Term.symbol, g x ∉ outer)
    (hroom : outer.length = 0 ∨ outer.length + scope.length < indexLimit) :
    (a.mapVariables g).resolve p kind (outer ++ scope.map g) =
      renameOutcome g (Application.mapVariables (shiftIndex outer.length))
        (a.resolve p kind scope) := by
  refine bind_eq_renameOutcome (Problem.resolveSymbol_eq_renameOutcome kind a.symbol) ?_
  intro symbol
  exact bind_eq_renameOutcome (Term.mapM_resolve_mapVariable hg hfresh hroom) fun arguments => rfl

/-! ## Tasks -/

theorem resolveLabel_eq_renameOutcome (label : Name) :
    resolveLabel label = renameOutcome g id (resolveLabel label) := by
  unfold resolveLabel
  cases OccurrenceLabel.number? label with
  | none => rfl
  | some number => rfl

theorem TaskReference.resolve_mapVariables (hg : Function.Injective g) {t : TaskReference Name}
    (hfresh : ∀ x ∈ (t.head.arguments.filter Term.isVariable).map Term.symbol, g x ∉ outer)
    (hroom : outer.length = 0 ∨ outer.length + scope.length < indexLimit) :
    (t.mapVariables g).resolve p (outer ++ scope.map g) =
      renameOutcome g (TaskReference.mapVariables (shiftIndex outer.length))
        (t.resolve p scope) := by
  have hlabel : t.label.mapM resolveLabel = renameOutcome g id (t.label.mapM resolveLabel) := by
    cases t.label with
    | none => rfl
    | some label => exact bind_eq_renameOutcome (resolveLabel_eq_renameOutcome label) fun i => rfl
  refine bind_eq_renameOutcome (Application.resolve_mapVariables hg hfresh hroom) ?_
  intro head
  exact bind_eq_renameOutcome hlabel fun label => rfl

/-- Of a task that a constraint refers to only the label is read, and labels are not renamed. -/
theorem Formula.resolveOccurrence_mapVariables (n : Nat) (keepTime : Bool) (constraint : String)
    (f : Formula Name) :
    (f.mapVariables g g).resolveOccurrence keepTime constraint =
      renameOutcome g (Formula.mapVariables (shiftIndex n) id)
        (f.resolveOccurrence keepTime constraint) := by
  cases f with
  | task t =>
    rw [Formula.mapVariables, Formula.resolveOccurrence, Formula.resolveOccurrence,
      TaskReference.mapVariables]
    cases t.label with
    | none => rfl
    | some label => exact bind_eq_renameOutcome (resolveLabel_eq_renameOutcome label) fun i => rfl
  | occurrence timed label =>
    exact bind_eq_renameOutcome (resolveLabel_eq_renameOutcome label) fun i => rfl
  | _ => rfl

/-! ## Binders -/

namespace Formula

variable {q : Quantifier} {body body' : List Name → Nat → Except ResolutionError (Formula Index)}

/-- One variable is bound in one layer. -/
theorem resolveBinders_singleton (v : TypedVariable Name) (scope : List Name) (depth : Nat) :
    resolveBinders p config q body [v] scope depth =
      if config.maxDepth < depth then .error (.tooDeep config.maxDepth)
      else
        match typeLabel? v.types with
        | none => .error (.untypedVariable v.name)
        | some label => do
          let type ← p.resolveSymbol .type label
          let name ← binderIndex (scope.length + 1)
          let below ← body (scope ++ [v.name]) (depth + 1)
          return quantified q [⟨name, [type]⟩] below := by
  unfold resolveBinders
  rfl

/-- The name of the variable comes last in both scopes, so its index is shifted. -/
theorem resolveBinders_singleton_mapName {v : TypedVariable Name}
    (hroom : outer.length = 0 ∨ outer.length + (scope.length + 1) < indexLimit)
    (hbody : body' (outer ++ (scope ++ [v.name]).map g) (depth + 1) =
      renameOutcome g (shift outer.length) (body (scope ++ [v.name]) (depth + 1))) :
    resolveBinders p config q body' [v.mapName g] (outer ++ scope.map g) depth =
      renameOutcome g (shift outer.length) (resolveBinders p config q body [v] scope depth) := by
  have hscope : outer ++ scope.map g ++ [g v.name] = outer ++ (scope ++ [v.name]).map g := by
    simp
  have hlength : (outer ++ scope.map g).length + 1 = outer.length + (scope.length + 1) := by
    simp [Nat.add_assoc]
  rw [resolveBinders_singleton, resolveBinders_singleton, TypedVariable.mapName, hscope, hlength]
  by_cases hdepth : config.maxDepth < depth
  · rw [if_pos hdepth, if_pos hdepth]
    rfl
  · rw [if_neg hdepth, if_neg hdepth]
    cases typeLabel? v.types with
    | none => rfl
    | some label =>
      refine bind_eq_renameOutcome (Problem.resolveSymbol_eq_renameOutcome .type label) ?_
      intro type
      refine bind_eq_renameOutcome (binderIndex_add hroom g) ?_
      intro name
      exact bind_eq_renameOutcome hbody fun below => rfl

/-- All layers, from the last one outwards. -/
theorem resolveBinders_mapName {vs : List (TypedVariable Name)}
    (hroom : outer.length = 0 ∨ outer.length + (scope.length + vs.length) < indexLimit)
    (hbody : body' (outer ++ (scope ++ vs.map (·.name)).map g) (depth + vs.length) =
      renameOutcome g (shift outer.length)
        (body (scope ++ vs.map (·.name)) (depth + vs.length))) :
    resolveBinders p config q body' (vs.map (TypedVariable.mapName g)) (outer ++ scope.map g) depth =
      renameOutcome g (shift outer.length) (resolveBinders p config q body vs scope depth) := by
  induction vs generalizing scope depth with
  | nil =>
    unfold resolveBinders
    by_cases hdepth : config.maxDepth < depth
    · rw [if_pos hdepth, if_pos hdepth]
      rfl
    · rw [if_neg hdepth, if_neg hdepth]
      rfl
  | cons v vs ih =>
    by_cases hvs : vs = []
    · subst hvs
      exact resolveBinders_singleton_mapName hroom hbody
    · have hmapped : vs.map (TypedVariable.mapName g) ≠ [] := by simpa using hvs
      rw [List.map_cons, resolveBinders_cons hmapped, resolveBinders_cons hvs]
      rw [List.length_cons] at hroom
      refine resolveBinders_singleton_mapName (by omega) (ih ?_ ?_)
      · rw [List.length_append, List.length_singleton]
        omega
      · have hlevels : depth + 1 + vs.length = depth + (v :: vs).length := by
          rw [List.length_cons]
          omega
        rw [List.append_assoc, hlevels]
        exact hbody

/-! ## Formulas -/

theorem resolveAt_of_deep {f : Formula Name} (hdepth : config.maxDepth < depth) :
    f.resolveAt p config scope depth = .error (.tooDeep config.maxDepth) := by
  unfold resolveAt
  rw [if_pos hdepth]

theorem resolveEach_eq_mapM (fs : List (Formula Name)) :
    resolveEach p config scope depth fs = fs.mapM (resolveAt p config scope depth) := by
  induction fs with
  | nil => rfl
  | cons f fs ih => rw [resolveEach, List.mapM_cons, ih]

/-- The binders of `outer` are put around a formula that is renamed by `g`: they have none of the
    new names, and if there are any, all binders fit the index space. -/
structure Surrounds (g : Name → Name) (outer scope : List Name) (f : Formula Name) : Prop where
  fresh : ∀ x ∈ f.variableNames, g x ∉ outer
  room : outer.length = 0 ∨ outer.length + (scope.length + f.binderDepth) < indexLimit

namespace Surrounds

theorem nil (scope : List Name) (f : Formula Name) : Surrounds g [] scope f where
  fresh _ _ := List.not_mem_nil
  room := Or.inl rfl

theorem own {f : Formula Name} (h : Surrounds g outer scope f) :
    ∀ x ∈ f.ownVariables, g x ∉ outer :=
  fun x hx => h.fresh x (f.ownVariables_subset hx)

theorem roomForScope {f : Formula Name} (h : Surrounds g outer scope f) :
    outer.length = 0 ∨ outer.length + scope.length < indexLimit := by
  have hroom := h.room
  omega

theorem child {f c : Formula Name} {inner : List Name} (h : Surrounds g outer scope f)
    (hc : c ∈ f.children) (hle : inner.length + c.binderDepth ≤ scope.length + f.binderDepth) :
    Surrounds g outer inner c where
  fresh x hx := h.fresh x (variableNames_subset hc hx)
  room := by
    have hroom := h.room
    omega

end Surrounds

theorem resolveEach_mapVariables {fs : List (Formula Name)}
    (ih : ∀ f ∈ fs, (f.mapVariables g g).resolveAt p config (outer ++ scope.map g) depth =
      renameOutcome g (shift outer.length) (f.resolveAt p config scope depth)) :
    resolveEach p config (outer ++ scope.map g) depth (mapVariablesAll g g fs) =
      renameOutcome g (mapVariablesAll (shiftIndex outer.length) id)
        (resolveEach p config scope depth fs) := by
  have hshift : mapVariablesAll (shiftIndex outer.length) id = List.map (shift outer.length) :=
    funext (mapVariablesAll_eq_map _ _)
  rw [resolveEach_eq_mapM, resolveEach_eq_mapM, mapVariablesAll_eq_map, hshift]
  exact mapM_eq_renameOutcome ih

/-- **A formula that is renamed and resolved below more binders becomes what it was, shifted.** -/
theorem resolveAt_mapVariables (hg : Function.Injective g) {f : Formula Name}
    (h : Surrounds g outer scope f) :
    (f.mapVariables g g).resolveAt p config (outer ++ scope.map g) depth =
      renameOutcome g (shift outer.length) (f.resolveAt p config scope depth) := by
  induction f using induction_children generalizing outer scope depth with
  | step f ih =>
    by_cases hdepth : config.maxDepth < depth
    · rw [resolveAt_of_deep hdepth, resolveAt_of_deep hdepth]
      rfl
    -- No binders are around the condition of a method constraint.
    have hclosed : ∀ c ∈ f.children, (c.mapVariables g g).resolveAt p config [] (depth + 1) =
        renameOutcome g (mapVariables id id) (c.resolveAt p config [] (depth + 1)) := by
      intro c hc
      rw [← shift_zero]
      exact ih c hc (.nil [] c)
    have hchild : ∀ c ∈ f.children, c.binderDepth ≤ f.binderDepth →
        (c.mapVariables g g).resolveAt p config (outer ++ scope.map g) (depth + 1) =
          renameOutcome g (shift outer.length) (c.resolveAt p config scope (depth + 1)) := by
      intro c hc hle
      exact ih c hc (h.child hc (Nat.add_le_add_left hle _))
    cases f
    case quantified q vs f =>
      rw [mapVariables, resolveAt_quantified, resolveAt_quantified]
      have hroom := h.room
      rw [binderDepth] at hroom
      refine resolveBinders_mapName (by omega) (ih f (by simp [children]) (h.child ?_ ?_))
      · simp [children]
      · rw [binderDepth, List.length_append, List.length_map]
        omega
    all_goals simp only [mapVariables, resolveAt, if_neg hdepth]
    case atom a | function a =>
      exact bind_eq_renameOutcome (Application.resolve_mapVariables hg h.own h.roomForScope)
        fun head => rfl
    case equality ts =>
      exact bind_eq_renameOutcome (Term.mapM_resolve_mapVariable hg h.own h.roomForScope)
        fun terms => rfl
    case task t =>
      exact bind_eq_renameOutcome (TaskReference.resolve_mapVariables hg h.own h.roomForScope)
        fun task => rfl
    case and fs | or fs =>
      refine bind_eq_renameOutcome (resolveEach_mapVariables ?_) fun ts => rfl
      intro f hf
      exact hchild f hf (binderDepth_le_of_mem hf)
    case not f | unary o f =>
      exact bind_eq_renameOutcome (hchild f (by simp [children]) (Nat.le_refl _)) fun t => rfl
    case imply l r | compare c l r | binary o l r =>
      have hl := hchild l (by simp [children]) (Nat.le_max_left ..)
      have hr := hchild r (by simp [children]) (Nat.le_max_right ..)
      exact bind_eq_renameOutcome hl fun l => bind_eq_renameOutcome hr fun r => rfl
    case window o a b c =>
      have ha := hchild a (by simp [children]) (by rw [binderDepth]; omega)
      have hb := hchild b (by simp [children]) (by rw [binderDepth]; omega)
      have hc := hchild c (by simp [children]) (by rw [binderDepth]; omega)
      exact bind_eq_renameOutcome ha fun a => bind_eq_renameOutcome hb fun b =>
        bind_eq_renameOutcome hc fun c => rfl
    case ordering o l r =>
      exact bind_eq_renameOutcome (resolveOccurrence_mapVariables _ _ _ l) fun l =>
        bind_eq_renameOutcome (resolveOccurrence_mapVariables _ _ _ r) fun r => rfl
    case hold side t c =>
      have hkeyword := keyword_mapVariables g g (hold side t c)
      rw [mapVariables] at hkeyword
      rw [hkeyword]
      have hc := hclosed c (by simp [children])
      exact bind_eq_renameOutcome (resolveOccurrence_mapVariables _ _ _ t) fun t =>
        bind_eq_renameOutcome hc fun c => rfl
    case holdBetween a b c =>
      have hc := hclosed c (by simp [children])
      exact bind_eq_renameOutcome (resolveOccurrence_mapVariables _ _ _ a) fun a =>
        bind_eq_renameOutcome (resolveOccurrence_mapVariables _ _ _ b) fun b =>
          bind_eq_renameOutcome hc fun c => rfl
    -- The other nodes have neither variables nor children.
    all_goals rfl

/-- **Renaming the variables of a formula and of its scope changes nothing but the names in
    errors.** -/
theorem resolve_rename (p : Problem) (config : Config) (scope : List Name)
    (hg : Function.Injective g) (f : Formula Name) :
    (f.rename g).resolve p config (scope.map g) =
      (f.resolve p config scope).mapError (ResolutionError.rename g) := by
  have hzero : shift 0 = id := by
    rw [shift_zero]
    exact funext mapVariables_id
  have hrenamed : (f.rename g).resolve p config (scope.map g) =
      renameOutcome g (shift 0) (f.resolve p config scope) :=
    resolveAt_mapVariables hg (.nil scope f)
  rw [hrenamed, renameOutcome, hzero, Except.map_id]
  rfl

/-- The variable `x` and the constant `depot` change their names, but only as variables. The second
    binder of `x` is never found, also under its new name. A variable that is bound around a method
    constraint is free in its condition. -/
theorem resolve_rename_swap :
    let p : Problem := {
      constants := ⟨["depot"], by decide⟩, types := ⟨["x"], by decide⟩,
      predicates := ⟨["at"], by decide⟩ }
    let g : Name → Name := Equiv.swap "x" "depot"
    let f : Formula Name := quantified .universal [⟨"x", ["x"]⟩, ⟨"y", ["x"]⟩]
      (atom ⟨"at", [.variable "x", .variable "depot", .variable "y", .constant "depot"]⟩)
    let f' : Formula Name := quantified .universal [⟨"depot", ["x"]⟩, ⟨"y", ["x"]⟩]
      (atom ⟨"at", [.variable "depot", .variable "x", .variable "y", .constant "depot"]⟩)
    let t : Formula Index := quantified .universal [⟨-3, [0]⟩] (quantified .universal [⟨-4, [0]⟩]
      (atom ⟨0, [.variable (-1), .variable (-2), .variable (-4), .constant 0]⟩))
    let free : Formula Name := hold .before (occurrence false "t1") (atom ⟨"at", [.variable "x"]⟩)
    Function.Injective g ∧ f.rename g = f' ∧ f'.resolve p .default ["depot", "x"] = .ok t ∧
      (free.rename g).resolve p .default ["depot"] = .error (.unboundVariable "depot") := by
  intro p g f f' t free
  have hg : Function.Injective g := (Equiv.swap "x" "depot").injective
  have hf : f.rename g = f' := by rfl
  have hresolve : f.resolve p .default ["x", "depot"] = .ok t := by rfl
  have hfree : free.resolve p .default ["x"] = .error (.unboundVariable "x") := by rfl
  refine ⟨hg, hf, ?_, ?_⟩
  · have hrenamed := resolve_rename p .default ["x", "depot"] hg f
    rw [hf, hresolve] at hrenamed
    exact hrenamed
  · have hrenamed := resolve_rename p .default ["x"] hg free
    rw [hfree] at hrenamed
    exact hrenamed

/-- **Binders that are put around a formula shift its variables.** They may have any names that the
    formula does not use or declare. It resolves to the shifted formula or fails with the same
    error. -/
theorem resolve_append_scope {f : Formula Name} (hfresh : ∀ x ∈ outer, x ∉ f.variableNames)
    (hroom : outer.length + scope.length + f.binderDepth < indexLimit) :
    f.resolve p config (outer ++ scope) =
      (f.resolve p config scope).map (shift outer.length) := by
  have hsurrounds : Surrounds id outer scope f := by
    refine ⟨fun x hx houter => hfresh x houter hx, Or.inr ?_⟩
    rw [← Nat.add_assoc]
    exact hroom
  have hshifted : (f.mapVariables id id).resolveAt p config (outer ++ scope.map id) 0 =
      renameOutcome id (shift outer.length) (f.resolveAt p config scope 0) :=
    resolveAt_mapVariables Function.injective_id hsurrounds
  rw [mapVariables_id, List.map_id] at hshifted
  rw [resolve, hshifted, renameOutcome_id]
  rfl

/-- Two parameters around a scope: the variable in scope moves from `-1` to `-3`, and the binders
    move with it. The condition of the method constraint stays as it is. An unknown predicate is
    reported as before. -/
theorem resolve_append_scope_method :
    let p : Problem := {
      constants := ⟨["depot"], by decide⟩, types := ⟨["truck"], by decide⟩,
      predicates := ⟨["at"], by decide⟩ }
    let f : Formula Name := quantified .universal [⟨"t", ["truck"]⟩, ⟨"c", ["truck"]⟩] (and [
      atom ⟨"at", [.variable "x", .variable "c", .constant "depot"]⟩,
      hold .before (occurrence false "t1") (quantified .existential [⟨"s", ["truck"]⟩]
        (atom ⟨"at", [.variable "s"]⟩))])
    let t (n : Nat) : Formula Index :=
      quantified .universal [⟨-2 - n, [0]⟩] (quantified .universal [⟨-3 - n, [0]⟩] (and [
        atom ⟨0, [.variable (-1 - n), .variable (-3 - n), .constant 0]⟩,
        hold .before (occurrence false 1) (quantified .existential [⟨-1, [0]⟩]
          (atom ⟨0, [.variable (-1)]⟩))]))
    let unknown : Formula Name := not (atom ⟨"near", [.variable "x"]⟩)
    f.resolve p .default ["x"] = .ok (t 0) ∧
      f.resolve p .default ["a", "b", "x"] = .ok (t 2) ∧
      unknown.resolve p .default ["a", "b", "x"] = .error (.unknownSymbol .predicate "near") := by
  intro p f t unknown
  have hresolve : f.resolve p .default ["x"] = .ok (t 0) := by rfl
  have hunknown : unknown.resolve p .default ["x"] = .error (.unknownSymbol .predicate "near") := by
    rfl
  have hbelow : f.resolve p .default (["a", "b"] ++ ["x"]) = _ :=
    resolve_append_scope (by decide) (by decide)
  have hsame : unknown.resolve p .default (["a", "b"] ++ ["x"]) = _ :=
    resolve_append_scope (by decide) (by decide)
  rw [hresolve] at hbelow
  rw [hunknown] at hsame
  exact ⟨hresolve, hbelow, hsame⟩

end Formula

end

end GoalCompiler
