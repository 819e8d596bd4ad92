import GoalCompiler.Proofs.Resolution.Relation
import Mathlib.Logic.Function.Basic

set_option autoImplicit false

/-! # Resolution keeps the meaning of quantified formulas

First-order formulas are read over a domain of objects. There is one definition of truth,
`Formula.Holds`, for formulas over any symbols; a `Reading` says what the symbols mean and how
variables are bound and looked up. Two readings matter here, for the same `Interpretation` of
indices:

- `Interpretation.named` is the standard one. Names are found in the tables of a problem, and an
  environment maps names to objects, so that an inner binder hides an outer one of the same name.
- `Interpretation.indexed` reads resolved formulas. An environment is the list of the objects of all
  binders from the outermost inwards, and `-k` is the `k`-th of them.

Without shadowing a formula and its resolved form say the same (`Formula.holds_resolve_iff`). The
invariant of the induction is that the scope, read by the environment of names, is the list of
objects. -/

namespace GoalCompiler

universe u

/-! ## Readings -/

/-- What the symbols of formulas mean over a domain `D`, with environments `E` for variables. -/
structure Reading (σ : Type) (D E : Type u) where
  predicate : σ → List D → Prop
  constant? : σ → Option D
  /-- The objects that a variable with these declared types ranges over. -/
  type : List σ → D → Prop
  lookup? : E → σ → Option D
  bind : E → σ → D → E

/-- What the positions in the tables of a problem mean over a domain. -/
structure Interpretation (D : Type u) where
  predicate : Index → List D → Prop
  constant : Index → D
  type : Index → D → Prop

namespace Interpretation

variable {D : Type u}

/-- Names mean what their positions in the tables of the problem mean. Several declared types are
    found as one, under their label. -/
def named (I : Interpretation D) (p : Problem) : Reading Name D (Name → Option D) where
  predicate name ds := ∃ i : Nat, p.position? .predicate name = some i ∧ I.predicate i ds
  constant? name := (p.position? .constant name).map fun i : Nat => I.constant i
  type types d := ∃ label, typeLabel? types = some label ∧
    ∃ i : Nat, p.position? .type label = some i ∧ I.type i d
  lookup? env name := env name
  bind env name d := Function.update env name (some d)

/-- Indices mean what they mean, and the `k`-th binder is the `k`-th object of the environment. -/
def indexed (I : Interpretation D) : Reading Index D (List D) where
  predicate := I.predicate
  constant? i := some (I.constant i)
  type types d := ∃ i ∈ types, I.type i d
  lookup? objects
    | .negSucc k => objects[k]?
    | .ofNat _ => none
  bind objects _ d := objects ++ [d]

end Interpretation

/-! ## Truth -/

section

variable {σ : Type} {D E : Type u}

/-- The object of a term, if it has one. -/
def Term.value? (R : Reading σ D E) (env : E) : Term σ → Option D
  | .variable x => R.lookup? env x
  | .constant c => R.constant? c

/-- A statement about all objects of a range, or about one of them. -/
def Quantifier.Over (q : Quantifier) (range statement : D → Prop) : Prop :=
  match q with
  | .universal => ∀ d, range d → statement d
  | .existential => ∃ d, range d ∧ statement d

theorem Quantifier.over_congr {q : Quantifier} {range range' statement statement' : D → Prop}
    (hrange : ∀ d, range d ↔ range' d) (hstatement : ∀ d, statement d ↔ statement' d) :
    q.Over range statement ↔ q.Over range' statement' := by
  obtain rfl : range = range' := funext fun d => propext (hrange d)
  obtain rfl : statement = statement' := funext fun d => propext (hstatement d)
  exact Iff.rfl

/-- Bind the variables one after the other around the statement. -/
def Reading.Bound (R : Reading σ D E) (q : Quantifier) (statement : E → Prop) :
    List (TypedVariable σ) → E → Prop
  | [], env => statement env
  | v :: vs, env => q.Over (R.type v.types) fun d => R.Bound q statement vs (R.bind env v.name d)

namespace Formula

mutual

/-- The truth of a first-order formula. Nodes that are not first-order are read as false. -/
def Holds (R : Reading σ D E) : Formula σ → E → Prop
  | atom a, env => ∃ ds, a.arguments.mapM (Term.value? R env) = some ds ∧ R.predicate a.symbol ds
  | equality ts, env =>
    ∃ ds, ts.mapM (Term.value? R env) = some ds ∧ ∀ d ∈ ds, ∀ d' ∈ ds, d = d'
  | and fs, env => HoldsAll R fs env
  | or fs, env => HoldsAny R fs env
  | not f, env => ¬ f.Holds R env
  | imply l r, env => l.Holds R env → r.Holds R env
  | constant b, _ => b = true
  | quantified q vs f, env => R.Bound q (fun env => f.Holds R env) vs env
  | _, _ => False

def HoldsAll (R : Reading σ D E) : List (Formula σ) → E → Prop
  | [], _ => True
  | f :: fs, env => f.Holds R env ∧ HoldsAll R fs env

def HoldsAny (R : Reading σ D E) : List (Formula σ) → E → Prop
  | [], _ => False
  | f :: fs, env => f.Holds R env ∨ HoldsAny R fs env

end

theorem holds_and_iff {R : Reading σ D E} {fs : List (Formula σ)} {env : E} :
    (and fs).Holds R env ↔ ∀ P ∈ fs.map fun f => f.Holds R env, P := by
  rw [Holds]
  induction fs with
  | nil => simp [HoldsAll]
  | cons f fs ih => rw [HoldsAll, List.map_cons, List.forall_mem_cons, ih]

theorem holds_or_iff {R : Reading σ D E} {fs : List (Formula σ)} {env : E} :
    (or fs).Holds R env ↔ ∃ P ∈ fs.map fun f => f.Holds R env, P := by
  rw [Holds]
  induction fs with
  | nil => simp [HoldsAny]
  | cons f fs ih => rw [HoldsAny, List.map_cons, List.exists_mem_cons_iff, ih]

end Formula

end

/-! ## Shadowing -/

/-- Whether no declared name is in scope where it is declared; the names declared before it are. -/
def declaresFresh (scope : List Name) : List (TypedVariable Name) → Bool
  | [] => true
  | v :: vs => !scope.contains v.name && declaresFresh (scope ++ [v.name]) vs

namespace Formula

mutual

/-- Whether no quantifier of a first-order formula declares a name that is in scope already. -/
def noShadowing (scope : List Name) : Formula Name → Bool
  | and fs => noShadowingAll scope fs
  | or fs => noShadowingAll scope fs
  | not f => f.noShadowing scope
  | imply l r => l.noShadowing scope && r.noShadowing scope
  | quantified _ vs f => declaresFresh scope vs && f.noShadowing (scope ++ vs.map (·.name))
  | _ => true

def noShadowingAll (scope : List Name) : List (Formula Name) → Bool
  | [] => true
  | f :: fs => f.noShadowing scope && noShadowingAll scope fs

end

theorem noShadowing_of_mem {scope : List Name} {fs : List (Formula Name)} {f : Formula Name}
    (h : noShadowingAll scope fs = true) (hf : f ∈ fs) : f.noShadowing scope = true := by
  induction fs with
  | nil => exact absurd hf (by simp)
  | cons g fs ih =>
    rw [noShadowingAll, Bool.and_eq_true] at h
    rcases List.mem_cons.1 hf with rfl | hf
    · exact h.1
    · exact ih h.2 hf

theorem noShadowing_quantified_nil {scope : List Name} {q : Quantifier} {f : Formula Name} :
    (quantified q [] f).noShadowing scope = f.noShadowing scope := by
  simp [noShadowing, declaresFresh]

/-- The variables of a quantifier are declared one after the other. -/
theorem noShadowing_quantified_cons {scope : List Name} {q : Quantifier} {v : TypedVariable Name}
    {vs : List (TypedVariable Name)} {f : Formula Name} :
    (quantified q (v :: vs) f).noShadowing scope = true ↔
      v.name ∉ scope ∧ (quantified q vs f).noShadowing (scope ++ [v.name]) = true := by
  simp [noShadowing, declaresFresh, and_assoc]

end Formula

/-! ## Terms -/

section

variable {D : Type u} {I : Interpretation D} {p : Problem} {scope : List Name}
  {env : Name → Option D} {objects : List D}

/-- A new binder extends both environments alike, if its name is new. -/
theorem map_update_append {x : Name} (henv : scope.map env = objects.map some) (hx : x ∉ scope)
    (d : D) :
    (scope ++ [x]).map (Function.update env x (some d)) = (objects ++ [d]).map some := by
  have hscope : scope.map (Function.update env x (some d)) = scope.map env := by
    refine List.map_congr_left ?_
    intro y hy
    have hne : y ≠ x := by
      intro hyx
      exact hx (hyx ▸ hy)
    exact Function.update_of_ne hne (some d) env
  rw [List.map_append, List.map_append, hscope, henv]
  simp

/-- The name at a position of the scope means the object at that position. -/
theorem env_eq_getElem? {x : Name} {k : Nat} (henv : scope.map env = objects.map some)
    (hk : scope.idxOf? x = some k) : env x = objects[k]? := by
  obtain ⟨hlt, hx, -⟩ := List.idxOf?_eq_some_iff.1 hk
  have hat := congrArg (·[k]?) henv
  simp only [List.getElem?_map, List.getElem?_eq_getElem hlt, hx, Option.map_some] at hat
  cases hd : objects[k]? with
  | none => simp [hd] at hat
  | some d => simpa [hd] using hat

theorem Term.value?_resolve {s : Term Name} {t : Term Index}
    (henv : scope.map env = objects.map some) (h : s.resolve p scope = .ok t) :
    s.value? (I.named p) env = t.value? I.indexed objects := by
  cases s with
  | «variable» x =>
    obtain ⟨k, hk, -, rfl⟩ := Term.resolve_variable_eq_ok_iff.1 h
    exact env_eq_getElem? henv hk
  | constant c =>
    obtain ⟨i, hi, rfl⟩ := Term.resolve_constant_eq_ok_iff.1 h
    obtain ⟨position, hposition, -, rfl⟩ := Problem.resolveSymbol_eq_ok_iff.1 hi
    simp [Term.value?, Interpretation.named, Interpretation.indexed, hposition]

theorem mapM_value?_resolve {ss : List (Term Name)} {ts : List (Term Index)}
    (henv : scope.map env = objects.map some)
    (h : List.Forall₂ (fun s t => s.resolve p scope = .ok t) ss ts) :
    ss.mapM (Term.value? (I.named p) env) = ts.mapM (Term.value? I.indexed objects) := by
  have hvalues : ss.map (Term.value? (I.named p) env) = ts.map (Term.value? I.indexed objects) :=
    map_eq_map_of_forall₂ h fun _ _ _ hst => Term.value?_resolve henv hst
  simpa [List.mapM_map] using congrArg (List.mapM id) hvalues

/-! ## Formulas -/

theorem predicate_named_iff_indexed {name : Name} {predicate : Index}
    (known : p.resolveSymbol .predicate name = .ok predicate) (ds : List D) :
    (I.named p).predicate name ds ↔ I.indexed.predicate predicate ds := by
  obtain ⟨position, hposition, -, rfl⟩ := Problem.resolveSymbol_eq_ok_iff.1 known
  simp [Interpretation.named, Interpretation.indexed, hposition]

/-- A variable ranges over the same objects before and after resolution. -/
theorem type_named_iff_indexed {types : List Name} {label : Name} {type : Index}
    (typed : typeLabel? types = some label) (known : p.resolveSymbol .type label = .ok type)
    (d : D) :
    (I.named p).type types d ↔ I.indexed.type [type] d := by
  obtain ⟨position, hposition, -, rfl⟩ := Problem.resolveSymbol_eq_ok_iff.1 known
  simp [Interpretation.named, Interpretation.indexed, typed, hposition]

/-- One case for each rule. The invariant is `henv`, which a binder extends on both sides. -/
theorem holds_iff_of_resolvesTo {config : Config} {depth : Nat} {f : Formula Name}
    {t : Formula Index} (h : ResolvesTo p config scope depth f t)
    (hfresh : f.noShadowing scope = true) (henv : scope.map env = objects.map some) :
    f.Holds (I.named p) env ↔ t.Holds I.indexed objects := by
  induction h generalizing env objects with
  | atom shallow resolved =>
    obtain ⟨hsymbol, harguments⟩ := Application.resolve_eq_ok_iff.1 resolved
    have hvalues := mapM_value?_resolve (I := I) henv harguments
    rw [Formula.Holds, Formula.Holds, hvalues]
    simp only [predicate_named_iff_indexed hsymbol]
  | equality shallow resolved =>
    have hvalues := mapM_value?_resolve (I := I) henv (mapM_eq_ok_iff.1 resolved)
    rw [Formula.Holds, Formula.Holds, hvalues]
  | and shallow length members ih =>
    rw [Formula.noShadowing] at hfresh
    have hmap := map_eq_map_of_zip length fun hf hft =>
      propext (ih hft (Formula.noShadowing_of_mem hfresh hf) henv)
    rw [Formula.holds_and_iff, Formula.holds_and_iff, hmap]
  | or shallow length members ih =>
    rw [Formula.noShadowing] at hfresh
    have hmap := map_eq_map_of_zip length fun hf hft =>
      propext (ih hft (Formula.noShadowing_of_mem hfresh hf) henv)
    rw [Formula.holds_or_iff, Formula.holds_or_iff, hmap]
  | not shallow body ih =>
    rw [Formula.Holds, Formula.Holds, ih hfresh henv]
  | imply shallow left right ihl ihr =>
    rw [Formula.noShadowing, Bool.and_eq_true] at hfresh
    rw [Formula.Holds, Formula.Holds, ihl hfresh.1 henv, ihr hfresh.2 henv]
  | constant => exact Iff.rfl
  | bindLast shallow typed known bound body ih =>
    obtain ⟨hname, hfresh⟩ := Formula.noShadowing_quantified_cons.1 hfresh
    rw [Formula.noShadowing_quantified_nil] at hfresh
    refine Quantifier.over_congr (type_named_iff_indexed typed known) ?_
    intro d
    exact ih hfresh (map_update_append henv hname d)
  | bindFirst shallow typed known bound rest ih =>
    -- The induction hypothesis is about the quantifier over the other variables.
    obtain ⟨hname, hfresh⟩ := Formula.noShadowing_quantified_cons.1 hfresh
    refine Quantifier.over_congr (type_named_iff_indexed typed known) ?_
    intro d
    exact ih hfresh (map_update_append henv hname d)
  -- No other node is first-order, so both sides are false.
  | _ => exact Iff.rfl

namespace Formula

/-- **A resolved formula says of the objects in scope what the formula says of their names.** -/
theorem holds_resolve_iff {config : Config} {f : Formula Name} {t : Formula Index}
    (I : Interpretation D) (hfresh : f.noShadowing scope = true)
    (henv : scope.map env = objects.map some) (h : f.resolve p config scope = .ok t) :
    f.Holds (I.named p) env ↔ t.Holds I.indexed objects :=
  holds_iff_of_resolvesTo (resolveAt_eq_ok_iff.1 h) hfresh henv

/-- Two variables declared at once, a third one below them, a free variable and a constant: the
    binders are `-2`, `-3` and `-4`, below the free variable at `-1`. -/
theorem holds_resolve_iff_three_binders :
    let p : Problem := {
      constants := ⟨["depot"], by decide⟩, types := ⟨["truck", "either~city~port"], by decide⟩,
      predicates := ⟨["at"], by decide⟩ }
    let f : Formula Name :=
      quantified .universal [⟨"t", ["truck"]⟩, ⟨"c", ["city", "port"]⟩]
        (imply (atom ⟨"at", [.variable "t", .variable "c"]⟩)
          (quantified .existential [⟨"s", ["truck"]⟩]
            (and [not (equality [.variable "s", .variable "x"]),
              atom ⟨"at", [.variable "s", .constant "depot"]⟩])))
    let t : Formula Index :=
      quantified .universal [⟨-2, [0]⟩] (quantified .universal [⟨-3, [1]⟩]
        (imply (atom ⟨0, [.variable (-2), .variable (-3)]⟩)
          (quantified .existential [⟨-4, [0]⟩]
            (and [not (equality [.variable (-4), .variable (-1)]),
              atom ⟨0, [.variable (-4), .constant 0]⟩]))))
    let I : Interpretation Nat := ⟨fun _ ds => ds = [3, 2], fun _ => 2, fun i d => i = 0 ∨ d = 2⟩
    let env : Name → Option Nat := fun name => if name = "x" then some 5 else none
    f.resolve p .default ["x"] = .ok t ∧ (f.Holds (I.named p) env ↔ t.Holds I.indexed [5]) := by
  intro p f t I env
  have h : f.resolve p .default ["x"] = .ok t := by rfl
  have hfresh : f.noShadowing ["x"] = true := by decide
  have henv : ["x"].map env = [5].map some := by decide
  exact ⟨h, holds_resolve_iff I hfresh henv h⟩

end Formula

end

end GoalCompiler
