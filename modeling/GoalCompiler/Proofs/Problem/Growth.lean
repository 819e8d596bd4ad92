import GoalCompiler.Proofs.Formula.Nodes
import GoalCompiler.Proofs.Problem.History

set_option autoImplicit false

/-! # Results in a growing problem

Formulas are resolved and put into conditions while the problem they belong to still grows: other
symbols and fluents are registered, and goals bring predicates, fluents and actions of their own.
Results from before stay valid, and not only because old indices keep their meaning. Whatever has
come through in a problem comes through in every later one, with the very same result
(`Problem.results_survive_growth`).

The tables are looked up in a few places only, and a position that was found in a table is found in
every table that begins with it. The one answer that can change is whether a task is primitive, so
this has to be the same for the tasks of the formula. -/

namespace GoalCompiler

theorem Table.position?_stable {α : Type} [DecidableEq α] {s t : Table α} {a : α} {i : Nat}
    (h : s.entries <+: t.entries) (hi : s.position? a = some i) : t.position? a = some i := by
  rw [position?_eq_some_iff] at hi ⊢
  exact Table.get?_of_prefix h hi

namespace Problem

/-- Every table of `p` in which something is looked up is the beginning of that of `q`. -/
structure Precedes (p q : Problem) : Prop where
  symbols : ∀ kind, (p.symbols kind).entries <+: (q.symbols kind).entries
  fluents : p.fluents.entries <+: q.fluents.entries

theorem Grows.precedes {p q : Problem} (h : Grows p q) : p.Precedes q := ⟨h.symbols, h.fluents⟩

variable {p q : Problem}

theorem resolveSymbol_of_precedes (hpq : p.Precedes q) {kind : SymbolKind} {name : Name} {i : Index}
    (h : p.resolveSymbol kind name = .ok i) : q.resolveSymbol kind name = .ok i := by
  obtain ⟨position, hposition, hfits, rfl⟩ := resolveSymbol_eq_ok_iff.1 h
  have hlater : q.position? kind name = some position :=
    Table.position?_stable (hpq.symbols kind) hposition
  exact resolveSymbol_eq_ok_iff.2 ⟨position, hlater, hfits, rfl⟩

theorem requireFluent_of_precedes (hpq : p.Precedes q) {a : Application Index} {x : FluentId}
    (h : p.requireFluent a = .ok x) : q.requireFluent a = .ok x := by
  obtain ⟨hposition, hfits⟩ := fluent?_eq_some_iff.1 (requireFluent_eq_ok_iff.1 h)
  have hlater := Table.position?_stable hpq.fluents hposition
  exact requireFluent_eq_ok_iff.2 (fluent?_eq_some_iff.2 ⟨hlater, hfits⟩)

end Problem

/-! ## Resolution -/

section

variable {p q : Problem} {scope : List Name}

theorem Term.resolve_of_precedes (hpq : p.Precedes q) {s : Term Name} {t : Term Index}
    (h : s.resolve p scope = .ok t) : s.resolve q scope = .ok t := by
  cases s with
  | «variable» x => exact h
  | constant c =>
    obtain ⟨i, hi, ht⟩ := bind_eq_ok_iff.1 h
    exact bind_eq_ok_iff.2 ⟨i, Problem.resolveSymbol_of_precedes hpq hi, ht⟩

theorem Term.mapM_resolve_of_precedes (hpq : p.Precedes q) {ss : List (Term Name)}
    {ts : List (Term Index)} (h : ss.mapM (Term.resolve p scope) = .ok ts) :
    ss.mapM (Term.resolve q scope) = .ok ts :=
  mapM_eq_ok_iff.2 ((mapM_eq_ok_iff.1 h).imp fun _ _ => Term.resolve_of_precedes hpq)

theorem Application.resolve_of_precedes (hpq : p.Precedes q) {kind : SymbolKind}
    {a : Application Name} {b : Application Index} (h : a.resolve p kind scope = .ok b) :
    a.resolve q kind scope = .ok b := by
  obtain ⟨hsymbol, harguments⟩ := Application.resolve_eq_ok_iff.1 h
  refine Application.resolve_eq_ok_iff.2 ⟨Problem.resolveSymbol_of_precedes hpq hsymbol, ?_⟩
  exact harguments.imp fun _ _ => Term.resolve_of_precedes hpq

theorem TaskReference.resolve_of_precedes (hpq : p.Precedes q) {t : TaskReference Name}
    {u : TaskReference Index}
    (hprimitive : q.isPrimitiveTask t.head.symbol = p.isPrimitiveTask t.head.symbol)
    (h : t.resolve p scope = .ok u) : t.resolve q scope = .ok u := by
  simp only [TaskReference.resolve, bind_eq_ok_iff] at h ⊢
  obtain ⟨head, hhead, label, hlabel, hu⟩ := h
  rw [← hprimitive] at hu
  exact ⟨head, Application.resolve_of_precedes hpq hhead, label, hlabel, hu⟩

end

namespace Formula

/-- The names of the tasks in a formula. -/
def taskNames (f : Formula Name) : List Name :=
  f.nodes.filterMap fun
    | task t => some t.head.symbol
    | _ => none

theorem mem_taskNames_iff {f : Formula Name} {name : Name} :
    name ∈ f.taskNames ↔ ∃ t, task t ∈ f.nodes ∧ t.head.symbol = name := by
  rw [taskNames, List.mem_filterMap]
  constructor
  · rintro ⟨g, hg, hname⟩
    split at hname
    · next t => exact ⟨t, hg, Option.some.inj hname⟩
    · exact absurd hname (by simp)
  · rintro ⟨t, ht, rfl⟩
    exact ⟨task t, ht, rfl⟩

theorem head_mem_taskNames (t : TaskReference Name) : t.head.symbol ∈ (task t).taskNames :=
  mem_taskNames_iff.2 ⟨t, mem_nodes_iff_children.2 (Or.inl rfl), rfl⟩

/-- The tasks of the children are tasks of the formula. -/
theorem taskNames_subset {f c : Formula Name} (hc : c ∈ f.children) :
    c.taskNames ⊆ f.taskNames := by
  intro name hname
  obtain ⟨t, ht, hname⟩ := mem_taskNames_iff.1 hname
  exact mem_taskNames_iff.2 ⟨t, mem_nodes_iff_children.2 (Or.inr ⟨c, hc, ht⟩), hname⟩

/-- A quantifier has the tasks of its body, whatever it binds. -/
theorem taskNames_quantified_subset {r : Quantifier} {vs ws : List (TypedVariable Name)}
    {f : Formula Name} : (quantified r vs f).taskNames ⊆ (quantified r ws f).taskNames := by
  intro name hname
  obtain ⟨t, ht, hname⟩ := mem_taskNames_iff.1 hname
  rcases mem_nodes_iff_children.1 ht with heq | hbody
  · exact absurd heq (by simp)
  · exact mem_taskNames_iff.2 ⟨t, mem_nodes_iff_children.2 (Or.inr hbody), hname⟩

end Formula

/-- The task names of `f` are primitive in `q` exactly if they are in `p`. -/
def Problem.SamePrimitives (p q : Problem) (f : Formula Name) : Prop :=
  ∀ name ∈ f.taskNames, q.isPrimitiveTask name = p.isPrimitiveTask name

theorem Problem.SamePrimitives.child {p q : Problem} {f c : Formula Name}
    (h : p.SamePrimitives q f) (hc : c ∈ f.children) : p.SamePrimitives q c :=
  fun name hname => h name (Formula.taskNames_subset hc hname)

/-- **What a formula resolves to in a problem it resolves to in every later one.** -/
theorem ResolvesTo.of_precedes {p q : Problem} {config : Config} {scope : List Name} {depth : Nat}
    {f : Formula Name} {t : Formula Index} (hpq : p.Precedes q) (hf : p.SamePrimitives q f)
    (h : ResolvesTo p config scope depth f t) : ResolvesTo q config scope depth f t := by
  induction h with
  | atom shallow resolved => exact .atom shallow (Application.resolve_of_precedes hpq resolved)
  | function shallow resolved =>
    exact .function shallow (Application.resolve_of_precedes hpq resolved)
  | equality shallow resolved =>
    exact .equality shallow (Term.mapM_resolve_of_precedes hpq resolved)
  | and shallow length members ih =>
    exact .and shallow length fun hft => ih hft (hf.child (List.of_mem_zip hft).1)
  | or shallow length members ih =>
    exact .or shallow length fun hft => ih hft (hf.child (List.of_mem_zip hft).1)
  | not shallow body ih => exact .not shallow (ih (hf.child (by simp [Formula.children])))
  | imply shallow left right ihl ihr =>
    exact .imply shallow (ihl (hf.child (by simp [Formula.children])))
      (ihr (hf.child (by simp [Formula.children])))
  | constant shallow => exact .constant shallow
  | bindLast shallow typed known bound body ih =>
    exact .bindLast shallow typed (Problem.resolveSymbol_of_precedes hpq known) bound
      (ih (hf.child (by simp [Formula.children])))
  | bindFirst shallow typed known bound rest ih =>
    refine .bindFirst shallow typed (Problem.resolveSymbol_of_precedes hpq known) bound (ih ?_)
    exact fun name hname => hf name (Formula.taskNames_quantified_subset hname)
  | compare shallow left right ihl ihr =>
    exact .compare shallow (ihl (hf.child (by simp [Formula.children])))
      (ihr (hf.child (by simp [Formula.children])))
  | binary shallow left right ihl ihr =>
    exact .binary shallow (ihl (hf.child (by simp [Formula.children])))
      (ihr (hf.child (by simp [Formula.children])))
  | unary shallow operand ih => exact .unary shallow (ih (hf.child (by simp [Formula.children])))
  | window shallow first second third iha ihb ihc =>
    exact .window shallow (iha (hf.child (by simp [Formula.children])))
      (ihb (hf.child (by simp [Formula.children]))) (ihc (hf.child (by simp [Formula.children])))
  | number shallow => exact .number shallow
  | elapsed shallow => exact .elapsed shallow
  | violated shallow => exact .violated shallow
  | @task scope depth t u shallow resolved =>
    have hprimitive := hf t.head.symbol (Formula.head_mem_taskNames t)
    exact .task shallow (TaskReference.resolve_of_precedes hpq hprimitive resolved)
  | ordering shallow left right => exact .ordering shallow left right
  | hold shallow occurrence condition ih =>
    exact .hold shallow occurrence (ih (hf.child (by simp [Formula.children])))
  | holdBetween shallow first second condition ih =>
    exact .holdBetween shallow first second (ih (hf.child (by simp [Formula.children])))

/-! ## Conditions -/

namespace Condition

variable {p q : Problem} {config : Config} {depth : Nat}

theorem ofConjuncts_of_members {fs : List (Formula Index)} {c : Condition}
    (ih : ∀ f ∈ fs, ∀ c, ofFormulaAt p config depth f = .ok c →
      ofFormulaAt q config depth f = .ok c)
    (h : ofConjuncts p config depth fs = .ok c) : ofConjuncts q config depth fs = .ok c := by
  induction fs generalizing c with
  | nil => exact h
  | cons f fs ihs =>
    simp only [ofConjuncts, bind_eq_ok_iff] at h ⊢
    obtain ⟨first, hfirst, rest, hrest, hc⟩ := h
    have hrest := ihs (fun f hf => ih f (by simp [hf])) hrest
    exact ⟨first, ih f (by simp) first hfirst, rest, hrest, hc⟩

/-- **The condition of a formula in a problem is its condition in every later one.** -/
theorem ofFormulaAt_of_precedes {f : Formula Index} {c : Condition} (hpq : p.Precedes q)
    (h : ofFormulaAt p config depth f = .ok c) : ofFormulaAt q config depth f = .ok c := by
  induction f using Formula.induction_children generalizing depth c with
  | step f ih =>
    unfold ofFormulaAt at h ⊢
    split at h
    · exact absurd h (by simp)
    · next hdepth =>
      rw [if_neg hdepth]
      split at h
      · next a =>
        obtain ⟨x, hx, hc⟩ := bind_eq_ok_iff.1 h
        exact bind_eq_ok_iff.2 ⟨x, Problem.requireFluent_of_precedes hpq hx, hc⟩
      · next a =>
        obtain ⟨x, hx, hc⟩ := bind_eq_ok_iff.1 h
        exact bind_eq_ok_iff.2 ⟨x, Problem.requireFluent_of_precedes hpq hx, hc⟩
      · next fs => exact ofConjuncts_of_members (fun f hf c hc => ih f hf hc) h
      -- Comparisons and the truth value true do not look at the problem.
      · exact h
      · exact h
      · exact absurd h (by simp)

end Condition

/-! ## Results -/

namespace Problem

variable {p q : Problem}

/-- Whatever has a result in `p` has the same result in `q`. Of a formula this is said only if its
    tasks are as primitive in `q` as they are in `p`. -/
structure KeepsResults (config : Config) (p q : Problem) : Prop where
  resolution : ∀ (scope : List Name) (f : Formula Name) (t : Formula Index),
    (∀ name ∈ f.taskNames, q.isPrimitiveTask name = p.isPrimitiveTask name) →
      f.resolve p config scope = .ok t → f.resolve q config scope = .ok t
  condition : ∀ (f : Formula Index) (c : Condition),
    Condition.ofFormula p config f = .ok c → Condition.ofFormula q config f = .ok c

theorem Precedes.keepsResults (h : p.Precedes q) (config : Config) : KeepsResults config p q where
  resolution := by
    intro scope f t hprimitive hresolve
    have hrelation : ResolvesTo p config scope 0 f t := Formula.resolveAt_eq_ok_iff.1 hresolve
    exact Formula.resolveAt_eq_ok_iff.2 (hrelation.of_precedes h hprimitive)
  condition := by
    intro f c hcondition
    exact Condition.ofFormulaAt_of_precedes h hcondition

/-- **Results survive the growth of a problem.** If each table of `p` is the beginning of that of
    `q`, what has a result in `p` has the same result in `q`. In particular this is so for the
    problems before and after any compilation of a goal, which makes no task more or less
    primitive. -/
theorem results_survive_growth (config : Config) (p : Problem) :
    (∀ q : Problem, (∀ kind, (p.symbols kind).entries <+: (q.symbols kind).entries) →
      p.fluents.entries <+: q.fluents.entries → KeepsResults config p q) ∧
    ∀ (goalConfig : Config) (goal : Formula Name),
      let q := Goal.after (Goal.compile goalConfig goal) p
      KeepsResults config p q ∧ ∀ name, q.isPrimitiveTask name = p.isPrimitiveTask name := by
  refine ⟨?_, ?_⟩
  · intro q hsymbols hfluents
    have hpq : p.Precedes q := ⟨hsymbols, hfluents⟩
    exact hpq.keepsResults config
  · intro goalConfig goal q
    have hchanges : Goal.Changes p q := Goal.changes_compile goalConfig goal p
    refine ⟨(grows_of_changes hchanges).precedes.keepsResults config, ?_⟩
    intro name
    rw [isPrimitiveTask, isPrimitiveTask, primitiveTasks_of_changes hchanges]

/-- A later problem with more symbols, more fluents and another primitive task. The formula refers
    to a task that is as primitive as before, and the new names do not get in its way. -/
theorem results_survive_growth_tasks :
    let p : Problem := {
      constants := ⟨["depot"], by decide⟩, types := ⟨["truck"], by decide⟩,
      predicates := ⟨["at"], by decide⟩, signatures := [[0]], tasks := ⟨["drive"], by decide⟩,
      primitiveTasks := ⟨["drive"], by decide⟩, fluents := ⟨[⟨0, [0]⟩], by decide⟩ }
    let q : Problem := { p with
      constants := ⟨["depot", "port"], by decide⟩, tasks := ⟨["drive", "load"], by decide⟩,
      primitiveTasks := ⟨["load", "drive"], by decide⟩,
      fluents := ⟨[⟨0, [0]⟩, ⟨0, [1]⟩], by decide⟩ }
    let f : Formula Name := .quantified .universal [⟨"t", ["truck"]⟩] (.and [
      .atom ⟨"at", [.constant "depot"]⟩,
      .task { head := ⟨"drive", [.variable "t"]⟩, label := some "t1" }])
    let t : Formula Index := .quantified .universal [⟨-1, [0]⟩] (.and [
      .atom ⟨0, [.constant 0]⟩,
      .task { head := ⟨0, [.variable (-1)]⟩, label := some 1, primitive := true }])
    let g : Formula Index := .not (.atom ⟨0, [.constant 0]⟩)
    let c : Condition := { negative := .singleton 0 }
    f.resolve p .default [] = .ok t ∧ f.resolve q .default [] = .ok t ∧
      Condition.ofFormula p .default g = .ok c ∧ Condition.ofFormula q .default g = .ok c := by
  intro p q f t g c
  have hsymbols : ∀ kind, (p.symbols kind).entries <+: (q.symbols kind).entries := by
    intro kind
    cases kind <;> decide
  have hkeeps := (results_survive_growth .default p).1 q hsymbols (by decide)
  have hresolve : f.resolve p .default [] = .ok t := by rfl
  have hcondition : Condition.ofFormula p .default g = .ok c := by rfl
  exact ⟨hresolve, hkeeps.resolution [] f t (by decide) hresolve, hcondition,
    hkeeps.condition g c hcondition⟩

end Problem

end GoalCompiler
