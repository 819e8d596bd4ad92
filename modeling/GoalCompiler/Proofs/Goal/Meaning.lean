import GoalCompiler.Proofs.Condition.Meaning
import GoalCompiler.Proofs.Goal.Outcome
import GoalCompiler.Proofs.NormalForm.Meaning
import GoalCompiler.Proofs.Resolution.Relation

set_option autoImplicit false

/-! # Compiled goals keep the meaning of the goal

A goal is read in a state as it was written, its atoms by the names in the tables of the problem.
The four passes keep its truth value: resolution (`State.truth_eq_of_resolvesTo`), normal form,
conditions of the clauses, and the made-up fluent. So the goal is true in a state exactly when the
compiled goal is reached at once, or by one of the actions that compilation appended
(`Goal.truth_iff_reached`). -/

namespace GoalCompiler

/-! ## Goals as written -/

namespace Problem

/-- The object that a term names. A variable names none. -/
def object? (p : Problem) : Term Name → Option Index
  | .constant name => (p.position? .constant name).map fun i : Nat => i
  | .variable _ => none

/-- The ground atom that an atom names. -/
def groundAtom? (p : Problem) (a : Application Name) : Option GroundAtom := do
  let predicate : Nat ← p.position? .predicate a.symbol
  let arguments ← a.arguments.mapM p.object?
  return ⟨predicate, arguments⟩

variable {p : Problem}

theorem object?_of_resolve {t : Term Name} {u : Term Index} (h : t.resolve p [] = .ok u) :
    p.object? t = some u.symbol := by
  cases t with
  | «variable» x => exact absurd h (by simp [Term.resolve])
  | constant c =>
    obtain ⟨i, hi, rfl⟩ := Term.resolve_constant_eq_ok_iff.1 h
    obtain ⟨position, hposition, -, rfl⟩ := resolveSymbol_eq_ok_iff.1 hi
    simp [object?, hposition, Term.symbol]

/-- An atom resolves to the ground atom that it names. -/
theorem groundAtom?_of_resolve {a : Application Name} {b : Application Index}
    (h : a.resolve p .predicate [] = .ok b) : p.groundAtom? a = some (.ofApplication b) := by
  obtain ⟨hsymbol, harguments⟩ := Application.resolve_eq_ok_iff.1 h
  obtain ⟨position, hposition, -, hindex⟩ := resolveSymbol_eq_ok_iff.1 hsymbol
  have hmap : a.arguments.map p.object? = b.arguments.map fun t => some t.symbol :=
    map_eq_map_of_forall₂ harguments fun _ _ _ ht => object?_of_resolve ht
  have hobjects : a.arguments.mapM p.object? = some (b.arguments.map Term.symbol) :=
    calc a.arguments.mapM p.object?
        = b.arguments.mapM fun t => some t.symbol := by
          simpa [List.mapM_map] using congrArg (List.mapM id) hmap
      _ = some (b.arguments.map Term.symbol) := List.mapM_pure
  rw [groundAtom?, hposition, hobjects, GroundAtom.ofApplication, hindex]
  rfl

end Problem

namespace State

/-- The value of a basic formula of names in a state: of an atom by the ground atom that it names,
    of anything else by its resolved form. -/
def reads (s : State) (p : Problem) (config : Config) : Formula Name → Bool
  | .atom a => (p.groundAtom? a).any (s.holdsAtom p)
  | f => (f.resolve p config []).toOption.any s.other.value

variable {s : State} {p : Problem} {config : Config}

theorem reads_of_resolvesTo {depth : Nat} {f : Formula Name} {t : Formula Index}
    (hf : ∀ a, f ≠ .atom a) (h : ResolvesTo p config [] depth f t) :
    s.reads p config f = s.other.value t := by
  have hresolve : f.resolve p config [] = .ok t :=
    Formula.resolveAt_eq_ok_iff.2 (h.mono (Nat.zero_le depth))
  unfold reads
  split
  · next a => exact absurd rfl (hf a)
  · simp [hresolve, Except.toOption]

/-- Resolution keeps the truth value. -/
theorem truth_eq_of_resolvesTo (s : State) {depth : Nat} {f : Formula Name} {t : Formula Index}
    (h : ResolvesTo p config [] depth f t) :
    f.truth (s.reads p config) = t.truth (s.valuation p).value := by
  induction f using Formula.induction_children generalizing depth t with
  | step f ih =>
    have hbasic := fun hf => reads_of_resolvesTo (s := s) hf h
    cases h with
    | atom shallow resolved =>
      show s.reads p config _ = s.holdsAtom p _
      rw [reads, Problem.groundAtom?_of_resolve resolved]
      rfl
    | and shallow length members =>
      have hmap := map_eq_map_of_zip length fun hf hft => ih _ hf (members hft)
      simpa using congrArg (List.all · id) hmap
    | or shallow length members =>
      have hmap := map_eq_map_of_zip length fun hf hft => ih _ hf (members hft)
      simpa using congrArg (List.any · id) hmap
    | not shallow body =>
      rw [Formula.truth_not, Formula.truth_not, ih _ (by simp [Formula.children]) body]
    | imply shallow left right =>
      rw [Formula.truth_imply, Formula.truth_imply, ih _ (by simp [Formula.children]) left,
        ih _ (by simp [Formula.children]) right]
    | constant => rfl
    -- The other nodes are basic and are read by what they resolve to at the root.
    | _ => exact hbasic (by simp)

end State

/-! ## Clauses -/

namespace Formula

variable {σ : Type}

theorem truth_toConjunction (value : Formula σ → Bool) (f : Formula σ) :
    f.toConjunction.truth value = f.truth value := by
  unfold toConjunction
  split
  · rfl
  · rw [truth_and, List.all_cons, List.all_nil, Bool.and_true]

theorem truth_eq_any_disjuncts (value : Formula σ → Bool) (f : Formula σ) :
    f.truth value = f.disjuncts.any (truth value) := by
  unfold disjuncts
  split
  · rw [truth_or]
  · rw [List.any_cons, List.any_nil, Bool.or_false]

end Formula

namespace Goal

variable {config : Config} {p p' : Problem} {goal : Goal} {cs : List Condition}

/-- A formula is true exactly where one of the conditions of its disjuncts holds. -/
theorem truth_eq_any_alternatives (s : State) (hcapture : config.numericGoals = .capture)
    {f : Formula Index} (h : alternatives p config f = .ok cs) :
    f.truth (s.valuation p).value = cs.any (Condition.holds s) := by
  have hmap : f.disjuncts.map (Formula.truth (s.valuation p).value) =
      cs.map (Condition.holds s) := by
    refine map_eq_map_of_forall₂ (mapM_eq_ok_iff.1 h) ?_
    intro clause _ c hc
    rw [Condition.holds_ofFormulaAt s hcapture hc, Formula.truth_toConjunction]
  rw [Formula.truth_eq_any_disjuncts]
  simpa using congrArg (List.any · id) hmap

end Goal

/-! ## Actions -/

namespace Action

/-- Whether an action makes a fluent true in a state: one of its effects that take place does. -/
def adds (s : State) (a : Action) (x : FluentId) : Bool :=
  a.effects.any fun e => e.condition.holds s && e.effect.positive.contains x

/-- Whether an action makes a fluent false in a state. -/
def deletes (s : State) (a : Action) (x : FluentId) : Bool :=
  a.effects.any fun e => e.condition.holds s && e.effect.negative.contains x

/-- The state after an action. What it makes both true and false is true. -/
def result (s : State) (a : Action) : State :=
  { s with fluents := fun x => a.adds s x || s.fluents x && !a.deletes s x }

/-- A made-up action adds its fluent and changes nothing else. -/
theorem fluents_result_synthetic (s : State) (name : Name) (c : Condition) (x y : FluentId) :
    ((synthetic name c (.unconditional (.adding x))).result s).fluents y =
      (y == x || s.fluents y) := by
  have hadds : (synthetic name c (.unconditional (.adding x))).adds s y = (y == x) := by
    rw [Bool.eq_iff_iff]
    simp [adds, synthetic, ConditionalEffect.unconditional, Effect.adding,
      FluentSet.contains_iff_mem, FluentSet.mem_singleton]
  have hdeletes : (synthetic name c (.unconditional (.adding x))).deletes s y = false := by
    simp [deletes, synthetic, ConditionalEffect.unconditional, Effect.adding]
    rfl
  simp [result, hadds, hdeletes]

end Action

/-! ## Goals -/

namespace Goal

variable {config : Config} {p p' : Problem} {goal : Goal}

/-- The fluent is reached by the action of an alternative exactly where the alternative holds. -/
theorem exists_reached_iff (s : State) (name : Name) (x : FluentId) (cs : List Condition) :
    (∃ a ∈ cs.map (Action.synthetic name · (.unconditional (.adding x))),
      a.precondition.holds s = true ∧ (Condition.single x).holds (a.result s) = true) ↔
        cs.any (Condition.holds s) = true := by
  have hreached (c : Condition) : (Condition.single x).holds
      ((Action.synthetic name c (.unconditional (.adding x))).result s) = true := by
    rw [Condition.holds_single, Action.fluents_result_synthetic, beq_self_eq_true, Bool.true_or]
  simp only [List.mem_map, List.any_eq_true]
  constructor
  · rintro ⟨_, ⟨c, hc, rfl⟩, hholds, -⟩
    exact ⟨c, hc, hholds⟩
  · rintro ⟨c, hc, hholds⟩
    exact ⟨_, ⟨c, hc, rfl⟩, hholds, hreached c⟩

/-- All passes but the last keep the truth value: a goal is true exactly where one of the
    alternatives that are compiled holds. -/
theorem truth_eq_any_of_passes (s : State) {f : Formula Name} {t normal : Formula Index}
    {cs : List Condition} (hcapture : config.numericGoals = .capture)
    (hresolve : f.resolve p config [] = .ok t) (hnormal : t.dnf config.maxClauses = .ok normal)
    (hcs : alternatives p config normal = .ok cs) :
    f.truth (s.reads p config) = cs.any (Condition.holds s) :=
  calc f.truth (s.reads p config)
      = t.truth (s.valuation p).value :=
        s.truth_eq_of_resolvesTo (Formula.resolveAt_eq_ok_iff.1 hresolve)
    _ = normal.truth (s.valuation p).value := by
        rw [Formula.dnf_eq_ofClauses_expansion hnormal, Formula.truth_ofClauses_expansion]
    _ = cs.any (Condition.holds s) := truth_eq_any_alternatives s hcapture hcs

/-- **A goal is true in a state exactly when its compiled form is reached: at once, if no action was
    appended, else by one of the appended actions, and never before.** -/
theorem truth_iff_reached (s : State) {f : Formula Name} (hcapture : config.numericGoals = .capture)
    (hpredicates : ∀ atom ∈ p.fluents.entries, atom.predicate < p.predicates.size)
    (hfluents : ∀ x, s.fluents x = true → x < p.fluents.size)
    (h : compile config f p = .ok goal p') :
    ∃ new, p'.actions = p.actions ++ new ∧
      (f.truth (s.reads p config) = true ↔ new = [] ∧ goal.condition.holds s = true ∨
        ∃ a ∈ new, a.precondition.holds s = true ∧ goal.condition.holds (a.result s) = true) ∧
      (new ≠ [] → goal.condition.holds s = false) := by
  obtain ⟨t, hresolve, hcompile⟩ := compile_eq_ok_iff.1 h
  obtain ⟨-, normal, hnormal, cs, hcs, hcases⟩ := ofFormula_eq_ok_iff.1 hcompile
  rw [truth_eq_any_of_passes s hcapture hresolve hnormal hcs]
  rcases hcases with ⟨rfl, rfl⟩ | ⟨hseveral, hcompile⟩
  · -- One alternative: the goal is its condition.
    exact ⟨[], by simp⟩
  · -- Several: the fluent is new, since no registered atom has the predicate that comes next.
    have hnew : ⟨p.predicates.size, []⟩ ∉ p.fluents.entries := by
      intro hmem
      exact absurd (hpredicates _ hmem) (Int.lt_irrefl _)
    obtain ⟨rfl, hactions⟩ := ofAlternatives_of_not_mem hnew hcompile
    have hbefore : (Condition.single p.fluents.size).holds s = false := by
      rw [Condition.holds_single, Bool.eq_false_iff]
      intro hx
      exact absurd (hfluents _ hx) (Nat.lt_irrefl _)
    have hne : cs ≠ [] := List.ne_nil_of_length_pos (Nat.lt_of_lt_of_le Nat.zero_lt_two hseveral)
    refine ⟨_, hactions, ?_, fun _ => hbefore⟩
    simp only [exists_reached_iff, List.map_eq_nil_iff, hne, false_and, false_or]

/-- An implication becomes two alternatives, and so two actions. The name wanted for the new
    predicate is taken, and the next one is not. -/
theorem truth_iff_reached_imply :
    let p : Problem := {
      constants := ⟨["truck", "home"], by decide⟩, predicates := ⟨["at"], by decide⟩,
      signatures := [[0, 0]], functions := ⟨["fuel"], by decide⟩,
      fluents := ⟨[⟨0, [0, 1]⟩], by decide⟩ }
    let config : Config := { numericGoals := .capture, goalName := "at", actionName := "reach" }
    let f : Formula Name := .imply (.atom ⟨"at", [.constant "truck", .constant "home"]⟩)
      (.compare .less (.function ⟨"fuel", [.constant "truck"]⟩) .elapsed)
    let effect : ConditionalEffect := .unconditional (.adding 1)
    let actions : List Action := [.synthetic "reach" { negative := .singleton 0 } effect,
      .synthetic "reach" { numeric := [⟨.less, .function ⟨0, [.constant 0]⟩, .elapsed⟩] } effect]
    let p' : Problem := { p with
      predicates := ⟨["at", "at-1"], by decide⟩, signatures := [[0, 0], []],
      fluents := ⟨[⟨0, [0, 1]⟩, ⟨1, []⟩], by decide⟩, actions }
    let s : State := ⟨fun x => x == 0, fun _ => false, .ofAtoms fun _ => false⟩
    compile config f p = .ok ⟨.single 1⟩ p' ∧
      ∃ new, p'.actions = p.actions ++ new ∧
        (f.truth (s.reads p config) = true ↔ new = [] ∧ (Condition.single 1).holds s = true ∨
          ∃ a ∈ new, a.precondition.holds s = true ∧
            (Condition.single 1).holds (a.result s) = true) ∧
        (new ≠ [] → (Condition.single 1).holds s = false) := by
  intro p config f effect actions p' s
  have h : compile config f p = .ok ⟨.single 1⟩ p' := by rfl
  have hpredicates : ∀ atom ∈ p.fluents.entries, atom.predicate < p.predicates.size := by decide
  have hfluents : ∀ x, s.fluents x = true → x < p.fluents.size := by
    intro x hx
    rw [eq_of_beq hx]
    decide
  exact ⟨h, truth_iff_reached s rfl hpredicates hfluents h⟩

end Goal

end GoalCompiler
