import GoalCompiler.Proofs.Goal.Failure

set_option autoImplicit false

/-! # Runs of operations on a problem

A caller builds a problem by registering symbols and fluents and by compiling goals, in any order. An
`Operation` is one such call, and a run is a list of them. Calls that fail are part of a run: they
leave the problem as it was, and the run goes on.

What a call for a goal can do is said once (`Goal.Changes`); the other calls are their own
description. Along a run tables only grow (`Problem.grows_run`), and every fluent
is there for a reason: it was registered by a call, or it is the stand-in of a goal and then its
predicate is in the table (`Problem.mem_fluents_run`). -/

namespace GoalCompiler

/-! ## Operations -/

namespace Goal

/-- The problem after a compilation, successful or not. -/
def after (x : GoalM Goal) (p : Problem) : Problem :=
  match x p with
  | .ok _ q => q
  | .error _ q => q

end Goal

/-- A call that may change a problem. -/
inductive Operation
  | addConstant (name : Name)
  | addType (name : Name)
  | addPredicate (name : Name) (signature : List Nat)
  | addFunction (name : Name)
  | addTask (name : Name) (primitive : Bool)
  | addFluent (atom : GroundAtom)
  /-- Compile a goal that is resolved already. -/
  | resolvedGoal (config : Config) (f : Formula Index)
  /-- Compile a goal as written. -/
  | goal (config : Config) (f : Formula Name)

namespace Operation

/-- The problem after an operation. -/
def apply (p : Problem) : Operation → Problem
  | addConstant name => (p.addConstant name).2
  | addType name => (p.addType name).2
  | addPredicate name signature => (p.addPredicate name signature).2
  | addFunction name => (p.addFunction name).2
  | addTask name primitive => (p.addTask name primitive).2
  | addFluent atom =>
    match p.addFluent atom with
    | .ok (_, q) => q
    | .error _ => p
  | resolvedGoal config f => Goal.after (Goal.ofFormula config f) p
  | goal config f => Goal.after (Goal.compile config f) p

/-- A fluent is registered as long as there is room. -/
theorem apply_addFluent (p : Problem) (atom : GroundAtom) :
    (addFluent atom).apply p =
      if p.fluents.size < fluentLimit then { p with fluents := p.fluents.insert atom } else p := by
  by_cases hroom : p.fluents.size < fluentLimit
  · rw [apply, if_pos hroom, Problem.addFluent_of_room atom hroom]
  · rw [apply, if_neg hroom, Problem.addFluent]
    -- Only a fluent that is known already has an index.
    cases p.fluent? atom with
    | some known => rfl
    | none => simp [fluentOf, hroom, bind, Except.bind]

end Operation

namespace Problem

/-- The problem after some operations, one after the other. -/
def run (p : Problem) (ops : List Operation) : Problem := ops.foldl Operation.apply p

@[simp]
theorem run_nil (p : Problem) : p.run [] = p := rfl

@[simp]
theorem run_cons (p : Problem) (op : Operation) (ops : List Operation) :
    p.run (op :: ops) = (op.apply p).run ops := rfl

end Problem

/-! ## Goals -/

namespace Goal

/-- What compiling a goal can make of a problem: nothing else than it was, or the problem with a
    stand-in for several alternatives, if there is room for one. -/
inductive Changes (p : Problem) : Problem → Prop
  | same : Changes p p
  | extended (config : Config) (cs : List Condition) (room : p.fluents.size < fluentLimit) :
      Changes p (extend config cs p)

theorem changes_ofFormula (config : Config) (f : Formula Index) (p : Problem) :
    Changes p (after (ofFormula config f) p) := by
  unfold after
  split
  · next goal q h =>
    obtain ⟨-, -, -, cs, -, ⟨-, rfl⟩ | ⟨-, hrun⟩⟩ := ofFormula_eq_ok_iff.1 h
    · exact .same
    · obtain ⟨-, hroom, -, rfl⟩ := ofAlternatives_eq_ok_iff.1 hrun
      exact .extended config cs hroom
  · next e q h =>
    obtain ⟨rfl, -⟩ := ofFormula_eq_error_iff.1 h
    exact .same

theorem changes_compile (config : Config) (f : Formula Name) (p : Problem) :
    Changes p (after (compile config f) p) := by
  rw [after, run_compile]
  cases f.resolve p config [] with
  | error cause => exact .same
  | ok t => exact changes_ofFormula config t p

end Goal

/-! ## Growth -/

namespace Problem

/-- All of `p` is found in `q` at the same positions. -/
structure Grows (p q : Problem) : Prop where
  constants : p.constants.entries <+: q.constants.entries := by exact List.prefix_rfl
  types : p.types.entries <+: q.types.entries := by exact List.prefix_rfl
  predicates : p.predicates.entries <+: q.predicates.entries := by exact List.prefix_rfl
  signatures : p.signatures <+: q.signatures := by exact List.prefix_rfl
  functions : p.functions.entries <+: q.functions.entries := by exact List.prefix_rfl
  tasks : p.tasks.entries <+: q.tasks.entries := by exact List.prefix_rfl
  primitiveTasks : p.primitiveTasks.entries <+: q.primitiveTasks.entries := by
    exact List.prefix_rfl
  fluents : p.fluents.entries <+: q.fluents.entries := by exact List.prefix_rfl
  actions : p.actions <+: q.actions := by exact List.prefix_rfl

theorem Grows.refl (p : Problem) : Grows p p := {}

theorem Grows.trans {p q r : Problem} (hpq : Grows p q) (hqr : Grows q r) : Grows p r where
  constants := hpq.constants.trans hqr.constants
  types := hpq.types.trans hqr.types
  predicates := hpq.predicates.trans hqr.predicates
  signatures := hpq.signatures.trans hqr.signatures
  functions := hpq.functions.trans hqr.functions
  tasks := hpq.tasks.trans hqr.tasks
  primitiveTasks := hpq.primitiveTasks.trans hqr.primitiveTasks
  fluents := hpq.fluents.trans hqr.fluents
  actions := hpq.actions.trans hqr.actions

theorem grows_of_changes {p q : Problem} (h : Goal.Changes p q) : Grows p q := by
  cases h with
  | same => exact .refl p
  | extended config cs room => exact {
      predicates := p.predicates.entries_prefix_insert _
      signatures := List.prefix_append ..
      fluents := p.fluents.entries_prefix_insert _
      actions := List.prefix_append .. }

theorem grows_apply (p : Problem) (op : Operation) : Grows p (op.apply p) := by
  cases op with
  | addConstant name => exact { constants := p.constants.entries_prefix_insert name }
  | addType name => exact { types := p.types.entries_prefix_insert name }
  | addPredicate name signature =>
    refine { predicates := p.predicates.entries_prefix_insert name, signatures := ?_ }
    show p.signatures <+:
      if p.predicates.contains name then p.signatures else p.signatures ++ [signature]
    split
    · exact List.prefix_rfl
    · exact List.prefix_append ..
  | addFunction name => exact { functions := p.functions.entries_prefix_insert name }
  | addTask name primitive =>
    refine { tasks := p.tasks.entries_prefix_insert name, primitiveTasks := ?_ }
    cases primitive with
    | false => exact List.prefix_rfl
    | true => exact p.primitiveTasks.entries_prefix_insert name
  | addFluent atom =>
    rw [Operation.apply_addFluent]
    split
    · exact { fluents := p.fluents.entries_prefix_insert atom }
    · exact .refl p
  | resolvedGoal config f => exact grows_of_changes (Goal.changes_ofFormula config f p)
  | goal config f => exact grows_of_changes (Goal.changes_compile config f p)

theorem grows_run (p : Problem) (ops : List Operation) : Grows p (p.run ops) := by
  induction ops generalizing p with
  | nil => exact .refl p
  | cons op ops ih => exact (grows_apply p op).trans (ih (op.apply p))

/-! ## Fluents -/

/-- The only fluent that compiling a goal brings is that of a registered predicate. -/
theorem mem_fluents_of_changes {p q : Problem} {atom : GroundAtom} (h : Goal.Changes p q)
    (hmem : atom ∈ q.fluents.entries) :
    atom ∈ p.fluents.entries ∨ atom.predicate < q.predicates.size := by
  cases h with
  | same => exact Or.inl hmem
  | extended config cs room =>
    rcases Table.mem_entries_insert.1 hmem with rfl | hmem
    · right
      rw [Goal.size_predicates_extend]
      exact Int.ofNat_lt.2 (Nat.lt_succ_self p.predicates.size)
    · exact Or.inl hmem

/-- A fluent that an operation has brought is the one that it registers, or a stand-in. -/
theorem mem_fluents_apply {p : Problem} {op : Operation} {atom : GroundAtom}
    (h : atom ∈ (op.apply p).fluents.entries) :
    atom ∈ p.fluents.entries ∨ op = .addFluent atom ∨
      atom.predicate < (op.apply p).predicates.size := by
  cases op with
  | addFluent registered =>
    rw [Operation.apply_addFluent] at h
    split at h
    · rcases Table.mem_entries_insert.1 h with rfl | hmem
      · exact Or.inr (Or.inl rfl)
      · exact Or.inl hmem
    · exact Or.inl h
  | resolvedGoal config f =>
    exact (mem_fluents_of_changes (Goal.changes_ofFormula config f p) h).imp_right Or.inr
  | goal config f =>
    exact (mem_fluents_of_changes (Goal.changes_compile config f p) h).imp_right Or.inr
  | addConstant | addType | addPredicate | addFunction | addTask => exact Or.inl h

/-- **A fluent was there before the run, or the run has registered it, or its predicate is in the
    table.** -/
theorem mem_fluents_run {p : Problem} {ops : List Operation} {atom : GroundAtom}
    (h : atom ∈ (p.run ops).fluents.entries) :
    atom ∈ p.fluents.entries ∨ .addFluent atom ∈ ops ∨
      atom.predicate < (p.run ops).predicates.size := by
  induction ops generalizing p with
  | nil => exact Or.inl h
  | cons op ops ih =>
    rcases ih h with hmem | hmem | hlt
    · rcases mem_fluents_apply hmem with hmem | rfl | hlt
      · exact Or.inl hmem
      · exact Or.inr (Or.inl List.mem_cons_self)
      · -- The table of predicates has only grown since.
        have hsize := ((op.apply p).grows_run ops).predicates.length_le
        refine Or.inr (Or.inr (Int.lt_of_lt_of_le hlt ?_))
        exact Int.ofNat_le.2 hsize
    · exact Or.inr (Or.inl (List.mem_cons_of_mem op hmem))
    · exact Or.inr (Or.inr hlt)

/-- If there is still room after a run, everything that the run was to register is a fluent. -/
theorem mem_fluents_of_addFluent_mem {p : Problem} {ops : List Operation} {atom : GroundAtom}
    (hmem : .addFluent atom ∈ ops) (hroom : (p.run ops).fluents.size < fluentLimit) :
    atom ∈ (p.run ops).fluents.entries := by
  induction ops generalizing p with
  | nil => exact absurd hmem (by simp)
  | cons op ops ih =>
    rcases List.mem_cons.1 hmem with rfl | hmem
    · have hbefore : p.fluents.size < fluentLimit :=
        Nat.lt_of_le_of_lt (p.grows_run (.addFluent atom :: ops)).fluents.length_le hroom
      have hnow : atom ∈ ((Operation.addFluent atom).apply p).fluents.entries := by
        rw [Operation.apply_addFluent, if_pos hbefore]
        exact Table.mem_entries_insert.2 (Or.inl rfl)
      exact (grows_run _ ops).fluents.subset hnow
    · exact ih hmem hroom

end Problem

end GoalCompiler
