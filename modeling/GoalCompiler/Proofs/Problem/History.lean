import GoalCompiler.Proofs.Condition.Literals
import GoalCompiler.Proofs.Problem.Run
import Mathlib.Data.List.Induction

set_option autoImplicit false

/-! # The tables of a problem and its history

Indices are handed out while a problem is built, and they are used long after. `History ops p` says
what makes this safe for a problem `p` that was built by the operations `ops`: positions and entries
determine each other, signatures stand where their predicates stand, a task is primitive because
some call has said so, and an index still denotes what it denoted when it was returned. Every problem
built from the empty one has this history, whatever the operations were and whichever of them failed
(`Problem.history_run`).

What one operation does to the predicates is said once (`Problem.predicateStep_apply`): nothing, or
one new name with its signature. The rest follows along the run, with the newest operation last. -/

namespace GoalCompiler

/-! ## Entries -/

namespace Table

variable {α : Type}

/-- An entry stays where it is when the table grows. -/
theorem get?_of_prefix {s t : Table α} {a : α} {i : Nat} (h : s.entries <+: t.entries)
    (hi : s.get? i = some a) : t.get? i = some a := by
  obtain ⟨hlt, rfl⟩ := List.getElem?_eq_some_iff.1 hi
  exact List.prefix_iff_getElem?.1 h i hlt

variable [DecidableEq α]

/-- What adding an entry returns is its position. -/
theorem get?_insert_add (t : Table α) (a : α) : (t.insert a).get? (t.add a).1 = some a := by
  cases hposition : t.position? a with
  | some i =>
    rw [insert_of_mem (mem_of_position? hposition), add, hposition]
    exact position?_eq_some_iff.1 hposition
  | none =>
    have hnew : a ∉ t.entries := position?_eq_none_iff.1 hposition
    rw [get?, entries_insert_of_not_mem hnew, add_fst_of_not_mem hnew]
    exact List.getElem?_concat_length

theorem size_insert_le (t : Table α) (a : α) : (t.insert a).size ≤ t.size + 1 := by
  rw [size, entries_insert]
  split
  · exact Nat.le_succ t.size
  · rw [List.length_append]
    exact Nat.le_refl _

end Table

/-- An entry of the tables that indices point into. -/
inductive Entry
  | symbol (kind : SymbolKind) (name : Name)
  | fluent (atom : GroundAtom)

namespace Problem

variable {p q : Problem}

/-- Whether an index denotes an entry. -/
def Denotes (p : Problem) (i : Nat) : Entry → Prop
  | .symbol kind name => (p.symbols kind).get? i = some name
  | .fluent atom => p.fluents.get? i = some atom

theorem Grows.symbols (h : Grows p q) (kind : SymbolKind) :
    (p.symbols kind).entries <+: (q.symbols kind).entries := by
  cases kind with
  | constant => exact h.constants
  | type => exact h.types
  | predicate => exact h.predicates
  | function => exact h.functions
  | task => exact h.tasks

/-- An index denotes for good what it denotes once. -/
theorem Denotes.of_grows {i : Nat} {e : Entry} (hi : p.Denotes i e) (h : Grows p q) :
    q.Denotes i e := by
  cases e with
  | symbol kind name => exact Table.get?_of_prefix (h.symbols kind) hi
  | fluent atom => exact Table.get?_of_prefix h.fluents hi

end Problem

/-! ## What operations give to their caller -/

namespace Operation

/-- Whether an operation compiles a goal. -/
def isGoal : Operation → Bool
  | resolvedGoal _ _ => true
  | goal _ _ => true
  | _ => false

/-- The operation registers the entry, and `i` is the index it returns for it. -/
inductive Returns (p : Problem) : Operation → Nat → Entry → Prop
  | addConstant (name : Name) :
      Returns p (.addConstant name) (p.addConstant name).1 (.symbol .constant name)
  | addType (name : Name) : Returns p (.addType name) (p.addType name).1 (.symbol .type name)
  | addPredicate (name : Name) (signature : List Nat) :
      Returns p (.addPredicate name signature) (p.addPredicate name signature).1
        (.symbol .predicate name)
  | addFunction (name : Name) :
      Returns p (.addFunction name) (p.addFunction name).1 (.symbol .function name)
  | addTask (name : Name) (primitive : Bool) :
      Returns p (.addTask name primitive) (p.addTask name primitive).1 (.symbol .task name)
  | addFluent {atom x q} (registered : p.addFluent atom = .ok (x, q)) :
      Returns p (.addFluent atom) x (.fluent atom)

/-- The operation compiles a goal, with success. -/
inductive Compiles (p : Problem) : Operation → Goal → Prop
  | resolvedGoal {config f goal q} (compiled : Goal.ofFormula config f p = .ok goal q) :
      Compiles p (.resolvedGoal config f) goal
  | goal {config f goal q} (compiled : Goal.compile config f p = .ok goal q) :
      Compiles p (.goal config f) goal

/-- The operation registers a predicate that was not there, and gives it a signature. -/
inductive Introduces (p : Problem) (name : Name) : Operation → List Nat → Prop
  | declared {signature} (new : name ∉ p.predicates.entries) :
      Introduces p name (.addPredicate name signature) signature
  /-- The predicate of a stand-in takes no arguments. -/
  | standIn {op} (goal : op.isGoal = true) (new : name ∉ p.predicates.entries)
      (registered : name ∈ (op.apply p).predicates.entries) : Introduces p name op []

end Operation

/-! ## Steps -/

namespace Goal

/-- The fluents of a compiled goal are fluents of the problem that it was compiled into. -/
theorem exists_fluent_of_mentions {config : Config} {p q : Problem} {f : Formula Index}
    {goal : Goal} {x : FluentId} (h : ofFormula config f p = .ok goal q)
    (hx : goal.condition.Mentions x) : ∃ atom, q.Denotes x (.fluent atom) := by
  obtain ⟨-, normal, -, cs, hcs, ⟨rfl, rfl⟩ | ⟨-, hrun⟩⟩ := ofFormula_eq_ok_iff.1 h
  · obtain ⟨clause, -, hclause⟩ :=
      exists_mem_of_forall₂ (mapM_eq_ok_iff.1 hcs) List.mem_cons_self
    obtain ⟨atom, hatom⟩ := Condition.registered_of_mentions hclause hx
    exact ⟨atom, Table.position?_eq_some_iff.1 (Problem.fluent?_eq_some_iff.1 hatom).1⟩
  · obtain ⟨-, -, rfl, rfl⟩ := ofAlternatives_eq_ok_iff.1 hrun
    obtain rfl : x = standIn p := by
      simpa [Condition.Mentions, Condition.single, FluentSet.mem_singleton,
        FluentSet.not_mem_empty] using hx
    exact ⟨standInAtom p, p.fluents.get?_insert_add (standInAtom p)⟩

end Goal

namespace Problem

variable {p q : Problem} {op : Operation}

/-- What an operation can make of the predicates: nothing else than they were, or one more, which it
    introduces, with its signature. -/
inductive PredicateStep (p : Problem) (op : Operation) (q : Problem) : Prop
  | same (predicates : q.predicates = p.predicates) (signatures : q.signatures = p.signatures)
  | introduced {name signature} (introduces : op.Introduces p name signature)
      (predicates : q.predicates.entries = p.predicates.entries ++ [name])
      (signatures : q.signatures = p.signatures ++ [signature])

theorem predicateStep_of_changes (hop : op.isGoal = true) (h : Goal.Changes p (op.apply p)) :
    PredicateStep p op (op.apply p) := by
  generalize hq : op.apply p = q at h ⊢
  cases h with
  | same => exact .same rfl rfl
  | extended config cs room =>
    have hentries := Goal.entries_predicates_extend config cs p
    have hnew := p.predicates.freshName_not_mem config.goalName
    refine .introduced (.standIn hop hnew ?_) hentries rfl
    rw [hq, hentries]
    exact List.mem_concat_self

theorem predicateStep_apply (p : Problem) (op : Operation) : PredicateStep p op (op.apply p) := by
  cases op with
  | addPredicate name signature =>
    by_cases hknown : name ∈ p.predicates.entries
    · have hcontains : p.predicates.contains name = true := Table.contains_iff_mem.2 hknown
      refine .same (Table.insert_of_mem hknown) ?_
      simp [Operation.apply, addPredicate, hcontains]
    · refine .introduced (.declared hknown) (Table.entries_insert_of_not_mem hknown) ?_
      rw [Operation.apply, addPredicate_of_not_mem hknown]
  | addFluent atom =>
    rw [Operation.apply_addFluent]
    split <;> exact .same rfl rfl
  | resolvedGoal config f =>
    exact predicateStep_of_changes rfl (Goal.changes_ofFormula config f p)
  | goal config f => exact predicateStep_of_changes rfl (Goal.changes_compile config f p)
  | addConstant | addType | addFunction | addTask => exact .same rfl rfl

theorem primitiveTasks_of_changes (h : Goal.Changes p q) : q.primitiveTasks = p.primitiveTasks := by
  cases h with
  | same => rfl
  | extended config cs room => rfl

/-- A task becomes primitive when it is registered as such, and in no other way. -/
theorem isPrimitiveTask_apply {name : Name} :
    (op.apply p).isPrimitiveTask name = true ↔
      p.isPrimitiveTask name = true ∨ op = .addTask name true := by
  have hsame (h : (op.apply p).primitiveTasks = p.primitiveTasks) (hop : op ≠ .addTask name true) :
      (op.apply p).isPrimitiveTask name = true ↔
        p.isPrimitiveTask name = true ∨ op = .addTask name true := by
    rw [isPrimitiveTask, h, or_iff_left hop]
    rfl
  cases op with
  | addTask registered primitive =>
    cases primitive with
    | false => exact hsame rfl (by simp)
    | true =>
      show (p.primitiveTasks.insert registered).contains name = true ↔ _
      rw [Table.contains_iff_mem, Table.mem_entries_insert, isPrimitiveTask,
        Table.contains_iff_mem, Or.comm]
      simp [eq_comm]
  | addFluent atom =>
    refine hsame ?_ (by simp)
    rw [Operation.apply_addFluent]
    split <;> rfl
  | resolvedGoal config f =>
    exact hsame (primitiveTasks_of_changes (Goal.changes_ofFormula config f p)) (by simp)
  | goal config f =>
    exact hsame (primitiveTasks_of_changes (Goal.changes_compile config f p)) (by simp)
  | addConstant | addType | addPredicate | addFunction => exact hsame rfl (by simp)

theorem size_fluents_of_changes (h : Goal.Changes p q) (hp : p.fluents.size ≤ fluentLimit) :
    q.fluents.size ≤ fluentLimit := by
  cases h with
  | same => exact hp
  | extended config cs room => exact Nat.le_trans (p.fluents.size_insert_le _) room

/-- No operation takes more fluents than there are indices for. -/
theorem size_fluents_apply (op : Operation) (hp : p.fluents.size ≤ fluentLimit) :
    (op.apply p).fluents.size ≤ fluentLimit := by
  cases op with
  | addFluent atom =>
    rw [Operation.apply_addFluent]
    split
    · next hroom => exact Nat.le_trans (p.fluents.size_insert_le atom) hroom
    · exact hp
  | resolvedGoal config f => exact size_fluents_of_changes (Goal.changes_ofFormula config f p) hp
  | goal config f => exact size_fluents_of_changes (Goal.changes_compile config f p) hp
  | addConstant | addType | addPredicate | addFunction | addTask => exact hp

theorem denotes_of_addFluent {atom : GroundAtom} {x : FluentId}
    (h : p.addFluent atom = .ok (x, q)) : q.Denotes x (.fluent atom) := by
  by_cases hroom : p.fluents.size < fluentLimit
  · rw [addFluent_of_room atom hroom] at h
    cases h
    exact p.fluents.get?_insert_add atom
  · -- Without room only a known fluent has an index.
    rw [addFluent] at h
    cases hknown : p.fluent? atom with
    | none => simp [hknown, fluentOf, hroom, bind, Except.bind] at h
    | some known =>
      rw [hknown] at h
      cases h
      exact Table.position?_eq_some_iff.1 (fluent?_eq_some_iff.1 hknown).1

/-- The index that an operation returns denotes what the operation registers. -/
theorem denotes_of_returns {i : Nat} {e : Entry} (h : op.Returns p i e) :
    (op.apply p).Denotes i e := by
  cases h with
  | addConstant name => exact p.constants.get?_insert_add name
  | addType name => exact p.types.get?_insert_add name
  | addPredicate name signature => exact p.predicates.get?_insert_add name
  | addFunction name => exact p.functions.get?_insert_add name
  | addTask name primitive => exact p.tasks.get?_insert_add name
  | addFluent registered =>
    rw [Operation.apply, registered]
    exact denotes_of_addFluent registered

theorem exists_fluent_of_compiles {goal : Goal} {x : FluentId} (h : op.Compiles p goal)
    (hx : goal.condition.Mentions x) : ∃ atom, (op.apply p).Denotes x (.fluent atom) := by
  cases h with
  | resolvedGoal compiled =>
    rw [Operation.apply, Goal.after, compiled]
    exact Goal.exists_fluent_of_mentions compiled hx
  | goal compiled =>
    rw [Operation.apply, Goal.after, compiled]
    obtain ⟨t, -, compiled⟩ := Goal.compile_eq_ok_iff.1 compiled
    exact Goal.exists_fluent_of_mentions compiled hx

/-! ## Runs -/

theorem run_append (p : Problem) (before after : List Operation) :
    p.run (before ++ after) = (p.run before).run after := List.foldl_append

/-- The predicates of a problem that was built by some operations, with their signatures. -/
structure Signed (ops : List Operation) (p : Problem) : Prop where
  parallel : p.signatures.length = p.predicates.size
  given : ∀ {i name}, p.predicates.get? i = some name →
    ∃ before op after signature, ops = before ++ op :: after ∧
      op.Introduces (empty.run before) name signature ∧ p.signatures[i]? = some signature

theorem signed_concat {ops : List Operation} (h : Signed ops (empty.run ops)) (op : Operation) :
    Signed (ops ++ [op]) (op.apply (empty.run ops)) := by
  have hstep := predicateStep_apply (empty.run ops) op
  generalize op.apply (empty.run ops) = q at hstep ⊢
  cases hstep with
  | same predicates signatures =>
    constructor
    · rw [signatures, predicates]
      exact h.parallel
    · intro i name hi
      rw [predicates] at hi
      obtain ⟨before, first, after, signature, rfl, hfirst, hsignature⟩ := h.given hi
      exact ⟨before, first, after ++ [op], signature, by simp, hfirst, signatures ▸ hsignature⟩
  | @introduced new given introduces predicates signatures =>
    have hsize : (empty.run ops).predicates.entries.length = (empty.run ops).signatures.length :=
      h.parallel.symm
    constructor
    · rw [Table.size, predicates, signatures, List.length_append, List.length_append, hsize]
      rfl
    · intro i name hi
      rw [Table.get?, predicates, List.getElem?_append] at hi
      rw [signatures, List.getElem?_append, ← hsize]
      split at hi
      · next hold =>
        obtain ⟨before, first, after, signature, rfl, hfirst, hsignature⟩ := h.given hi
        refine ⟨before, first, after ++ [op], signature, by simp, hfirst, ?_⟩
        rw [if_pos hold]
        exact hsignature
      · next hnew =>
        -- Only the last position is new, and the new predicate stands there.
        obtain ⟨hindex, hname⟩ := List.getElem?_eq_some_iff.1 hi
        obtain rfl : new = name := by simpa using hname
        refine ⟨ops, op, [], given, rfl, introduces, ?_⟩
        rw [if_neg hnew, Nat.lt_one_iff.1 hindex]
        rfl

theorem signed_run (ops : List Operation) : Signed ops (empty.run ops) := by
  induction ops using List.reverseRecOn with
  | nil => exact ⟨rfl, fun hi => absurd hi (by simp [empty, Table.get?, Table.empty])⟩
  | append_singleton ops op ih =>
    rw [run_append]
    exact signed_concat ih op

theorem isPrimitiveTask_run {ops : List Operation} {name : Name} :
    (p.run ops).isPrimitiveTask name = true ↔
      p.isPrimitiveTask name = true ∨ .addTask name true ∈ ops := by
  induction ops generalizing p with
  | nil => simp
  | cons op ops ih =>
    rw [run_cons, ih, isPrimitiveTask_apply, or_assoc, List.mem_cons, @eq_comm _ op]

/-- What has been registered as a task, primitive or not, is a task. -/
theorem mem_tasks_of_addTask_mem {ops : List Operation} {name : Name} {primitive : Bool}
    (h : .addTask name primitive ∈ ops) : name ∈ (p.run ops).tasks.entries := by
  obtain ⟨before, after, rfl⟩ := List.append_of_mem h
  rw [run_append, run_cons]
  refine (grows_run _ after).tasks.subset ?_
  exact Table.mem_entries_insert.2 (Or.inl rfl)

theorem size_fluents_run (ops : List Operation) (hp : p.fluents.size ≤ fluentLimit) :
    (p.run ops).fluents.size ≤ fluentLimit := by
  induction ops generalizing p with
  | nil => exact hp
  | cons op ops ih => exact ih (size_fluents_apply op hp)

/-- What the tables of a problem say of the operations that built it from the empty one. -/
structure History (ops : List Operation) (p : Problem) : Prop where
  /-- No table has an entry twice. -/
  distinct : (∀ kind, (p.symbols kind).entries.Nodup) ∧ p.primitiveTasks.entries.Nodup ∧
    p.fluents.entries.Nodup
  /-- There is a signature for each predicate. -/
  parallel : p.signatures.length = p.predicates.size
  /-- It is the one that the predicate was introduced with. -/
  signatures : ∀ i name, p.predicates.get? i = some name →
    ∃ before op after signature, ops = before ++ op :: after ∧
      op.Introduces (empty.run before) name signature ∧ p.signatures[i]? = some signature
  primitive : ∀ name, p.isPrimitiveTask name = true ↔ .addTask name true ∈ ops
  primitive_task : ∀ name, p.isPrimitiveTask name = true → name ∈ p.tasks.entries
  position : ∀ kind name i,
    p.position? kind name = some i ↔ (p.symbols kind).get? i = some name
  fluent : ∀ atom i, p.fluent? atom = some i ↔ p.fluents.get? i = some atom
  /-- Everything that was there at some time is there, at the same position. -/
  grows : ∀ before after, ops = before ++ after → Grows (empty.run before) p
  /-- An index that was returned for an entry denotes this entry. -/
  returned : ∀ before op after i e, ops = before ++ op :: after →
    op.Returns (empty.run before) i e → p.Denotes i e
  /-- A fluent of a goal denotes what it denoted when the goal was compiled. -/
  compiled : ∀ before op after goal x, ops = before ++ op :: after →
    op.Compiles (empty.run before) goal → goal.condition.Mentions x →
      ∃ atom, (op.apply (empty.run before)).Denotes x (.fluent atom) ∧ p.Denotes x (.fluent atom)

/-- **Every problem that is built from the empty one, by whatever operations, has its history in its
    tables.** -/
theorem history_run (ops : List Operation) : History ops (empty.run ops) := by
  have hprimitive (name : Name) :
      (empty.run ops).isPrimitiveTask name = true ↔ .addTask name true ∈ ops := by
    rw [isPrimitiveTask_run, or_iff_right (by simp [isPrimitiveTask, empty, Table.contains,
      Table.empty])]
  have hfluents : (empty.run ops).fluents.size ≤ fluentLimit :=
    size_fluents_run ops (Nat.zero_le fluentLimit)
  exact {
    distinct := ⟨fun kind => ((empty.run ops).symbols kind).nodup,
      (empty.run ops).primitiveTasks.nodup, (empty.run ops).fluents.nodup⟩
    parallel := (signed_run ops).parallel
    signatures := fun i name hi => (signed_run ops).given hi
    primitive := hprimitive
    primitive_task := fun name h => mem_tasks_of_addTask_mem ((hprimitive name).1 h)
    position := fun kind name i => Table.position?_eq_some_iff
    fluent := fun atom i => by rw [fluent?_of_room hfluents, Table.position?_eq_some_iff]
    grows := by
      rintro before after rfl
      rw [run_append]
      exact grows_run _ after
    returned := by
      rintro before op after i e rfl h
      rw [run_append, run_cons]
      exact (denotes_of_returns h).of_grows (grows_run _ after)
    compiled := by
      rintro before op after goal x rfl h hx
      rw [run_append, run_cons]
      obtain ⟨atom, hatom⟩ := exists_fluent_of_compiles h hx
      exact ⟨atom, hatom, hatom.of_grows (grows_run _ after)⟩ }

end Problem

end GoalCompiler
