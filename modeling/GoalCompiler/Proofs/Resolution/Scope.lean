import GoalCompiler.Proofs.Resolution.Relation

set_option autoImplicit false

/-! # Resolved formulas are well scoped

A resolved formula carries nothing but indices, so it is only of use if each of them denotes
something. `WellScoped p n t` says that this is so for `t` below `n` binders:

- the index of a symbol is a position in its table, and that of a variable one of `-n`, ..., `-1`;
- a quantifier binds one variable of one type, and its index is the next one, `-(n + 1)`;
- the condition of a method constraint is below no binders at all, wherever the constraint stands;
- a bare task occurrence stands nowhere but in an ordering or a method constraint, has a number, and
  in a method constraint does not stand for a time point.

Everything that resolution gives is well scoped below the binders of the scope it was resolved in
(`Formula.resolve_wellScoped`). -/

namespace GoalCompiler

/-! ## Scoping -/

/-- Whether an index is a position in the table of the symbols of a kind. -/
def Problem.HasIndex (p : Problem) (kind : SymbolKind) (i : Index) : Prop :=
  0 ≤ i ∧ i < (p.symbols kind).size

/-- Whether a term denotes something below `n` binders: a variable one of the binders, a constant an
    entry of the table of constants. -/
def Term.WellScoped (p : Problem) (n : Nat) : Term Index → Prop
  | .variable i => -n ≤ i ∧ i ≤ -1
  | .constant i => p.HasIndex .constant i

/-- Whether the head of an application is in the table of its kind and its arguments are well
    scoped. -/
structure Application.WellScoped (p : Problem) (kind : SymbolKind) (n : Nat)
    (a : Application Index) : Prop where
  symbol : p.HasIndex kind a.symbol
  arguments : ∀ t ∈ a.arguments, t.WellScoped p n

/-- Whether all indices of a formula denote something below `n` binders. -/
inductive WellScoped (p : Problem) : Nat → Formula Index → Prop
  | atom {n} {a : Application Index} (head : a.WellScoped p .predicate n) :
      WellScoped p n (.atom a)
  | function {n} {a : Application Index} (head : a.WellScoped p .function n) :
      WellScoped p n (.function a)
  | equality {n} {ts : List (Term Index)} (arguments : ∀ t ∈ ts, t.WellScoped p n) :
      WellScoped p n (.equality ts)
  | and {n fs} (members : ∀ f ∈ fs, WellScoped p n f) : WellScoped p n (.and fs)
  | or {n fs} (members : ∀ f ∈ fs, WellScoped p n f) : WellScoped p n (.or fs)
  | not {n f} (body : WellScoped p n f) : WellScoped p n (.not f)
  | imply {n l r} (left : WellScoped p n l) (right : WellScoped p n r) :
      WellScoped p n (.imply l r)
  | constant {n value} : WellScoped p n (.constant value)
  /-- One variable with one type, and the next index for it. -/
  | quantified {n q type f} (known : p.HasIndex .type type) (body : WellScoped p (n + 1) f) :
      WellScoped p n (.quantified q [⟨-(n + 1), [type]⟩] f)
  | compare {n c l r} (left : WellScoped p n l) (right : WellScoped p n r) :
      WellScoped p n (.compare c l r)
  | binary {n o l r} (left : WellScoped p n l) (right : WellScoped p n r) :
      WellScoped p n (.binary o l r)
  | unary {n o f} (operand : WellScoped p n f) : WellScoped p n (.unary o f)
  | window {n o a b c} (first : WellScoped p n a) (second : WellScoped p n b)
      (third : WellScoped p n c) : WellScoped p n (.window o a b c)
  | number {n x} : WellScoped p n (.number x)
  | elapsed {n} : WellScoped p n .elapsed
  | violated {n} : WellScoped p n .violated
  | task {n} {t : TaskReference Index} (head : t.head.WellScoped p .task n)
      (label : ∀ i ∈ t.label, 0 ≤ i) : WellScoped p n (.task t)
  | ordering {n o timed timed' i j} (left : 0 ≤ i) (right : 0 ≤ j) :
      WellScoped p n (.ordering o (.occurrence timed i) (.occurrence timed' j))
  /-- The binders around a method constraint do not reach its condition. -/
  | hold {n side i c} (occurrence : 0 ≤ i) (condition : WellScoped p 0 c) :
      WellScoped p n (.hold side (.occurrence false i) c)
  | holdBetween {n i j c} (first : 0 ≤ i) (second : 0 ≤ j) (condition : WellScoped p 0 c) :
      WellScoped p n (.holdBetween (.occurrence false i) (.occurrence false j) c)

/-! ## Symbols and terms -/

section

variable {p : Problem} {scope : List Name}

theorem Problem.hasIndex_of_resolveSymbol {kind : SymbolKind} {name : Name} {i : Index}
    (h : p.resolveSymbol kind name = .ok i) : p.HasIndex kind i := by
  obtain ⟨position, hposition, -, rfl⟩ := Problem.resolveSymbol_eq_ok_iff.1 h
  have hlt : position < (p.symbols kind).size := Table.lt_size_of_position? hposition
  exact ⟨Int.natCast_nonneg position, Int.ofNat_lt.2 hlt⟩

theorem Term.wellScoped_of_resolve {s : Term Name} {t : Term Index}
    (h : s.resolve p scope = .ok t) : t.WellScoped p scope.length := by
  cases s with
  | «variable» x =>
    obtain ⟨k, hk, -, rfl⟩ := Term.resolve_variable_eq_ok_iff.1 h
    have hlt : k < scope.length := (List.idxOf?_eq_some_iff.1 hk).1
    show -(scope.length : Int) ≤ -((k + 1 : Nat) : Int) ∧ -((k + 1 : Nat) : Int) ≤ -1
    omega
  | constant c =>
    obtain ⟨i, hi, rfl⟩ := Term.resolve_constant_eq_ok_iff.1 h
    exact Problem.hasIndex_of_resolveSymbol hi

theorem Term.forall_wellScoped_of_resolve {ss : List (Term Name)} {ts : List (Term Index)}
    (h : List.Forall₂ (fun s t => s.resolve p scope = .ok t) ss ts) :
    ∀ t ∈ ts, t.WellScoped p scope.length :=
  forall_mem_of_forall₂ h fun _ _ => Term.wellScoped_of_resolve

theorem Application.wellScoped_of_resolve {kind : SymbolKind} {a : Application Name}
    {b : Application Index} (h : a.resolve p kind scope = .ok b) :
    b.WellScoped p kind scope.length := by
  obtain ⟨hsymbol, harguments⟩ := Application.resolve_eq_ok_iff.1 h
  exact ⟨Problem.hasIndex_of_resolveSymbol hsymbol, Term.forall_wellScoped_of_resolve harguments⟩

/-! ## Tasks -/

theorem nonneg_of_resolveLabel {label : Name} {i : Index} (h : resolveLabel label = .ok i) :
    0 ≤ i := by
  obtain ⟨n, -, rfl⟩ := resolveLabel_eq_ok_iff.1 h
  exact Int.natCast_nonneg n

theorem TaskReference.wellScoped_of_resolve {t : TaskReference Name} {u : TaskReference Index}
    (h : t.resolve p scope = .ok u) :
    u.head.WellScoped p .task scope.length ∧ ∀ i ∈ u.label, 0 ≤ i := by
  simp only [TaskReference.resolve, bind_eq_ok_iff, pure_eq_ok_iff] at h
  obtain ⟨head, hhead, label, hlabel, rfl⟩ := h
  refine ⟨Application.wellScoped_of_resolve hhead, ?_⟩
  intro i hi
  cases hname : t.label with
  | none =>
    rw [hname] at hlabel
    cases hlabel
    exact absurd hi (by simp)
  | some name =>
    simp only [hname, Option.mapM_some, map_eq_pure_bind, bind_eq_ok_iff, pure_eq_ok_iff] at hlabel
    obtain ⟨j, hj, rfl⟩ := hlabel
    obtain rfl : j = i := Option.some.inj hi
    exact nonneg_of_resolveLabel hj

/-- A constraint keeps the number of an occurrence, and its time point only if it is about time
    points. -/
theorem Formula.exists_of_resolveOccurrence {keepTime : Bool} {constraint : String}
    {f : Formula Name} {t : Formula Index}
    (h : f.resolveOccurrence keepTime constraint = .ok t) :
    ∃ timed i, 0 ≤ i ∧ t = .occurrence (keepTime && timed) i := by
  unfold Formula.resolveOccurrence at h
  split at h
  · split at h
    · exact absurd h (by simp)
    · simp only [bind_eq_ok_iff, pure_eq_ok_iff] at h
      obtain ⟨i, hi, rfl⟩ := h
      exact ⟨_, i, nonneg_of_resolveLabel hi, rfl⟩
  · simp only [bind_eq_ok_iff, pure_eq_ok_iff] at h
    obtain ⟨i, hi, rfl⟩ := h
    exact ⟨_, i, nonneg_of_resolveLabel hi, rfl⟩
  · exact absurd h (by simp)

/-! ## Formulas -/

/-- A binder extends the scope by one name, so the next binder has the next index. -/
theorem wellScoped_quantified {q : Quantifier} {v : TypedVariable Name} {label : Name}
    {type name : Index} {t : Formula Index} (known : p.resolveSymbol .type label = .ok type)
    (bound : binderIndex (scope.length + 1) = .ok name)
    (body : WellScoped p (scope ++ [v.name]).length t) :
    WellScoped p scope.length (.quantified q [⟨name, [type]⟩] t) := by
  obtain ⟨-, rfl⟩ := binderIndex_eq_ok_iff.1 bound
  rw [List.length_append, List.length_singleton] at body
  exact .quantified (Problem.hasIndex_of_resolveSymbol known) body

/-- One case for each rule. Only the two rules of quantifiers extend the scope, and only the rules of
    method constraints start a new one. -/
theorem wellScoped_of_resolvesTo {config : Config} {depth : Nat} {f : Formula Name}
    {t : Formula Index} (h : ResolvesTo p config scope depth f t) :
    WellScoped p scope.length t := by
  induction h with
  | atom shallow resolved => exact .atom (Application.wellScoped_of_resolve resolved)
  | function shallow resolved => exact .function (Application.wellScoped_of_resolve resolved)
  | equality shallow resolved =>
    exact .equality (Term.forall_wellScoped_of_resolve (mapM_eq_ok_iff.1 resolved))
  | and shallow length members ih =>
    exact .and (forall_mem_of_forall₂ (List.forall₂_iff_zip.2 ⟨length, ih⟩) fun _ _ ht => ht)
  | or shallow length members ih =>
    exact .or (forall_mem_of_forall₂ (List.forall₂_iff_zip.2 ⟨length, ih⟩) fun _ _ ht => ht)
  | not shallow body ih => exact .not ih
  | imply shallow left right ihl ihr => exact .imply ihl ihr
  | constant => exact .constant
  | bindLast shallow typed known bound body ih => exact wellScoped_quantified known bound ih
  | bindFirst shallow typed known bound rest ih => exact wellScoped_quantified known bound ih
  | compare shallow left right ihl ihr => exact .compare ihl ihr
  | binary shallow left right ihl ihr => exact .binary ihl ihr
  | unary shallow operand ih => exact .unary ih
  | window shallow first second third iha ihb ihc => exact .window iha ihb ihc
  | number => exact .number
  | elapsed => exact .elapsed
  | violated => exact .violated
  | task shallow resolved =>
    obtain ⟨hhead, hlabel⟩ := TaskReference.wellScoped_of_resolve resolved
    exact .task hhead hlabel
  | ordering shallow left right =>
    obtain ⟨timed, i, hi, rfl⟩ := Formula.exists_of_resolveOccurrence left
    obtain ⟨timed', j, hj, rfl⟩ := Formula.exists_of_resolveOccurrence right
    exact .ordering hi hj
  | hold shallow occurrence condition ih =>
    obtain ⟨-, i, hi, rfl⟩ := Formula.exists_of_resolveOccurrence occurrence
    exact .hold hi ih
  | holdBetween shallow first second condition ih =>
    obtain ⟨-, i, hi, rfl⟩ := Formula.exists_of_resolveOccurrence first
    obtain ⟨-, j, hj, rfl⟩ := Formula.exists_of_resolveOccurrence second
    exact .holdBetween hi hj ih

namespace Formula

/-- **What a formula resolves to is well scoped below the binders of its scope.** -/
theorem resolve_wellScoped {config : Config} {f : Formula Name} {t : Formula Index}
    (h : f.resolve p config scope = .ok t) : WellScoped p scope.length t :=
  wellScoped_of_resolvesTo (resolveAt_eq_ok_iff.1 h)

/-- Below the free variable `-1` the quantifier binds `-2` and `-3`, but the condition of the method
    constraint starts again at `-1`. The ordering keeps the time point of its first task, the method
    constraint does not. -/
theorem resolve_wellScoped_method :
    let p : Problem := {
      constants := ⟨["depot"], by decide⟩, types := ⟨["truck", "either~city~port"], by decide⟩,
      predicates := ⟨["at"], by decide⟩, functions := ⟨["fuel"], by decide⟩,
      tasks := ⟨["refuel", "deliver"], by decide⟩ }
    let deliver : TaskReference Name :=
      { head := ⟨"deliver", [.variable "x"]⟩, label := some "t3", time := some .start }
    let f : Formula Name :=
      quantified .universal [⟨"t", ["truck"]⟩, ⟨"c", ["city", "port"]⟩] (and [
        compare .less (function ⟨"fuel", [.variable "t"]⟩) elapsed,
        hold .before (task deliver)
          (quantified .existential [⟨"s", ["truck"]⟩]
            (atom ⟨"at", [.variable "s", .constant "depot"]⟩)),
        ordering .before (task deliver) (occurrence false "t12"),
        or [equality [.variable "x", .variable "c"], task deliver]])
    let t : Formula Index :=
      quantified .universal [⟨-2, [0]⟩] (quantified .universal [⟨-3, [1]⟩] (and [
        compare .less (function ⟨0, [.variable (-2)]⟩) elapsed,
        hold .before (occurrence false 3)
          (quantified .existential [⟨-1, [0]⟩] (atom ⟨0, [.variable (-1), .constant 0]⟩)),
        ordering .before (occurrence true 3) (occurrence false 12),
        or [equality [.variable (-1), .variable (-3)],
          task { head := ⟨1, [.variable (-1)]⟩, label := some 3, time := some .start }]]))
    f.resolve p .default ["x"] = .ok t ∧ WellScoped p 1 t := by
  intro p deliver f t
  have h : f.resolve p .default ["x"] = .ok t := by rfl
  exact ⟨h, resolve_wellScoped h⟩

end Formula

end

end GoalCompiler
