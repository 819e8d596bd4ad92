import GoalCompiler.Proofs.Resolution.Relation

set_option autoImplicit false

/-! # Which formulas have a resolved form

Resolution stops at the first name, label or depth that is wrong, and there are many places where it
can stop. `WellFormed p config scope depth f` says what it takes to come through, without any order:
every symbol is known, every variable is in scope, every quantifier declares typed variables, every
constraint refers to task occurrences with a number, and no node is too deep. A declared variable
counts as one level of depth, and the condition of a method constraint is in no scope at all. Of the
tasks that orderings and method constraints refer to nothing but the label matters.

As long as positions and binders fit the index space, these are exactly the formulas that resolution
accepts (`Formula.exists_resolve_iff_wellFormed`). -/

namespace GoalCompiler

/-! ## Well-formed formulas -/

/-- Whether a symbol is in the table of its kind. -/
def Problem.Knows (p : Problem) (kind : SymbolKind) (name : Name) : Prop :=
  name ∈ (p.symbols kind).entries

def Term.WellFormed (p : Problem) (scope : List Name) : Term Name → Prop
  | .variable name => name ∈ scope
  | .constant name => p.Knows .constant name

structure Application.WellFormed (p : Problem) (kind : SymbolKind) (scope : List Name)
    (a : Application Name) : Prop where
  symbol : p.Knows kind a.symbol
  arguments : ∀ t ∈ a.arguments, t.WellFormed p scope

/-- Whether there are types, and their label is a type of the problem. -/
def TypedVariable.WellFormed (p : Problem) (v : TypedVariable Name) : Prop :=
  ∃ label, typeLabel? v.types = some label ∧ p.Knows .type label

/-- Whether a label is one character of any kind followed by decimal digits, at least one, whose
    value is an index. -/
def OccurrenceLabel.IsNumbered (label : Name) : Prop :=
  ∃ mark digits, label.toList = mark :: digits ∧ digits ≠ [] ∧
    (∀ d ∈ digits, d.isDigit = true) ∧ Nat.ofDigitChars 10 digits 0 < indexLimit

structure TaskReference.WellFormed (p : Problem) (scope : List Name) (t : TaskReference Name) :
    Prop where
  head : t.head.WellFormed p .task scope
  label : ∀ label ∈ t.label, OccurrenceLabel.IsNumbered label

/-- A formula that a constraint can refer to. The task itself need not be known. -/
inductive Formula.IsOccurrence : Formula Name → Prop
  | task {t label} (labeled : t.label = some label)
      (numbered : OccurrenceLabel.IsNumbered label) : IsOccurrence (.task t)
  | occurrence {timed label} (numbered : OccurrenceLabel.IsNumbered label) :
      IsOccurrence (.occurrence timed label)

/-- A formula is well formed in the scope and at the depth. -/
inductive WellFormed (p : Problem) (config : Config) : List Name → Nat → Formula Name → Prop
  | atom {scope depth a} (shallow : depth ≤ config.maxDepth)
      (head : Application.WellFormed p .predicate scope a) :
      WellFormed p config scope depth (.atom a)
  | function {scope depth a} (shallow : depth ≤ config.maxDepth)
      (head : Application.WellFormed p .function scope a) :
      WellFormed p config scope depth (.function a)
  | equality {scope depth ts} (shallow : depth ≤ config.maxDepth)
      (arguments : ∀ t ∈ ts, Term.WellFormed p scope t) :
      WellFormed p config scope depth (.equality ts)
  | and {scope depth fs} (shallow : depth ≤ config.maxDepth)
      (members : ∀ f ∈ fs, WellFormed p config scope (depth + 1) f) :
      WellFormed p config scope depth (.and fs)
  | or {scope depth fs} (shallow : depth ≤ config.maxDepth)
      (members : ∀ f ∈ fs, WellFormed p config scope (depth + 1) f) :
      WellFormed p config scope depth (.or fs)
  | not {scope depth f} (shallow : depth ≤ config.maxDepth)
      (body : WellFormed p config scope (depth + 1) f) :
      WellFormed p config scope depth (.not f)
  | imply {scope depth l r} (shallow : depth ≤ config.maxDepth)
      (left : WellFormed p config scope (depth + 1) l)
      (right : WellFormed p config scope (depth + 1) r) :
      WellFormed p config scope depth (.imply l r)
  | constant {scope depth value} (shallow : depth ≤ config.maxDepth) :
      WellFormed p config scope depth (.constant value)
  /-- All variables are in the scope of the body, which is as many levels deeper. -/
  | quantified {scope depth q vs f} (shallow : depth ≤ config.maxDepth) (declares : vs ≠ [])
      (typed : ∀ v ∈ vs, TypedVariable.WellFormed p v)
      (body : WellFormed p config (scope ++ vs.map (·.name)) (depth + vs.length) f) :
      WellFormed p config scope depth (.quantified q vs f)
  | compare {scope depth c l r} (shallow : depth ≤ config.maxDepth)
      (left : WellFormed p config scope (depth + 1) l)
      (right : WellFormed p config scope (depth + 1) r) :
      WellFormed p config scope depth (.compare c l r)
  | binary {scope depth o l r} (shallow : depth ≤ config.maxDepth)
      (left : WellFormed p config scope (depth + 1) l)
      (right : WellFormed p config scope (depth + 1) r) :
      WellFormed p config scope depth (.binary o l r)
  | unary {scope depth o f} (shallow : depth ≤ config.maxDepth)
      (operand : WellFormed p config scope (depth + 1) f) :
      WellFormed p config scope depth (.unary o f)
  | window {scope depth o a b c} (shallow : depth ≤ config.maxDepth)
      (first : WellFormed p config scope (depth + 1) a)
      (second : WellFormed p config scope (depth + 1) b)
      (third : WellFormed p config scope (depth + 1) c) :
      WellFormed p config scope depth (.window o a b c)
  | number {scope depth x} (shallow : depth ≤ config.maxDepth) :
      WellFormed p config scope depth (.number x)
  | elapsed {scope depth} (shallow : depth ≤ config.maxDepth) :
      WellFormed p config scope depth .elapsed
  | violated {scope depth} (shallow : depth ≤ config.maxDepth) :
      WellFormed p config scope depth .violated
  | task {scope depth t} (shallow : depth ≤ config.maxDepth)
      (reference : TaskReference.WellFormed p scope t) : WellFormed p config scope depth (.task t)
  | ordering {scope depth o l r} (shallow : depth ≤ config.maxDepth) (left : l.IsOccurrence)
      (right : r.IsOccurrence) : WellFormed p config scope depth (.ordering o l r)
  | hold {scope depth side t c} (shallow : depth ≤ config.maxDepth) (occurrence : t.IsOccurrence)
      (condition : WellFormed p config [] (depth + 1) c) :
      WellFormed p config scope depth (.hold side t c)
  | holdBetween {scope depth a b c} (shallow : depth ≤ config.maxDepth) (first : a.IsOccurrence)
      (second : b.IsOccurrence) (condition : WellFormed p config [] (depth + 1) c) :
      WellFormed p config scope depth (.holdBetween a b c)

/-! ## Binders -/

namespace Formula

variable {σ : Type}

mutual

/-- The greatest number of binders that a node has around it within its scope. The condition of a
    method constraint starts a scope of its own. -/
def binderDepth : Formula σ → Nat
  | and fs => binderDepthOf fs
  | or fs => binderDepthOf fs
  | not f => f.binderDepth
  | imply l r => max l.binderDepth r.binderDepth
  | quantified _ vs f => vs.length + f.binderDepth
  | compare _ l r => max l.binderDepth r.binderDepth
  | binary _ l r => max l.binderDepth r.binderDepth
  | unary _ f => f.binderDepth
  | window _ a b c => max a.binderDepth (max b.binderDepth c.binderDepth)
  | hold _ _ c => c.binderDepth
  | holdBetween _ _ c => c.binderDepth
  | _ => 0

def binderDepthOf : List (Formula σ) → Nat
  | [] => 0
  | f :: fs => max f.binderDepth (binderDepthOf fs)

end

theorem binderDepth_le_of_mem {f : Formula σ} {fs : List (Formula σ)} (h : f ∈ fs) :
    f.binderDepth ≤ binderDepthOf fs := by
  induction fs with
  | nil => exact absurd h (by simp)
  | cons g fs ih =>
    rw [binderDepthOf]
    rcases List.mem_cons.1 h with rfl | h
    · exact Nat.le_max_left ..
    · exact Nat.le_trans (ih h) (Nat.le_max_right ..)

end Formula

/-! ## Labels -/

/-- The labels with a number are the numbered ones. -/
theorem exists_resolveLabel_iff {label : Name} :
    (∃ i, resolveLabel label = .ok i) ↔ OccurrenceLabel.IsNumbered label := by
  simp only [resolveLabel_eq_ok_iff, OccurrenceLabel.number?_eq_some_iff]
  constructor
  · rintro ⟨_, _, ⟨mark, digits, hlabel, hne, hdigits, hlimit, -⟩, -⟩
    exact ⟨mark, digits, hlabel, hne, hdigits, hlimit⟩
  · rintro ⟨mark, digits, hlabel, hne, hdigits, hlimit⟩
    exact ⟨_, _, ⟨mark, digits, hlabel, hne, hdigits, hlimit, rfl⟩, rfl⟩

theorem exists_mapM_resolveLabel_iff {label : Option Name} :
    (∃ i, label.mapM resolveLabel = .ok i) ↔ ∀ l ∈ label, OccurrenceLabel.IsNumbered l := by
  cases label with
  | none => simp [pure, Except.pure]
  | some l =>
    simp only [Option.mapM_some, map_eq_pure_bind, bind_eq_ok_iff, pure_eq_ok_iff, Option.mem_def,
      Option.some.injEq, forall_eq', ← exists_resolveLabel_iff]
    constructor
    · rintro ⟨-, i, hi, -⟩
      exact ⟨i, hi⟩
    · rintro ⟨i, hi⟩
      exact ⟨some i, i, hi, rfl⟩

/-- What a constraint refers to is resolved from its label alone, in either kind of constraint. -/
theorem Formula.exists_resolveOccurrence_iff {keepTime : Bool} {constraint : String}
    {f : Formula Name} :
    (∃ t, f.resolveOccurrence keepTime constraint = .ok t) ↔ f.IsOccurrence := by
  constructor
  · rintro ⟨t, h⟩
    unfold Formula.resolveOccurrence at h
    split at h
    · split at h
      · exact absurd h (by simp)
      · next label hlabel =>
        obtain ⟨i, hi, -⟩ := bind_eq_ok_iff.1 h
        exact .task hlabel (exists_resolveLabel_iff.1 ⟨i, hi⟩)
    · obtain ⟨i, hi, -⟩ := bind_eq_ok_iff.1 h
      exact .occurrence (exists_resolveLabel_iff.1 ⟨i, hi⟩)
    · exact absurd h (by simp)
  · intro h
    cases h with
    | task labeled numbered =>
      obtain ⟨i, hi⟩ := exists_resolveLabel_iff.2 numbered
      rw [Formula.resolveOccurrence, labeled]
      exact ⟨_, bind_eq_ok_iff.2 ⟨i, hi, rfl⟩⟩
    | occurrence numbered =>
      obtain ⟨i, hi⟩ := exists_resolveLabel_iff.2 numbered
      exact ⟨_, bind_eq_ok_iff.2 ⟨i, hi, rfl⟩⟩

/-! ## What is accepted is well formed -/

section

variable {p : Problem} {config : Config} {scope : List Name} {depth : Nat}

theorem Problem.knows_of_resolveSymbol {kind : SymbolKind} {name : Name} {i : Index}
    (h : p.resolveSymbol kind name = .ok i) : p.Knows kind name := by
  obtain ⟨position, hposition, -, -⟩ := Problem.resolveSymbol_eq_ok_iff.1 h
  exact Table.mem_of_position? hposition

theorem Term.wellFormed_of_resolve {s : Term Name} {t : Term Index}
    (h : s.resolve p scope = .ok t) : s.WellFormed p scope := by
  cases s with
  | «variable» x =>
    obtain ⟨k, hk, -, -⟩ := Term.resolve_variable_eq_ok_iff.1 h
    obtain ⟨hlt, hx, -⟩ := List.idxOf?_eq_some_iff.1 hk
    exact hx ▸ List.getElem_mem hlt
  | constant c =>
    obtain ⟨i, hi, -⟩ := Term.resolve_constant_eq_ok_iff.1 h
    exact Problem.knows_of_resolveSymbol hi

theorem Term.forall_wellFormed_of_resolve {ss : List (Term Name)} {ts : List (Term Index)}
    (h : List.Forall₂ (fun s t => s.resolve p scope = .ok t) ss ts) :
    ∀ s ∈ ss, s.WellFormed p scope := by
  intro s hs
  obtain ⟨t, ht⟩ := exists_forall₂_iff.1 ⟨ts, h⟩ s hs
  exact Term.wellFormed_of_resolve ht

theorem Application.wellFormed_of_resolve {kind : SymbolKind} {a : Application Name}
    {b : Application Index} (h : a.resolve p kind scope = .ok b) : a.WellFormed p kind scope := by
  obtain ⟨hsymbol, harguments⟩ := Application.resolve_eq_ok_iff.1 h
  exact ⟨Problem.knows_of_resolveSymbol hsymbol, Term.forall_wellFormed_of_resolve harguments⟩

theorem TaskReference.wellFormed_of_resolve {t : TaskReference Name} {u : TaskReference Index}
    (h : t.resolve p scope = .ok u) : t.WellFormed p scope := by
  simp only [TaskReference.resolve, bind_eq_ok_iff, pure_eq_ok_iff] at h
  obtain ⟨head, hhead, label, hlabel, -⟩ := h
  exact ⟨Application.wellFormed_of_resolve hhead, exists_mapM_resolveLabel_iff.1 ⟨label, hlabel⟩⟩

/-- A quantifier over more variables is well formed if it is over the later ones, in the scope of
    the first. -/
theorem wellFormed_quantified_cons {q : Quantifier} {v w : TypedVariable Name}
    {vs : List (TypedVariable Name)} {f : Formula Name} (hdepth : depth ≤ config.maxDepth)
    (hv : v.WellFormed p)
    (h : WellFormed p config (scope ++ [v.name]) (depth + 1) (.quantified q (w :: vs) f)) :
    WellFormed p config scope depth (.quantified q (v :: w :: vs) f) := by
  cases h with
  | quantified shallow declares typed body =>
    refine .quantified hdepth (by simp) (List.forall_mem_cons.2 ⟨hv, typed⟩) ?_
    have hscope : scope ++ (v :: w :: vs).map (·.name) =
        scope ++ [v.name] ++ (w :: vs).map (·.name) := by simp
    have hlevels : depth + (v :: w :: vs).length = depth + 1 + (w :: vs).length := by
      simp only [List.length_cons]
      omega
    rw [hscope, hlevels]
    exact body

/-- One case for each rule. -/
theorem wellFormed_of_resolvesTo {f : Formula Name} {t : Formula Index}
    (h : ResolvesTo p config scope depth f t) : WellFormed p config scope depth f := by
  induction h with
  | atom shallow resolved => exact .atom shallow (Application.wellFormed_of_resolve resolved)
  | function shallow resolved =>
    exact .function shallow (Application.wellFormed_of_resolve resolved)
  | equality shallow resolved =>
    exact .equality shallow (Term.forall_wellFormed_of_resolve (mapM_eq_ok_iff.1 resolved))
  | and shallow length members ih =>
    refine .and shallow ?_
    intro f hf
    obtain ⟨t, hf⟩ := exists_forall₂_iff.1 ⟨_, List.forall₂_iff_zip.2 ⟨length, ih⟩⟩ f hf
    exact hf
  | or shallow length members ih =>
    refine .or shallow ?_
    intro f hf
    obtain ⟨t, hf⟩ := exists_forall₂_iff.1 ⟨_, List.forall₂_iff_zip.2 ⟨length, ih⟩⟩ f hf
    exact hf
  | not shallow body ih => exact .not shallow ih
  | imply shallow left right ihl ihr => exact .imply shallow ihl ihr
  | constant shallow => exact .constant shallow
  | bindLast shallow typed known bound body ih =>
    refine .quantified shallow (by simp) ?_ ih
    intro v hv
    obtain rfl := List.mem_singleton.1 hv
    exact ⟨_, typed, Problem.knows_of_resolveSymbol known⟩
  | bindFirst shallow typed known bound rest ih =>
    exact wellFormed_quantified_cons shallow ⟨_, typed, Problem.knows_of_resolveSymbol known⟩ ih
  | compare shallow left right ihl ihr => exact .compare shallow ihl ihr
  | binary shallow left right ihl ihr => exact .binary shallow ihl ihr
  | unary shallow operand ih => exact .unary shallow ih
  | window shallow first second third iha ihb ihc => exact .window shallow iha ihb ihc
  | number shallow => exact .number shallow
  | elapsed shallow => exact .elapsed shallow
  | violated shallow => exact .violated shallow
  | task shallow resolved => exact .task shallow (TaskReference.wellFormed_of_resolve resolved)
  | ordering shallow left right =>
    exact .ordering shallow (Formula.exists_resolveOccurrence_iff.1 ⟨_, left⟩)
      (Formula.exists_resolveOccurrence_iff.1 ⟨_, right⟩)
  | hold shallow occurrence condition ih =>
    exact .hold shallow (Formula.exists_resolveOccurrence_iff.1 ⟨_, occurrence⟩) ih
  | holdBetween shallow first second condition ih =>
    exact .holdBetween shallow (Formula.exists_resolveOccurrence_iff.1 ⟨_, first⟩)
      (Formula.exists_resolveOccurrence_iff.1 ⟨_, second⟩) ih

/-! ## What is well formed is accepted -/

/-- Whether every position of a symbol is an index. -/
def Problem.FitsIndices (p : Problem) : Prop := ∀ kind, (p.symbols kind).size ≤ indexLimit

theorem Problem.exists_resolveSymbol {kind : SymbolKind} {name : Name} (hp : p.FitsIndices)
    (h : p.Knows kind name) : ∃ i, p.resolveSymbol kind name = .ok i := by
  cases hposition : p.position? kind name with
  | none => exact absurd h (Table.position?_eq_none_iff.1 hposition)
  | some i =>
    have hlt : i < indexLimit := Nat.lt_of_lt_of_le (Table.lt_size_of_position? hposition) (hp kind)
    exact ⟨_, Problem.resolveSymbol_eq_ok_iff.2 ⟨i, hposition, hlt, rfl⟩⟩

theorem Term.exists_resolve {t : Term Name} (hp : p.FitsIndices)
    (hscope : scope.length < indexLimit) (h : t.WellFormed p scope) :
    ∃ u, t.resolve p scope = .ok u := by
  cases t with
  | «variable» x =>
    cases hk : scope.idxOf? x with
    | none =>
      have hfree : x ∉ scope := by simpa using hk
      exact absurd h hfree
    | some k =>
      have hlt : k < scope.length := (List.idxOf?_eq_some_iff.1 hk).1
      have hroom : k + 1 < indexLimit := Nat.lt_of_le_of_lt hlt hscope
      exact ⟨_, Term.resolve_variable_eq_ok_iff.2 ⟨k, hk, hroom, rfl⟩⟩
  | constant c =>
    obtain ⟨i, hi⟩ := Problem.exists_resolveSymbol hp h
    exact ⟨_, Term.resolve_constant_eq_ok_iff.2 ⟨i, hi, rfl⟩⟩

theorem Term.exists_mapM_resolve {ts : List (Term Name)} (hp : p.FitsIndices)
    (hscope : scope.length < indexLimit) (h : ∀ t ∈ ts, t.WellFormed p scope) :
    ∃ us, ts.mapM (Term.resolve p scope) = .ok us := by
  obtain ⟨us, hus⟩ := exists_forall₂_iff.2 fun t ht => Term.exists_resolve hp hscope (h t ht)
  exact ⟨us, mapM_eq_ok_iff.2 hus⟩

theorem Application.exists_resolve {kind : SymbolKind} {a : Application Name}
    (hp : p.FitsIndices) (hscope : scope.length < indexLimit) (h : a.WellFormed p kind scope) :
    ∃ b, a.resolve p kind scope = .ok b := by
  obtain ⟨symbol, hsymbol⟩ := Problem.exists_resolveSymbol hp h.symbol
  obtain ⟨arguments, harguments⟩ := Term.exists_mapM_resolve hp hscope h.arguments
  exact ⟨⟨symbol, arguments⟩,
    Application.resolve_eq_ok_iff.2 ⟨hsymbol, mapM_eq_ok_iff.1 harguments⟩⟩

theorem TaskReference.exists_resolve {t : TaskReference Name} (hp : p.FitsIndices)
    (hscope : scope.length < indexLimit) (h : t.WellFormed p scope) :
    ∃ u, t.resolve p scope = .ok u := by
  obtain ⟨head, hhead⟩ := Application.exists_resolve hp hscope h.head
  obtain ⟨label, hlabel⟩ := exists_mapM_resolveLabel_iff.2 h.label
  exact ⟨_, bind_eq_ok_iff.2 ⟨head, hhead, bind_eq_ok_iff.2 ⟨label, hlabel, rfl⟩⟩⟩

/-- A quantifier resolves if its body does below all of the variables. The induction is on the
    variables, each of which is bound around the quantifier over the rest. -/
theorem exists_resolvesTo_quantified {q : Quantifier} {vs : List (TypedVariable Name)}
    {f : Formula Name} {t : Formula Index} (hp : p.FitsIndices) (hvs : vs ≠ [])
    (htyped : ∀ v ∈ vs, v.WellFormed p) (hbinders : scope.length + vs.length < indexLimit)
    (hbody : ResolvesTo p config (scope ++ vs.map (·.name)) (depth + vs.length) f t)
    (hdepth : depth + vs.length ≤ config.maxDepth) :
    ∃ u, ResolvesTo p config scope depth (.quantified q vs f) u := by
  induction vs generalizing scope depth with
  | nil => exact absurd rfl hvs
  | cons v vs ih =>
    rw [List.length_cons] at hbinders hdepth
    obtain ⟨⟨label, hlabel, hknown⟩, htyped⟩ := List.forall_mem_cons.1 htyped
    obtain ⟨type, htype⟩ := Problem.exists_resolveSymbol hp hknown
    have hname : binderIndex (scope.length + 1) = .ok (-((scope.length + 1 : Nat) : Int)) :=
      binderIndex_eq_ok_iff.2 ⟨by omega, rfl⟩
    have hshallow : depth ≤ config.maxDepth := by omega
    cases vs with
    | nil => exact ⟨_, .bindLast hshallow hlabel htype hname hbody⟩
    | cons w vs =>
      have hinner : (scope ++ [v.name]).length + (w :: vs).length < indexLimit := by
        rw [List.length_append, List.length_singleton]
        omega
      have hlevels : depth + (v :: w :: vs).length = depth + 1 + (w :: vs).length := by
        simp only [List.length_cons]
        omega
      rw [List.map_cons, List.append_cons, hlevels] at hbody
      obtain ⟨u, hu⟩ := ih (by simp) htyped hinner hbody (by omega)
      exact ⟨_, .bindFirst hshallow hlabel htype hname hu⟩

theorem WellFormed.shallow {f : Formula Name} (h : WellFormed p config scope depth f) :
    depth ≤ config.maxDepth := by
  cases h <;> assumption

/-- The members of a connective resolve together. -/
theorem exists_resolvesTo_zip {fs : List (Formula Name)}
    (h : ∀ f ∈ fs, ∃ t, ResolvesTo p config scope depth f t) :
    ∃ ts, fs.length = ts.length ∧
      ∀ {f t}, (f, t) ∈ fs.zip ts → ResolvesTo p config scope depth f t := by
  obtain ⟨ts, hts⟩ := exists_forall₂_iff.2 h
  exact ⟨ts, List.forall₂_iff_zip.1 hts⟩

theorem exists_resolvesTo_of_wellFormed {f : Formula Name} (hp : p.FitsIndices)
    (h : WellFormed p config scope depth f) (hbinders : scope.length + f.binderDepth < indexLimit) :
    ∃ t, ResolvesTo p config scope depth f t := by
  induction h with
  | atom shallow head =>
    obtain ⟨b, hb⟩ := Application.exists_resolve hp (by omega) head
    exact ⟨_, .atom shallow hb⟩
  | function shallow head =>
    obtain ⟨b, hb⟩ := Application.exists_resolve hp (by omega) head
    exact ⟨_, .function shallow hb⟩
  | equality shallow arguments =>
    obtain ⟨us, hus⟩ := Term.exists_mapM_resolve hp (by omega) arguments
    exact ⟨_, .equality shallow hus⟩
  | and shallow members ih =>
    rw [Formula.binderDepth] at hbinders
    obtain ⟨ts, length, hts⟩ := exists_resolvesTo_zip fun f hf => ih f hf
      (Nat.lt_of_le_of_lt (Nat.add_le_add_left (Formula.binderDepth_le_of_mem hf) _) hbinders)
    exact ⟨_, .and shallow length hts⟩
  | or shallow members ih =>
    rw [Formula.binderDepth] at hbinders
    obtain ⟨ts, length, hts⟩ := exists_resolvesTo_zip fun f hf => ih f hf
      (Nat.lt_of_le_of_lt (Nat.add_le_add_left (Formula.binderDepth_le_of_mem hf) _) hbinders)
    exact ⟨_, .or shallow length hts⟩
  | not shallow body ih =>
    obtain ⟨t, ht⟩ := ih hbinders
    exact ⟨_, .not shallow ht⟩
  | imply shallow left right ihl ihr =>
    rw [Formula.binderDepth] at hbinders
    obtain ⟨l, hl⟩ := ihl (by omega)
    obtain ⟨r, hr⟩ := ihr (by omega)
    exact ⟨_, .imply shallow hl hr⟩
  | constant shallow => exact ⟨_, .constant shallow⟩
  | @quantified scope depth q vs f shallow declares typed body ih =>
    rw [Formula.binderDepth] at hbinders
    have hlength : (scope ++ vs.map (·.name)).length = scope.length + vs.length := by simp
    obtain ⟨t, ht⟩ := ih (by omega)
    exact exists_resolvesTo_quantified hp declares typed (by omega) ht body.shallow
  | compare shallow left right ihl ihr =>
    rw [Formula.binderDepth] at hbinders
    obtain ⟨l, hl⟩ := ihl (by omega)
    obtain ⟨r, hr⟩ := ihr (by omega)
    exact ⟨_, .compare shallow hl hr⟩
  | binary shallow left right ihl ihr =>
    rw [Formula.binderDepth] at hbinders
    obtain ⟨l, hl⟩ := ihl (by omega)
    obtain ⟨r, hr⟩ := ihr (by omega)
    exact ⟨_, .binary shallow hl hr⟩
  | unary shallow operand ih =>
    obtain ⟨t, ht⟩ := ih hbinders
    exact ⟨_, .unary shallow ht⟩
  | window shallow first second third iha ihb ihc =>
    rw [Formula.binderDepth] at hbinders
    obtain ⟨a, ha⟩ := iha (by omega)
    obtain ⟨b, hb⟩ := ihb (by omega)
    obtain ⟨c, hc⟩ := ihc (by omega)
    exact ⟨_, .window shallow ha hb hc⟩
  | number shallow => exact ⟨_, .number shallow⟩
  | elapsed shallow => exact ⟨_, .elapsed shallow⟩
  | violated shallow => exact ⟨_, .violated shallow⟩
  | task shallow reference =>
    obtain ⟨u, hu⟩ := TaskReference.exists_resolve hp (by omega) reference
    exact ⟨_, .task shallow hu⟩
  | ordering shallow left right =>
    obtain ⟨l, hl⟩ := Formula.exists_resolveOccurrence_iff.2 left
    obtain ⟨r, hr⟩ := Formula.exists_resolveOccurrence_iff.2 right
    exact ⟨_, .ordering shallow hl hr⟩
  | hold shallow occurrence condition ih =>
    -- The condition has fewer binders around it than the constraint.
    rw [Formula.binderDepth] at hbinders
    obtain ⟨t, ht⟩ := Formula.exists_resolveOccurrence_iff.2 occurrence
    obtain ⟨c, hc⟩ := ih (by rw [List.length_nil]; omega)
    exact ⟨_, .hold shallow ht hc⟩
  | holdBetween shallow first second condition ih =>
    rw [Formula.binderDepth] at hbinders
    obtain ⟨a, ha⟩ := Formula.exists_resolveOccurrence_iff.2 first
    obtain ⟨b, hb⟩ := Formula.exists_resolveOccurrence_iff.2 second
    obtain ⟨c, hc⟩ := ih (by rw [List.length_nil]; omega)
    exact ⟨_, .holdBetween shallow ha hb hc⟩

namespace Formula

/-- **Resolution accepts exactly the well-formed formulas.** -/
theorem exists_resolve_iff_wellFormed {f : Formula Name}
    (htables : ∀ kind, (p.symbols kind).size ≤ indexLimit)
    (hbinders : scope.length + f.binderDepth < indexLimit) :
    (∃ t, f.resolve p config scope = .ok t) ↔ WellFormed p config scope 0 f := by
  constructor
  · rintro ⟨t, h⟩
    exact wellFormed_of_resolvesTo (resolveAt_eq_ok_iff.1 h)
  · intro h
    obtain ⟨t, ht⟩ := exists_resolvesTo_of_wellFormed htables h hbinders
    exact ⟨t, resolveAt_eq_ok_iff.2 ht⟩

/-- Two variables are two levels, so the deepest atom is at depth 5. The tasks of the constraints
    are not known, but they have labels. -/
theorem exists_resolve_iff_wellFormed_depth :
    let p : Problem := {
      constants := ⟨["depot"], by decide⟩, types := ⟨["truck", "either~city~port"], by decide⟩,
      predicates := ⟨["at"], by decide⟩ }
    let refuel : TaskReference Name :=
      { head := ⟨"refuel", [.variable "y"]⟩, label := some "t007", time := some .start }
    let f : Formula Name :=
      quantified .universal [⟨"t", ["truck"]⟩, ⟨"c", ["city", "port"]⟩] (and [
        ordering .before (task refuel) (occurrence false "#12"),
        hold .after (occurrence true "t1") (quantified .existential [⟨"s", ["truck"]⟩]
          (atom ⟨"at", [.variable "s", .constant "depot"]⟩)),
        not (atom ⟨"at", [.variable "t", .variable "x"]⟩)])
    let upTo (n : Nat) : Config := { maxDepth := n }
    (∃ t, f.resolve p (upTo 5) ["x"] = .ok t) ∧ WellFormed p (upTo 5) ["x"] 0 f ∧
      f.resolve p (upTo 4) ["x"] = .error (.tooDeep 4) ∧ ¬ WellFormed p (upTo 4) ["x"] 0 f := by
  intro p refuel f upTo
  have htables : ∀ kind, (p.symbols kind).size ≤ indexLimit := by
    intro kind
    cases kind <;> decide
  have hbinders : ["x"].length + f.binderDepth < indexLimit := by decide
  have haccepted : ∃ t, f.resolve p (upTo 5) ["x"] = .ok t := ⟨_, rfl⟩
  have hrefused : f.resolve p (upTo 4) ["x"] = .error (.tooDeep 4) := rfl
  refine ⟨haccepted, (exists_resolve_iff_wellFormed htables hbinders).1 haccepted, hrefused, ?_⟩
  intro h
  obtain ⟨t, ht⟩ := (exists_resolve_iff_wellFormed htables hbinders).2 h
  exact absurd (hrefused.symm.trans ht) (by simp)

end Formula

end

end GoalCompiler
