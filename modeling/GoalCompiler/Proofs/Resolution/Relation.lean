import GoalCompiler.Formula.Induction
import GoalCompiler.Proofs.Success
import GoalCompiler.Resolution.Basic

set_option autoImplicit false

/-! # Resolution as a relation

`ResolvesTo p config scope depth f t` says that `t` is the resolved form of `f` in a scope and at a
depth, one rule for each connective. `Formula.resolveAt` succeeds exactly with the formulas of this
relation (`Formula.resolveAt_eq_ok_iff`), so what holds of all resolved forms is proved by induction
on the rules, without the monad.

A quantifier has two rules. The last declared variable binds the body; an earlier one binds the
quantifier over the variables after it. -/

namespace GoalCompiler

/-- The formula `f` resolves to `t` in the scope and at the depth. -/
inductive ResolvesTo (p : Problem) (config : Config) :
    List Name → Nat → Formula Name → Formula Index → Prop
  | atom {scope depth head head'} (shallow : depth ≤ config.maxDepth)
      (resolved : head.resolve p .predicate scope = .ok head') :
      ResolvesTo p config scope depth (.atom head) (.atom head')
  | function {scope depth head head'} (shallow : depth ≤ config.maxDepth)
      (resolved : head.resolve p .function scope = .ok head') :
      ResolvesTo p config scope depth (.function head) (.function head')
  | equality {scope depth ts ts'} (shallow : depth ≤ config.maxDepth)
      (resolved : ts.mapM (Term.resolve p scope) = .ok ts') :
      ResolvesTo p config scope depth (.equality ts) (.equality ts')
  | and {scope depth fs ts} (shallow : depth ≤ config.maxDepth) (length : fs.length = ts.length)
      (members : ∀ {f t}, (f, t) ∈ fs.zip ts → ResolvesTo p config scope (depth + 1) f t) :
      ResolvesTo p config scope depth (.and fs) (.and ts)
  | or {scope depth fs ts} (shallow : depth ≤ config.maxDepth) (length : fs.length = ts.length)
      (members : ∀ {f t}, (f, t) ∈ fs.zip ts → ResolvesTo p config scope (depth + 1) f t) :
      ResolvesTo p config scope depth (.or fs) (.or ts)
  | not {scope depth f t} (shallow : depth ≤ config.maxDepth)
      (body : ResolvesTo p config scope (depth + 1) f t) :
      ResolvesTo p config scope depth (.not f) (.not t)
  | imply {scope depth l r l' r'} (shallow : depth ≤ config.maxDepth)
      (left : ResolvesTo p config scope (depth + 1) l l')
      (right : ResolvesTo p config scope (depth + 1) r r') :
      ResolvesTo p config scope depth (.imply l r) (.imply l' r')
  | constant {scope depth value} (shallow : depth ≤ config.maxDepth) :
      ResolvesTo p config scope depth (.constant value) (.constant value)
  | bindLast {scope depth q v f t label type name} (shallow : depth ≤ config.maxDepth)
      (typed : typeLabel? v.types = some label) (known : p.resolveSymbol .type label = .ok type)
      (bound : binderIndex (scope.length + 1) = .ok name)
      (body : ResolvesTo p config (scope ++ [v.name]) (depth + 1) f t) :
      ResolvesTo p config scope depth (.quantified q [v] f) (.quantified q [⟨name, [type]⟩] t)
  | bindFirst {scope depth q v w vs f t label type name} (shallow : depth ≤ config.maxDepth)
      (typed : typeLabel? v.types = some label) (known : p.resolveSymbol .type label = .ok type)
      (bound : binderIndex (scope.length + 1) = .ok name)
      (rest : ResolvesTo p config (scope ++ [v.name]) (depth + 1) (.quantified q (w :: vs) f) t) :
      ResolvesTo p config scope depth (.quantified q (v :: w :: vs) f)
        (.quantified q [⟨name, [type]⟩] t)
  | compare {scope depth c l r l' r'} (shallow : depth ≤ config.maxDepth)
      (left : ResolvesTo p config scope (depth + 1) l l')
      (right : ResolvesTo p config scope (depth + 1) r r') :
      ResolvesTo p config scope depth (.compare c l r) (.compare c l' r')
  | binary {scope depth o l r l' r'} (shallow : depth ≤ config.maxDepth)
      (left : ResolvesTo p config scope (depth + 1) l l')
      (right : ResolvesTo p config scope (depth + 1) r r') :
      ResolvesTo p config scope depth (.binary o l r) (.binary o l' r')
  | unary {scope depth o f t} (shallow : depth ≤ config.maxDepth)
      (operand : ResolvesTo p config scope (depth + 1) f t) :
      ResolvesTo p config scope depth (.unary o f) (.unary o t)
  | window {scope depth o a b c a' b' c'} (shallow : depth ≤ config.maxDepth)
      (first : ResolvesTo p config scope (depth + 1) a a')
      (second : ResolvesTo p config scope (depth + 1) b b')
      (third : ResolvesTo p config scope (depth + 1) c c') :
      ResolvesTo p config scope depth (.window o a b c) (.window o a' b' c')
  | number {scope depth x} (shallow : depth ≤ config.maxDepth) :
      ResolvesTo p config scope depth (.number x) (.number x)
  | elapsed {scope depth} (shallow : depth ≤ config.maxDepth) :
      ResolvesTo p config scope depth .elapsed .elapsed
  | violated {scope depth} (shallow : depth ≤ config.maxDepth) :
      ResolvesTo p config scope depth .violated .violated
  | task {scope depth t t'} (shallow : depth ≤ config.maxDepth)
      (resolved : t.resolve p scope = .ok t') :
      ResolvesTo p config scope depth (.task t) (.task t')
  | ordering {scope depth o l r l' r'} (shallow : depth ≤ config.maxDepth)
      (left : l.resolveOccurrence true (Formula.ordering o l r).keyword = .ok l')
      (right : r.resolveOccurrence true (Formula.ordering o l r).keyword = .ok r') :
      ResolvesTo p config scope depth (.ordering o l r) (.ordering o l' r')
  | hold {scope depth side t c t' c'} (shallow : depth ≤ config.maxDepth)
      (occurrence : t.resolveOccurrence false (Formula.hold side t c).keyword = .ok t')
      (condition : ResolvesTo p config [] (depth + 1) c c') :
      ResolvesTo p config scope depth (.hold side t c) (.hold side t' c')
  | holdBetween {scope depth a b c a' b' c'} (shallow : depth ≤ config.maxDepth)
      (first : a.resolveOccurrence false (Formula.holdBetween a b c).keyword = .ok a')
      (second : b.resolveOccurrence false (Formula.holdBetween a b c).keyword = .ok b')
      (condition : ResolvesTo p config [] (depth + 1) c c') :
      ResolvesTo p config scope depth (.holdBetween a b c) (.holdBetween a' b' c')

/-! ## Symbols and binders -/

theorem indexOf_eq_ok_iff {space : IndexSpace} {position : Nat} {i : Index} :
    indexOf space position = .ok i ↔ position < indexLimit ∧ i = position := by
  unfold indexOf
  split
  · next h => simp [h, eq_comm]
  · next h => simp [h]

theorem Problem.resolveSymbol_eq_ok_iff {p : Problem} {kind : SymbolKind} {name : Name}
    {i : Index} :
    p.resolveSymbol kind name = .ok i ↔
      ∃ position, p.position? kind name = some position ∧ position < indexLimit ∧ i = position := by
  unfold Problem.resolveSymbol
  cases h : p.position? kind name with
  | none => simp
  | some position => simp [mapError_eq_ok_iff, indexOf_eq_ok_iff]

theorem binderIndex_eq_ok_iff {k : Nat} {i : Index} :
    binderIndex k = .ok i ↔ k < indexLimit ∧ i = -k := by
  simp only [binderIndex, bind_eq_ok_iff, pure_eq_ok_iff, mapError_eq_ok_iff, indexOf_eq_ok_iff]
  constructor
  · rintro ⟨_, ⟨hk, rfl⟩, rfl⟩
    exact ⟨hk, rfl⟩
  · rintro ⟨hk, rfl⟩
    exact ⟨k, ⟨hk, rfl⟩, rfl⟩

/-- A variable resolves to the number of the first binder of its name. -/
theorem Term.resolve_variable_eq_ok_iff {p : Problem} {scope : List Name} {name : Name}
    {t : Term Index} :
    (Term.variable name).resolve p scope = .ok t ↔
      ∃ k, scope.idxOf? name = some k ∧ k + 1 < indexLimit ∧ .variable (-(k + 1 : Nat)) = t := by
  rw [Term.resolve]
  cases hk : scope.idxOf? name with
  | none => simp
  | some k =>
    simp only [bind_eq_ok_iff, pure_eq_ok_iff, binderIndex_eq_ok_iff, Option.some.injEq, and_assoc,
      exists_eq_left', exists_and_left, exists_eq_left]

theorem Term.resolve_constant_eq_ok_iff {p : Problem} {scope : List Name} {name : Name}
    {t : Term Index} :
    (Term.constant name).resolve p scope = .ok t ↔
      ∃ i, p.resolveSymbol .constant name = .ok i ∧ .constant i = t := by
  rw [Term.resolve, bind_eq_ok_iff]
  simp only [pure_eq_ok_iff]

theorem Application.resolve_eq_ok_iff {p : Problem} {kind : SymbolKind} {scope : List Name}
    {a : Application Name} {b : Application Index} :
    a.resolve p kind scope = .ok b ↔
      p.resolveSymbol kind a.symbol = .ok b.symbol ∧
        List.Forall₂ (fun s t => s.resolve p scope = .ok t) a.arguments b.arguments := by
  simp only [Application.resolve, bind_eq_ok_iff, pure_eq_ok_iff, mapM_eq_ok_iff]
  constructor
  · rintro ⟨symbol, hsymbol, arguments, harguments, rfl⟩
    exact ⟨hsymbol, harguments⟩
  · rintro ⟨hsymbol, harguments⟩
    exact ⟨b.symbol, hsymbol, b.arguments, harguments, rfl⟩

theorem resolveLabel_eq_ok_iff {label : Name} {i : Index} :
    resolveLabel label = .ok i ↔ ∃ n : Nat, OccurrenceLabel.number? label = some n ∧ i = n := by
  unfold resolveLabel
  cases OccurrenceLabel.number? label with
  | none => simp
  | some n => simp [eq_comm]

namespace Formula

variable {p : Problem} {config : Config} {scope : List Name} {depth : Nat}

/-! ## Steps of resolution -/

theorem shallow_of_resolveAt_eq_ok {f : Formula Name} {t : Formula Index}
    (h : f.resolveAt p config scope depth = .ok t) : depth ≤ config.maxDepth := by
  unfold resolveAt at h
  split at h
  · exact absurd h (by simp)
  · next hdepth => exact Nat.le_of_not_lt hdepth

theorem resolveEach_eq_ok_iff {fs : List (Formula Name)} {ts : List (Formula Index)} :
    resolveEach p config scope depth fs = .ok ts ↔
      fs.length = ts.length ∧
        ∀ {f t}, (f, t) ∈ fs.zip ts → f.resolveAt p config scope depth = .ok t := by
  rw [← List.forall₂_iff_zip, ← mapM_eq_ok_iff]
  induction fs generalizing ts with
  | nil => rfl
  | cons f fs ih => simp only [resolveEach, List.mapM_cons, bind_eq_ok_iff, pure_eq_ok_iff, ih]

theorem resolveAt_quantified {q : Quantifier} {vs : List (TypedVariable Name)} {f : Formula Name} :
    (quantified q vs f).resolveAt p config scope depth
      = resolveBinders p config q (fun scope depth => f.resolveAt p config scope depth) vs scope
          depth := by
  rw [resolveAt]
  split
  · next hdepth =>
    unfold resolveBinders
    rw [if_pos hdepth]
  · rfl

/-- A quantifier binds its first variable: around what `body` gives if it is the last one, else
    around the binders of the rest. -/
theorem resolveBinders_cons_eq_ok_iff {q : Quantifier}
    {body : List Name → Nat → Except ResolutionError (Formula Index)} {v : TypedVariable Name}
    {vs : List (TypedVariable Name)} {t : Formula Index} :
    resolveBinders p config q body (v :: vs) scope depth = .ok t ↔
      depth ≤ config.maxDepth ∧ ∃ label type name below,
        typeLabel? v.types = some label ∧ p.resolveSymbol .type label = .ok type ∧
        binderIndex (scope.length + 1) = .ok name ∧
        (if vs.isEmpty then body (scope ++ [v.name]) (depth + 1)
          else resolveBinders p config q body vs (scope ++ [v.name]) (depth + 1)) = .ok below ∧
        quantified q [⟨name, [type]⟩] below = t := by
  conv => lhs; unfold resolveBinders
  by_cases hdepth : config.maxDepth < depth
  · simp [hdepth, Nat.not_le_of_lt hdepth]
  · rw [if_neg hdepth]
    cases hlabel : typeLabel? v.types with
    | none => simp [hlabel]
    | some label =>
      simp only [hlabel, ite_bind_eq_bind, bind_eq_ok_iff, pure_eq_ok_iff, Nat.le_of_not_lt hdepth,
        true_and, Option.some.injEq]
      constructor
      · rintro ⟨type, htype, name, hname, below, hbelow, rfl⟩
        exact ⟨label, type, name, below, rfl, htype, hname, hbelow, rfl⟩
      · rintro ⟨_, type, name, below, rfl, htype, hname, hbelow, rfl⟩
        exact ⟨type, htype, name, hname, below, hbelow, rfl⟩

/-! ## The relation and the function -/

theorem resolvesTo_of_resolveBinders {q : Quantifier} {vs : List (TypedVariable Name)}
    {f : Formula Name} {t : Formula Index}
    (ih : ∀ scope depth t, f.resolveAt p config scope depth = .ok t →
      ResolvesTo p config scope depth f t)
    (h : resolveBinders p config q (fun scope depth => f.resolveAt p config scope depth) vs scope
      depth = .ok t) : ResolvesTo p config scope depth (quantified q vs f) t := by
  induction vs generalizing scope depth t with
  | nil =>
    unfold resolveBinders at h
    split at h <;> exact absurd h (by simp)
  | cons v vs ihs =>
    obtain ⟨hdepth, label, type, name, below, hlabel, htype, hname, hbelow, rfl⟩ :=
      resolveBinders_cons_eq_ok_iff.1 h
    cases vs with
    | nil => exact .bindLast hdepth hlabel htype hname (ih _ _ _ hbelow)
    | cons w vs => exact .bindFirst hdepth hlabel htype hname (ihs hbelow)

theorem resolvesTo_of_resolveAt {f : Formula Name} {t : Formula Index}
    (h : f.resolveAt p config scope depth = .ok t) : ResolvesTo p config scope depth f t := by
  induction f using induction_children generalizing scope depth t with
  | step f ih =>
    have hdepth := shallow_of_resolveAt_eq_ok h
    cases f
    case quantified q vs f =>
      rw [resolveAt_quantified] at h
      exact resolvesTo_of_resolveBinders (fun _ _ _ => ih f (by simp [children])) h
    -- The depth was checked, so each step has succeeded; an occurrence would have been refused.
    all_goals
      rw [resolveAt, if_neg (Nat.not_lt_of_le hdepth)] at h
      simp only [bind_eq_ok_iff, pure_eq_ok_iff, reduceCtorEq] at h
    case atom head =>
      obtain ⟨head', hhead, rfl⟩ := h
      exact .atom hdepth hhead
    case function head =>
      obtain ⟨head', hhead, rfl⟩ := h
      exact .function hdepth hhead
    case equality ts =>
      obtain ⟨ts', hts, rfl⟩ := h
      exact .equality hdepth hts
    case and fs =>
      obtain ⟨ts, hts, rfl⟩ := h
      obtain ⟨hlength, hmem⟩ := resolveEach_eq_ok_iff.1 hts
      exact .and hdepth hlength fun hft => ih _ (List.of_mem_zip hft).1 (hmem hft)
    case or fs =>
      obtain ⟨ts, hts, rfl⟩ := h
      obtain ⟨hlength, hmem⟩ := resolveEach_eq_ok_iff.1 hts
      exact .or hdepth hlength fun hft => ih _ (List.of_mem_zip hft).1 (hmem hft)
    case not f =>
      obtain ⟨t, ht, rfl⟩ := h
      exact .not hdepth (ih f (by simp [children]) ht)
    case imply l r =>
      obtain ⟨l', hl, r', hr, rfl⟩ := h
      exact .imply hdepth (ih l (by simp [children]) hl) (ih r (by simp [children]) hr)
    case constant b =>
      subst h
      exact .constant hdepth
    case compare c l r =>
      obtain ⟨l', hl, r', hr, rfl⟩ := h
      exact .compare hdepth (ih l (by simp [children]) hl) (ih r (by simp [children]) hr)
    case binary o l r =>
      obtain ⟨l', hl, r', hr, rfl⟩ := h
      exact .binary hdepth (ih l (by simp [children]) hl) (ih r (by simp [children]) hr)
    case unary o f =>
      obtain ⟨t, ht, rfl⟩ := h
      exact .unary hdepth (ih f (by simp [children]) ht)
    case window o a b c =>
      obtain ⟨a', ha, b', hb, c', hc, rfl⟩ := h
      exact .window hdepth (ih a (by simp [children]) ha) (ih b (by simp [children]) hb)
        (ih c (by simp [children]) hc)
    case number x =>
      subst h
      exact .number hdepth
    case elapsed =>
      subst h
      exact .elapsed hdepth
    case violated =>
      subst h
      exact .violated hdepth
    case task t =>
      obtain ⟨t', ht, rfl⟩ := h
      exact .task hdepth ht
    case ordering o l r =>
      obtain ⟨l', hl, r', hr, rfl⟩ := h
      exact .ordering hdepth hl hr
    case hold side t c =>
      obtain ⟨t', ht, c', hc, rfl⟩ := h
      exact .hold hdepth ht (ih c (by simp [children]) hc)
    case holdBetween a b c =>
      obtain ⟨a', ha, b', hb, c', hc, rfl⟩ := h
      exact .holdBetween hdepth ha hb (ih c (by simp [children]) hc)

theorem resolveAt_of_resolvesTo {f : Formula Name} {t : Formula Index}
    (h : ResolvesTo p config scope depth f t) : f.resolveAt p config scope depth = .ok t := by
  induction h with
  | bindLast shallow typed known bound body ih =>
    rw [resolveAt_quantified]
    exact resolveBinders_cons_eq_ok_iff.2 ⟨shallow, _, _, _, _, typed, known, bound, ih, rfl⟩
  | bindFirst shallow typed known bound rest ih =>
    rw [resolveAt_quantified] at ih ⊢
    exact resolveBinders_cons_eq_ok_iff.2 ⟨shallow, _, _, _, _, typed, known, bound, ih, rfl⟩
  | and shallow length members ih =>
    rw [resolveAt, if_neg (Nat.not_lt_of_le shallow), bind_eq_ok_iff]
    exact ⟨_, resolveEach_eq_ok_iff.2 ⟨length, ih⟩, rfl⟩
  | or shallow length members ih =>
    rw [resolveAt, if_neg (Nat.not_lt_of_le shallow), bind_eq_ok_iff]
    exact ⟨_, resolveEach_eq_ok_iff.2 ⟨length, ih⟩, rfl⟩
  | constant shallow | number shallow | elapsed shallow | violated shallow =>
    rw [resolveAt, if_neg (Nat.not_lt_of_le shallow)]
    rfl
  | atom shallow resolved | function shallow resolved | equality shallow resolved
  | task shallow resolved =>
    rw [resolveAt, if_neg (Nat.not_lt_of_le shallow), resolved]
    rfl
  | not shallow body ih | unary shallow body ih =>
    rw [resolveAt, if_neg (Nat.not_lt_of_le shallow), ih]
    rfl
  | imply shallow left right ihl ihr | compare shallow left right ihl ihr
  | binary shallow left right ihl ihr =>
    rw [resolveAt, if_neg (Nat.not_lt_of_le shallow), ihl, ihr]
    rfl
  | window shallow first second third iha ihb ihc =>
    rw [resolveAt, if_neg (Nat.not_lt_of_le shallow), iha, ihb, ihc]
    rfl
  | ordering shallow left right =>
    rw [resolveAt, if_neg (Nat.not_lt_of_le shallow), left, right]
    rfl
  | hold shallow occurrence condition ih =>
    rw [resolveAt, if_neg (Nat.not_lt_of_le shallow), occurrence, ih]
    rfl
  | holdBetween shallow first second condition ih =>
    rw [resolveAt, if_neg (Nat.not_lt_of_le shallow), first, second, ih]
    rfl

/-- **Resolution succeeds exactly with the formulas of the relation.** -/
theorem resolveAt_eq_ok_iff {f : Formula Name} {t : Formula Index} :
    f.resolveAt p config scope depth = .ok t ↔ ResolvesTo p config scope depth f t :=
  ⟨resolvesTo_of_resolveAt, resolveAt_of_resolvesTo⟩

end Formula

/-- What resolves at a depth resolves nearer to the root, to the same formula. -/
theorem ResolvesTo.mono {p : Problem} {config : Config} {scope : List Name} {depth depth' : Nat}
    {f : Formula Name} {t : Formula Index} (h : ResolvesTo p config scope depth f t)
    (hle : depth' ≤ depth) : ResolvesTo p config scope depth' f t := by
  induction h generalizing depth' with
  | atom shallow resolved => exact .atom (Nat.le_trans hle shallow) resolved
  | function shallow resolved => exact .function (Nat.le_trans hle shallow) resolved
  | equality shallow resolved => exact .equality (Nat.le_trans hle shallow) resolved
  | and shallow length members ih =>
    exact .and (Nat.le_trans hle shallow) length fun hft => ih hft (Nat.succ_le_succ hle)
  | or shallow length members ih =>
    exact .or (Nat.le_trans hle shallow) length fun hft => ih hft (Nat.succ_le_succ hle)
  | not shallow body ih => exact .not (Nat.le_trans hle shallow) (ih (Nat.succ_le_succ hle))
  | imply shallow left right ihl ihr =>
    exact .imply (Nat.le_trans hle shallow)
      (ihl (Nat.succ_le_succ hle)) (ihr (Nat.succ_le_succ hle))
  | constant shallow => exact .constant (Nat.le_trans hle shallow)
  | bindLast shallow typed known bound body ih =>
    exact .bindLast (Nat.le_trans hle shallow) typed known bound (ih (Nat.succ_le_succ hle))
  | bindFirst shallow typed known bound rest ih =>
    exact .bindFirst (Nat.le_trans hle shallow) typed known bound (ih (Nat.succ_le_succ hle))
  | compare shallow left right ihl ihr =>
    exact .compare (Nat.le_trans hle shallow)
      (ihl (Nat.succ_le_succ hle)) (ihr (Nat.succ_le_succ hle))
  | binary shallow left right ihl ihr =>
    exact .binary (Nat.le_trans hle shallow)
      (ihl (Nat.succ_le_succ hle)) (ihr (Nat.succ_le_succ hle))
  | unary shallow operand ih => exact .unary (Nat.le_trans hle shallow) (ih (Nat.succ_le_succ hle))
  | window shallow first second third iha ihb ihc =>
    exact .window (Nat.le_trans hle shallow)
      (iha (Nat.succ_le_succ hle)) (ihb (Nat.succ_le_succ hle))
      (ihc (Nat.succ_le_succ hle))
  | number shallow => exact .number (Nat.le_trans hle shallow)
  | elapsed shallow => exact .elapsed (Nat.le_trans hle shallow)
  | violated shallow => exact .violated (Nat.le_trans hle shallow)
  | task shallow resolved => exact .task (Nat.le_trans hle shallow) resolved
  | ordering shallow left right => exact .ordering (Nat.le_trans hle shallow) left right
  | hold shallow occurrence condition ih =>
    exact .hold (Nat.le_trans hle shallow) occurrence (ih (Nat.succ_le_succ hle))
  | holdBetween shallow first second condition ih =>
    exact .holdBetween (Nat.le_trans hle shallow) first second (ih (Nat.succ_le_succ hle))

end GoalCompiler
