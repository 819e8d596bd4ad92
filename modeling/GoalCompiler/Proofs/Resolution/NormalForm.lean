import GoalCompiler.Proofs.NormalForm.Related
import GoalCompiler.Proofs.NormalForm.Threshold
import GoalCompiler.Proofs.Resolution.Relation

set_option autoImplicit false

/-! # Normal forms before and after resolution

A formula can be normalized as it was written and then resolved, or resolved and then normalized.
Negations and distribution do not look at symbols, so up to there the two ways go in step: the two
and/or trees have the same shape and related leaves (`Formula.related_nnf`).

Only the removal of repetitions looks at symbols. One way compares names and the other compares
indices. They find the same repetitions because resolution is injective: in one scope different
terms never get the same index, and neither do different names of one kind (`ResolvesTo.inj`). This
is said of formulas of propositional logic. A quantifier does not keep the names of its variables
and a task occurrence does not keep all of its label, and so formulas with these may become equal by
resolution.

A normal form goes down three levels at most, through a disjunction, a conjunction and a negation.
If the depth limit has room for that, both ways lead to the same formula
(`Formula.dnf_resolve_comm`). -/

namespace GoalCompiler

/-! ## Propositional formulas -/

namespace Formula

/-- A formula of propositional logic over atoms, with constants or variables for arguments. -/
inductive IsPropositional {σ : Type} : Formula σ → Prop
  | atom (head : Application σ) : IsPropositional (.atom head)
  | equality (arguments : List (Term σ)) : IsPropositional (.equality arguments)
  | constant (value : Bool) : IsPropositional (.constant value)
  | and {fs : List (Formula σ)} (members : ∀ f ∈ fs, IsPropositional f) : IsPropositional (.and fs)
  | or {fs : List (Formula σ)} (members : ∀ f ∈ fs, IsPropositional f) : IsPropositional (.or fs)
  | not {f : Formula σ} (body : IsPropositional f) : IsPropositional (.not f)
  | imply {l r : Formula σ} (left : IsPropositional l) (right : IsPropositional r) :
      IsPropositional (.imply l r)

variable {σ : Type} [DecidableEq σ]

theorem sameAll_self {fs : List (Formula σ)} (h : ∀ f ∈ fs, f.same f = true) :
    sameAll fs fs = true := by
  induction fs with
  | nil => rfl
  | cons f fs ih =>
    rw [sameAll, h f (by simp), ih fun f hf => h f (by simp [hf])]
    rfl

theorem eq_of_sameAll {fs gs : List (Formula σ)} (ih : ∀ f ∈ fs, ∀ g, f.same g = true → f = g)
    (h : sameAll fs gs = true) : fs = gs := by
  induction fs generalizing gs with
  | nil =>
    cases gs with
    | nil => rfl
    | cons g gs => exact absurd h (by simp [sameAll])
  | cons f fs ihs =>
    cases gs with
    | nil => exact absurd h (by simp [sameAll])
    | cons g gs =>
      rw [sameAll, Bool.and_eq_true] at h
      rw [ih f (by simp) g h.1, ihs (fun f hf => ih f (by simp [hf])) h.2]

/-- There are no numbers in a propositional formula, so it equals itself. -/
theorem IsPropositional.same_self {f : Formula σ} (h : f.IsPropositional) : f.same f = true := by
  induction h with
  | atom | equality | constant => simp [same]
  | and members ih => exact sameAll_self ih
  | or members ih => exact sameAll_self ih
  | not body ih => exact ih
  | imply left right ihl ihr =>
    rw [same, ihl, ihr]
    rfl

theorem IsPropositional.eq_of_same {f g : Formula σ} (hf : f.IsPropositional)
    (h : f.same g = true) : f = g := by
  induction hf generalizing g with
  | atom | equality | constant => cases g <;> simp_all [same]
  | and members ih =>
    cases g with
    | and gs => rw [eq_of_sameAll (fun f hf g hg => ih f hf hg) h]
    | _ => exact absurd h (by simp [same])
  | or members ih =>
    cases g with
    | or gs => rw [eq_of_sameAll (fun f hf g hg => ih f hf hg) h]
    | _ => exact absurd h (by simp [same])
  | not body ih =>
    cases g with
    | not g => rw [ih h]
    | _ => exact absurd h (by simp [same])
  | imply left right ihl ihr =>
    cases g with
    | imply l r =>
      rw [same, Bool.and_eq_true] at h
      rw [ihl h.1, ihr h.2]
    | _ => exact absurd h (by simp [same])

/-- Equality of propositional formulas is identity. -/
theorem IsPropositional.beq_iff_eq {f g : Formula σ} (hf : f.IsPropositional) :
    (f == g) = true ↔ f = g := by
  refine ⟨hf.eq_of_same, ?_⟩
  intro hfg
  subst hfg
  exact hf.same_self

end Formula

/-! ## Resolution is injective -/

section

variable {p : Problem} {config : Config} {scope : List Name}

theorem Problem.resolveSymbol_inj {kind : SymbolKind} {a b : Name} {i : Index}
    (ha : p.resolveSymbol kind a = .ok i) (hb : p.resolveSymbol kind b = .ok i) : a = b := by
  obtain ⟨m, hm, -, hi⟩ := resolveSymbol_eq_ok_iff.1 ha
  obtain ⟨n, hn, -, hj⟩ := resolveSymbol_eq_ok_iff.1 hb
  have hmn : m = n := Int.ofNat.inj (hi.symm.trans hj)
  rw [hmn] at hm
  have hentries := (Table.position?_eq_some_iff.1 hm).symm.trans (Table.position?_eq_some_iff.1 hn)
  exact Option.some.inj hentries

/-- In one scope different terms have different indices. -/
theorem Term.resolve_inj {s t : Term Name} {u : Term Index} (hs : s.resolve p scope = .ok u)
    (ht : t.resolve p scope = .ok u) : s = t := by
  cases s with
  | «variable» x =>
    obtain ⟨k, hk, -, rfl⟩ := Term.resolve_variable_eq_ok_iff.1 hs
    cases t with
    | «variable» y =>
      obtain ⟨l, hl, -, hkl⟩ := Term.resolve_variable_eq_ok_iff.1 ht
      have hindices : -((l + 1 : Nat) : Int) = -((k + 1 : Nat) : Int) := Term.variable.inj hkl
      obtain rfl : l = k := by omega
      obtain ⟨hlt, hx, -⟩ := List.idxOf?_eq_some_iff.1 hk
      obtain ⟨hlt', hy, -⟩ := List.idxOf?_eq_some_iff.1 hl
      rw [← hx, ← hy]
    | constant d =>
      obtain ⟨j, -, hj⟩ := Term.resolve_constant_eq_ok_iff.1 ht
      exact absurd hj (by simp)
  | constant c =>
    obtain ⟨i, hi, rfl⟩ := Term.resolve_constant_eq_ok_iff.1 hs
    cases t with
    | «variable» y =>
      obtain ⟨l, -, -, hl⟩ := Term.resolve_variable_eq_ok_iff.1 ht
      exact absurd hl (by simp)
    | constant d =>
      obtain ⟨j, hj, hij⟩ := Term.resolve_constant_eq_ok_iff.1 ht
      rw [Term.constant.inj hij] at hj
      rw [Problem.resolveSymbol_inj hi hj]

theorem Term.forall₂_resolve_inj {ss ts : List (Term Name)} {us : List (Term Index)}
    (hs : List.Forall₂ (fun s u => s.resolve p scope = .ok u) ss us)
    (ht : List.Forall₂ (fun t u => t.resolve p scope = .ok u) ts us) : ss = ts :=
  eq_of_forall₂ hs ht fun _ _ _ _ => Term.resolve_inj

theorem Application.resolve_inj {kind : SymbolKind} {a b : Application Name}
    {c : Application Index} (ha : a.resolve p kind scope = .ok c)
    (hb : b.resolve p kind scope = .ok c) : a = b := by
  obtain ⟨hsymbol, harguments⟩ := Application.resolve_eq_ok_iff.1 ha
  obtain ⟨hsymbol', harguments'⟩ := Application.resolve_eq_ok_iff.1 hb
  cases a
  cases b
  rw [Application.mk.injEq]
  exact ⟨Problem.resolveSymbol_inj hsymbol hsymbol', Term.forall₂_resolve_inj harguments harguments'⟩

/-- **A propositional formula is determined by what it resolves to,** at whatever depth. -/
theorem ResolvesTo.inj {depth depth' : Nat} {f g : Formula Name} {t : Formula Index}
    (h : ResolvesTo p config scope depth f t) (hf : f.IsPropositional)
    (h' : ResolvesTo p config scope depth' g t) : f = g := by
  induction hf generalizing g t depth depth' with
  | atom head =>
    cases h with
    | atom shallow resolved =>
      cases h' with
      | atom shallow' resolved' => rw [Application.resolve_inj resolved resolved']
  | equality arguments =>
    cases h with
    | equality shallow resolved =>
      cases h' with
      | equality shallow' resolved' =>
        rw [Term.forall₂_resolve_inj (mapM_eq_ok_iff.1 resolved) (mapM_eq_ok_iff.1 resolved')]
  | constant value =>
    cases h with
    | constant shallow =>
      cases h' with
      | constant shallow' => rfl
  | and members ih =>
    cases h with
    | and shallow length resolved =>
      cases h' with
      | and shallow' length' resolved' =>
        rw [eq_of_forall₂ (List.forall₂_iff_zip.2 ⟨length, resolved⟩)
          (List.forall₂_iff_zip.2 ⟨length', resolved'⟩) fun f hf _ _ => ih f hf]
  | or members ih =>
    cases h with
    | or shallow length resolved =>
      cases h' with
      | or shallow' length' resolved' =>
        rw [eq_of_forall₂ (List.forall₂_iff_zip.2 ⟨length, resolved⟩)
          (List.forall₂_iff_zip.2 ⟨length', resolved'⟩) fun f hf _ _ => ih f hf]
  | not body ih =>
    cases h with
    | not shallow resolved =>
      cases h' with
      | not shallow' resolved' => rw [ih resolved resolved']
  | imply left right ihl ihr =>
    cases h with
    | imply shallow hl hr =>
      cases h' with
      | imply shallow' hl' hr' => rw [ihl hl hl', ihr hr hr']

/-- Resolution keeps a formula propositional. -/
theorem ResolvesTo.isPropositional {depth : Nat} {f : Formula Name} {t : Formula Index}
    (h : ResolvesTo p config scope depth f t) (hf : f.IsPropositional) : t.IsPropositional := by
  induction hf generalizing t depth with
  | atom head =>
    cases h
    exact .atom _
  | equality arguments =>
    cases h
    exact .equality _
  | constant value =>
    cases h
    exact .constant value
  | and members ih =>
    cases h with
    | and shallow length resolved =>
      refine .and ?_
      intro t ht
      obtain ⟨f, hf, hft⟩ := exists_mem_of_forall₂ (List.forall₂_iff_zip.2 ⟨length, id⟩) ht
      exact ih f hf (resolved hft)
  | or members ih =>
    cases h with
    | or shallow length resolved =>
      refine .or ?_
      intro t ht
      obtain ⟨f, hf, hft⟩ := exists_mem_of_forall₂ (List.forall₂_iff_zip.2 ⟨length, id⟩) ht
      exact ih f hf (resolved hft)
  | not body ih =>
    cases h with
    | not shallow resolved => exact .not (ih resolved)
  | imply left right ihl ihr =>
    cases h with
    | imply shallow hl hr => exact .imply (ihl hl) (ihr hr)

end

/-! ## Formulas of few levels -/

/-- A propositional formula resolves to `t` wherever there is room for some levels below it. -/
structure ResolvesWithin (p : Problem) (config : Config) (scope : List Name) (levels : Nat)
    (f : Formula Name) (t : Formula Index) : Prop where
  propositional : f.IsPropositional
  resolves : ∀ depth, depth + levels ≤ config.maxDepth → ResolvesTo p config scope depth f t

namespace ResolvesWithin

variable {p : Problem} {config : Config} {scope : List Name} {levels : Nat}

theorem mono {levels' : Nat} {f : Formula Name} {t : Formula Index}
    (h : ResolvesWithin p config scope levels f t) (hle : levels ≤ levels') :
    ResolvesWithin p config scope levels' f t where
  propositional := h.propositional
  resolves depth hroom := h.resolves depth (by omega)

/-- Names and indices agree on what is equal. -/
theorem beq_eq (hlevels : levels ≤ config.maxDepth) {f g : Formula Name} {t u : Formula Index}
    (hf : ResolvesWithin p config scope levels f t)
    (hg : ResolvesWithin p config scope levels g u) : (f == g) = (t == u) := by
  have hft : ResolvesTo p config scope 0 f t := hf.resolves 0 (by omega)
  have hgu : ResolvesTo p config scope 0 g u := hg.resolves 0 (by omega)
  have ht : t.IsPropositional := hft.isPropositional hf.propositional
  rw [Bool.eq_iff_iff, hf.propositional.beq_iff_eq, ht.beq_iff_eq]
  refine ⟨?_, ?_⟩
  · intro hfg
    subst hfg
    have hft := Formula.resolveAt_eq_ok_iff.2 hft
    rw [Formula.resolveAt_eq_ok_iff.2 hgu] at hft
    exact (Except.ok.inj hft).symm
  · intro htu
    subst htu
    exact hft.inj hf.propositional hgu

theorem not {f : Formula Name} {t : Formula Index} (h : ResolvesWithin p config scope levels f t) :
    ResolvesWithin p config scope (levels + 1) (.not f) (.not t) where
  propositional := .not h.propositional
  resolves depth hroom := .not (by omega) (h.resolves (depth + 1) (by omega))

section

variable {fs : List (Formula Name)} {ts : List (Formula Index)}

theorem and (h : List.Forall₂ (ResolvesWithin p config scope levels) fs ts) :
    ResolvesWithin p config scope (levels + 1) (.and fs) (.and ts) where
  propositional := by
    refine .and ?_
    intro f hf
    obtain ⟨t, hft⟩ := exists_forall₂_iff.1 ⟨ts, h⟩ f hf
    exact hft.propositional
  resolves depth hroom := by
    refine .and (by omega) h.length_eq ?_
    intro f t hft
    exact ((List.forall₂_iff_zip.1 h).2 hft).resolves (depth + 1) (by omega)

theorem or (h : List.Forall₂ (ResolvesWithin p config scope levels) fs ts) :
    ResolvesWithin p config scope (levels + 1) (.or fs) (.or ts) where
  propositional := by
    refine .or ?_
    intro f hf
    obtain ⟨t, hft⟩ := exists_forall₂_iff.1 ⟨ts, h⟩ f hf
    exact hft.propositional
  resolves depth hroom := by
    refine .or (by omega) h.length_eq ?_
    intro f t hft
    exact ((List.forall₂_iff_zip.1 h).2 hft).resolves (depth + 1) (by omega)

/-- Formulas are joined one level up. The same ones are repetitions on both sides, so either both
    joins are the one formula left or both are connectives. -/
theorem joinDistinct (hlevels : levels ≤ config.maxDepth)
    {join : List (Formula Name) → Formula Name} {join' : List (Formula Index) → Formula Index}
    (hjoin : ∀ fs ts, List.Forall₂ (ResolvesWithin p config scope levels) fs ts →
      ResolvesWithin p config scope (levels + 1) (join fs) (join' ts))
    (h : List.Forall₂ (ResolvesWithin p config scope levels) fs ts) :
    ResolvesWithin p config scope (levels + 1) (Formula.joinDistinct join fs)
      (Formula.joinDistinct join' ts) := by
  have hkept := forall₂_eraseDups (beq_eq hlevels) h
  unfold Formula.joinDistinct
  generalize fs.eraseDups = as at hkept
  generalize ts.eraseDups = bs at hkept
  cases hkept with
  | nil => exact hjoin [] [] .nil
  | cons hft hrest =>
    cases hrest with
    | nil => exact hft.mono (Nat.le_succ levels)
    | cons hgu hrest => exact hjoin _ _ (.cons hft (.cons hgu hrest))

end

/-- The formula of clauses has two levels more than the literals of the clauses. -/
theorem ofClauses (hlevels : levels + 1 ≤ config.maxDepth) {cs : List (List (Formula Name))}
    {ds : List (List (Formula Index))}
    (h : List.Forall₂ (List.Forall₂ (ResolvesWithin p config scope levels)) cs ds) :
    ResolvesWithin p config scope (levels + 2) (Formula.ofClauses cs) (Formula.ofClauses ds) := by
  refine joinDistinct hlevels (fun _ _ => or) (List.rel_map ?_ h)
  intro c d hcd
  exact joinDistinct (Nat.le_of_succ_le hlevels) (fun _ _ => and) hcd

end ResolvesWithin

/-! ## Normal forms -/

namespace Formula

variable {p : Problem} {config : Config} {scope : List Name}

theorem forall₂_nnfAll {R : Formula Name → Formula Index → Prop} {negated : Bool}
    {fs : List (Formula Name)} {ts : List (Formula Index)}
    (h : List.Forall₂ (fun f t => AndOr.Related R (f.nnf negated) (t.nnf negated)) fs ts) :
    List.Forall₂ (AndOr.Related R) (nnfAll negated fs) (nnfAll negated ts) := by
  rw [nnfAll_eq_map, nnfAll_eq_map, List.forall₂_map_left_iff, List.forall₂_map_right_iff]
  exact h

/-- The and/or trees before and after resolution have the same shape, and a literal of the one
    resolves to the literal of the other wherever there is room for a negation. -/
theorem related_nnf {depth : Nat} {f : Formula Name} {t : Formula Index}
    (hf : f.IsPropositional) (h : ResolvesTo p config scope depth f t) (negated : Bool) :
    AndOr.Related (ResolvesWithin p config scope 1) (f.nnf negated) (t.nnf negated) := by
  induction hf generalizing t depth negated with
  | atom head =>
    cases h with
    | atom shallow resolved =>
      have hatom : ResolvesWithin p config scope 0 (atom head) _ :=
        ⟨.atom head, fun depth hroom => .atom hroom resolved⟩
      cases negated with
      | false => exact .leaf (hatom.mono (Nat.zero_le 1))
      | true => exact .leaf hatom.not
  | equality arguments =>
    cases h with
    | equality shallow resolved =>
      have hequality : ResolvesWithin p config scope 0 (equality arguments) _ :=
        ⟨.equality arguments, fun depth hroom => .equality hroom resolved⟩
      cases negated with
      | false => exact .leaf (hequality.mono (Nat.zero_le 1))
      | true => exact .leaf hequality.not
  | constant value =>
    cases h with
    | constant shallow =>
      have hconstant (b : Bool) : ResolvesWithin p config scope 0 (constant b) (constant b) :=
        ⟨.constant b, fun depth hroom => .constant hroom⟩
      cases negated with
      | false => exact .leaf ((hconstant value).mono (Nat.zero_le 1))
      | true => exact .leaf ((hconstant !value).mono (Nat.zero_le 1))
  | and members ih =>
    cases h with
    | and shallow length resolved =>
      have hparts := forall₂_nnfAll (List.forall₂_iff_zip.2
        ⟨length, fun hft => ih _ (List.of_mem_zip hft).1 (resolved hft) negated⟩)
      cases negated with
      | false => exact .all_of_forall₂ hparts
      | true => exact .any_of_forall₂ hparts
  | or members ih =>
    cases h with
    | or shallow length resolved =>
      have hparts := forall₂_nnfAll (List.forall₂_iff_zip.2
        ⟨length, fun hft => ih _ (List.of_mem_zip hft).1 (resolved hft) negated⟩)
      cases negated with
      | false => exact .any_of_forall₂ hparts
      | true => exact .all_of_forall₂ hparts
  | not body ih =>
    cases h with
    | not shallow resolved => exact ih resolved !negated
  | imply left right ihl ihr =>
    cases h with
    | imply shallow hl hr =>
      cases negated with
      | false => exact .any_of_forall₂ (.cons (ihl hl true) (.cons (ihr hr false) .nil))
      | true => exact .all_of_forall₂ (.cons (ihl hl false) (.cons (ihr hr true) .nil))

/-- **To normalize and to resolve commute.** If the depth limit has room for a normal form, a
    propositional formula has one under the same limits as its resolved form, and it resolves to the
    normal form of the resolved form. -/
theorem dnf_resolve_comm {f : Formula Name} {t : Formula Index} (hf : f.IsPropositional)
    (hdepth : 3 ≤ config.maxDepth) (h : f.resolve p config scope = .ok t) (limit : Nat) :
    (∀ e, f.dnf limit = .error e ↔ t.dnf limit = .error e) ∧
      ∀ g u, f.dnf limit = .ok g → t.dnf limit = .ok u → g.resolve p config scope = .ok u := by
  have hrelated := related_nnf hf (resolveAt_eq_ok_iff.1 h) false
  refine ⟨?_, ?_⟩
  · intro e
    rw [dnf_eq_ite_peak, dnf_eq_ite_peak, hrelated.peak_eq]
    by_cases hpeak : (t.nnf false).peak ≤ limit
    · simp [hpeak]
    · simp [hpeak]
  · intro g u hg hu
    obtain ⟨-, rfl⟩ := dnf_eq_ok_iff_peak.1 hg
    obtain ⟨-, rfl⟩ := dnf_eq_ok_iff_peak.1 hu
    have hnormal := ResolvesWithin.ofClauses (by omega) hrelated.expansion
    exact resolveAt_eq_ok_iff.2 (hnormal.resolves 0 hdepth)

/-- Three clauses of which two stay, found to be the same by names and by indices. The normal form
    is one level deeper than the formula. -/
theorem dnf_resolve_comm_blocks :
    let p : Problem := {
      constants := ⟨["a", "b"], by decide⟩, predicates := ⟨["on", "clear"], by decide⟩,
      signatures := [[0, 0], [0]] }
    let config : Config := { maxDepth := 3 }
    let on : Formula Name := atom ⟨"on", [.constant "a", .constant "b"]⟩
    let clear (x : Name) : Formula Name := atom ⟨"clear", [.constant x]⟩
    let f : Formula Name := and [or [on, clear "a", on], not (clear "b")]
    let t : Formula Index := and [
      or [atom ⟨0, [.constant 0, .constant 1]⟩, atom ⟨1, [.constant 0]⟩,
        atom ⟨0, [.constant 0, .constant 1]⟩],
      not (atom ⟨1, [.constant 1]⟩)]
    let g : Formula Name := or [and [on, not (clear "b")], and [clear "a", not (clear "b")]]
    let u : Formula Index := or [
      and [atom ⟨0, [.constant 0, .constant 1]⟩, not (atom ⟨1, [.constant 1]⟩)],
      and [atom ⟨1, [.constant 0]⟩, not (atom ⟨1, [.constant 1]⟩)]]
    f.resolve p config [] = .ok t ∧ f.dnf 3 = .ok g ∧ t.dnf 3 = .ok u ∧
      g.resolve p config [] = .ok u ∧ f.dnf 2 = .error ⟨2⟩ ∧ t.dnf 2 = .error ⟨2⟩ := by
  intro p config on clear f t g u
  have hf : f.IsPropositional := by
    refine .and (List.forall_mem_cons.2 ⟨.or ?_, List.forall_mem_singleton.2 (.not (.atom _))⟩)
    exact List.forall_mem_cons.2 ⟨.atom _, List.forall_mem_cons.2
      ⟨.atom _, List.forall_mem_singleton.2 (.atom _)⟩⟩
  have hresolve : f.resolve p config [] = .ok t := by rfl
  have hg : f.dnf 3 = .ok g := by rfl
  have hu : t.dnf 3 = .ok u := by rfl
  have hfew : f.dnf 2 = .error ⟨2⟩ := by rfl
  have hcomm := dnf_resolve_comm hf (show 3 ≤ config.maxDepth by decide) hresolve
  exact ⟨hresolve, hg, hu, (hcomm 3).2 g u hg hu, hfew, ((hcomm 2).1 _).1 hfew⟩

end Formula

end GoalCompiler
