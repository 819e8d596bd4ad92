import Mathlib.Data.List.Forall2

set_option autoImplicit false

/-! # Success and failure of sequenced steps

The passes are written in `Except`, step after step, and the first lemmas read a sequence backwards:
if it succeeded, each step did, and its result went into the next one; if it failed, one step did,
and the steps before it succeeded. Goal compilation is written in `EStateM`, where a step may also
replace the problem; the last lemmas carry out its first step. -/

namespace GoalCompiler

variable {ε ε' α β : Type}

theorem bind_eq_ok_iff {x : Except ε α} {f : α → Except ε β} {b : β} :
    (x >>= f) = .ok b ↔ ∃ a, x = .ok a ∧ f a = .ok b := by
  cases x with
  | error e => simp [bind, Except.bind]
  | ok a => simp [bind, Except.bind]

/-- A sequence fails where its first step fails, or after that. -/
theorem bind_eq_error_iff {x : Except ε α} {f : α → Except ε β} {e : ε} :
    (x >>= f) = .error e ↔ x = .error e ∨ ∃ a, x = .ok a ∧ f a = .error e := by
  cases x with
  | error e' => simp [bind, Except.bind]
  | ok a => simp [bind, Except.bind]

theorem pure_eq_ok_iff {a b : α} : (pure a : Except ε α) = .ok b ↔ a = b := by
  simp [pure, Except.pure]

/-- A step after a choice is a step after what was chosen. -/
theorem ite_bind_eq_bind {c : Prop} [Decidable c] {x y : Except ε α} {f : α → Except ε β} :
    (if c then x >>= f else y >>= f) = (if c then x else y) >>= f := by
  split <;> rfl

/-- Renaming the error changes no success. -/
theorem mapError_eq_ok_iff {x : Except ε α} {f : ε → ε'} {a : α} :
    x.mapError f = .ok a ↔ x = .ok a := by
  cases x with
  | error e => simp [Except.mapError]
  | ok b => simp [Except.mapError]

/-- A traversal succeeds when each element does, with the results in order. -/
theorem mapM_eq_ok_iff {f : α → Except ε β} {as : List α} {bs : List β} :
    as.mapM f = .ok bs ↔ List.Forall₂ (fun a b => f a = .ok b) as bs := by
  induction as generalizing bs with
  | nil =>
    rw [List.mapM_nil, pure_eq_ok_iff, List.forall₂_nil_left_iff]
    exact eq_comm
  | cons a as ih =>
    simp only [List.mapM_cons, bind_eq_ok_iff, pure_eq_ok_iff, ih, List.forall₂_cons_left_iff]
    constructor
    · rintro ⟨b, hb, bs, hbs, rfl⟩
      exact ⟨b, bs, hb, hbs, rfl⟩
    · rintro ⟨b, bs, hb, hbs, rfl⟩
      exact ⟨b, hb, bs, hbs, rfl⟩

/-- A traversal that fails does so at one of the elements. -/
theorem exists_mem_of_mapM_eq_error {f : α → Except ε β} {as : List α} {e : ε}
    (h : as.mapM f = .error e) : ∃ a ∈ as, f a = .error e := by
  induction as with
  | nil => exact absurd h (by simp [pure, Except.pure])
  | cons a as ih =>
    rw [List.mapM_cons, bind_eq_error_iff] at h
    rcases h with hfirst | ⟨b, -, hrest⟩
    · exact ⟨a, List.mem_cons_self, hfirst⟩
    · rcases bind_eq_error_iff.1 hrest with hrest | ⟨bs, -, hdone⟩
      · obtain ⟨c, hc, hce⟩ := ih hrest
        exact ⟨c, List.mem_cons_of_mem a hc, hce⟩
      · exact absurd hdone (by simp [pure, Except.pure])

/-- Mapping each result of a traversal is mapping the list of results. -/
theorem mapM_map_eq_map {γ : Type} (f : α → Except ε β) (g : β → γ) (as : List α) :
    as.mapM (fun a => (f a).map g) = (as.mapM f).map (List.map g) := by
  induction as with
  | nil => rfl
  | cons a as ih =>
    rw [List.mapM_cons, List.mapM_cons, ih]
    cases f a with
    | error e => rfl
    | ok b =>
      cases as.mapM f with
      | error e => rfl
      | ok bs => rfl

/-- What holds of everything that is related to something holds of all of a related list. -/
theorem forall_mem_of_forall₂ {R : α → β → Prop} {P : β → Prop} {as : List α} {bs : List β}
    (h : List.Forall₂ R as bs) (hR : ∀ a b, R a b → P b) : ∀ b ∈ bs, P b := by
  induction h with
  | nil => simp
  | cons hab h ih => exact List.forall_mem_cons.2 ⟨hR _ _ hab, ih⟩

/-- Everything in a related list is related to something. -/
theorem exists_mem_of_forall₂ {R : α → β → Prop} {as : List α} {bs : List β} {b : β}
    (h : List.Forall₂ R as bs) (hb : b ∈ bs) : ∃ a ∈ as, R a b := by
  induction h with
  | nil => exact absurd hb (by simp)
  | cons hab h ih =>
    rcases List.mem_cons.1 hb with rfl | hb
    · exact ⟨_, List.mem_cons_self, hab⟩
    · obtain ⟨a, ha, hab⟩ := ih hb
      exact ⟨a, List.mem_cons_of_mem _ ha, hab⟩

/-- A list has a related one if each of its elements is related to something. -/
theorem exists_forall₂_iff {R : α → β → Prop} {as : List α} :
    (∃ bs, List.Forall₂ R as bs) ↔ ∀ a ∈ as, ∃ b, R a b := by
  induction as with
  | nil => simp
  | cons a as ih =>
    simp only [List.forall₂_cons_left_iff, List.forall_mem_cons, ← ih]
    constructor
    · rintro ⟨-, b, bs, hab, hbs, rfl⟩
      exact ⟨⟨b, hab⟩, bs, hbs⟩
    · rintro ⟨⟨b, hab⟩, bs, hbs⟩
      exact ⟨_, b, bs, hab, hbs, rfl⟩

/-- Two lists that are related to the same list are equal, if elements that are related to the same
    element are. -/
theorem eq_of_forall₂ {R S : α → β → Prop} {as as' : List α} {bs : List β}
    (h : List.Forall₂ R as bs) (h' : List.Forall₂ S as' bs)
    (heq : ∀ a ∈ as, ∀ a' b, R a b → S a' b → a = a') : as = as' := by
  induction h generalizing as' with
  | nil => exact (List.forall₂_nil_right_iff.1 h').symm
  | cons hab h ih =>
    obtain ⟨a', as', hab', hrest, rfl⟩ := List.forall₂_cons_right_iff.1 h'
    rw [heq _ (by simp) a' _ hab hab', ih hrest fun a ha => heq a (by simp [ha])]

/-- Two lists with equal images are equal, if elements with equal images are. -/
theorem eq_of_map_eq_map {f : α → β} {as as' : List α} (h : as.map f = as'.map f)
    (heq : ∀ a ∈ as, ∀ a' ∈ as', f a = f a' → a = a') : as = as' := by
  have himage (cs : List α) : List.Forall₂ (fun c b => c ∈ cs ∧ f c = b) cs (cs.map f) :=
    List.forall₂_map_right_iff.2 (List.forall₂_same.2 fun c hc => ⟨hc, rfl⟩)
  have has := himage as
  rw [h] at has
  refine eq_of_forall₂ has (himage as') ?_
  intro a ha a' b hab hab'
  exact heq a ha a' hab'.1 (hab.2.trans hab'.2.symm)

/-- Related lists have equal images, if related elements have. -/
theorem map_eq_map_of_forall₂ {γ : Type*} {R : α → β → Prop} {f : α → γ} {g : β → γ} {as : List α}
    {bs : List β} (h : List.Forall₂ R as bs) (himage : ∀ a ∈ as, ∀ b, R a b → f a = g b) :
    as.map f = bs.map g := by
  induction h with
  | nil => rfl
  | cons hab h ih =>
    rw [List.map_cons, List.map_cons, himage _ (by simp) _ hab]
    rw [ih fun a ha => himage a (by simp [ha])]

theorem map_eq_map_of_zip {γ : Type*} {f : α → γ} {g : β → γ} {as : List α} {bs : List β}
    (length : as.length = bs.length)
    (himage : ∀ {a b}, a ∈ as → (a, b) ∈ as.zip bs → f a = g b) : as.map f = bs.map g := by
  have hzip : List.Forall₂ (fun a b => (a, b) ∈ as.zip bs) as bs :=
    List.forall₂_iff_zip.2 ⟨length, id⟩
  exact map_eq_map_of_forall₂ hzip fun a ha b hab => himage ha hab

/-! ## Steps with a state -/

section

variable {τ : Type} {s : τ}

theorem run_get_bind {f : τ → EStateM ε τ β} : (get >>= f) s = f s s := rfl

theorem run_set_bind {r : τ} {f : PUnit → EStateM ε τ β} : (set r >>= f) s = f ⟨⟩ r := rfl

theorem run_ofExcept_ok_bind {a : α} {f : α → EStateM ε τ β} :
    ((ofExcept (.ok a) : EStateM ε τ α) >>= f) s = f a s := rfl

/-- A step that fails ends the run with the state it was started in. -/
theorem run_ofExcept_error_bind {e : ε} {f : α → EStateM ε τ β} :
    ((ofExcept (.error e) : EStateM ε τ α) >>= f) s = .error e s := rfl

end

end GoalCompiler
