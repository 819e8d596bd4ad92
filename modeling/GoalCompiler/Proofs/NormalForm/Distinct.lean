import GoalCompiler.NormalForm.Disjunctive
import Mathlib.Data.List.Basic

set_option autoImplicit false

/-! # Removal of repetitions

`List.eraseDups` keeps the first of equal elements. Equality of formulas is not reflexive, so the
facts here assume nothing of it: the result is a part of the list, no later element of the result
equals an earlier one, and each element of the list is in the result or equals one that is. -/

namespace GoalCompiler

section

variable {α : Type} [BEq α]

/-- Induction along `List.eraseDups`: it keeps the first element and goes on with those of the rest
    that do not equal it. -/
theorem eraseDups_induction {motive : List α → Prop} (nil : motive [])
    (cons : ∀ a as, motive (as.filter fun b => !b == a) → motive (a :: as)) (as : List α) :
    motive as := by
  induction h : as.length using Nat.strongRecOn generalizing as with
  | _ n ih =>
    subst h
    cases as with
    | nil => exact nil
    | cons a as =>
      have hlt : (as.filter fun b => !b == a).length < (a :: as).length :=
        Nat.lt_succ_of_le (List.length_filter_le ..)
      exact cons a as (ih _ hlt _ rfl)

theorem eraseDups_sublist (as : List α) : as.eraseDups.Sublist as := by
  induction as using eraseDups_induction with
  | nil => exact List.Sublist.refl []
  | cons a as ih =>
    rw [List.eraseDups_cons]
    exact (ih.trans List.filter_sublist).cons_cons a

/-- No element of the result equals an earlier one. -/
theorem pairwise_eraseDups (as : List α) :
    as.eraseDups.Pairwise fun a b => (b == a) = false := by
  induction as using eraseDups_induction with
  | nil => exact List.Pairwise.nil
  | cons a as ih =>
    rw [List.eraseDups_cons, List.pairwise_cons]
    refine ⟨?_, ih⟩
    intro b hb
    have hfilter : b ∈ as.filter fun b => !b == a := (eraseDups_sublist _).subset hb
    simpa using (List.mem_filter.1 hfilter).2

/-- A list in which no element equals an earlier one is kept as it is. -/
theorem eraseDups_eq_self {as : List α} (h : as.Pairwise fun a b => (b == a) = false) :
    as.eraseDups = as := by
  induction as with
  | nil => rfl
  | cons a as ih =>
    obtain ⟨hhead, htail⟩ := List.pairwise_cons.1 h
    have hkept : (as.filter fun b => !b == a) = as := by
      rw [List.filter_eq_self]
      intro b hb
      rw [hhead b hb]
      rfl
    rw [List.eraseDups_cons, hkept, ih htail]

/-- What is not kept equals something that is. -/
theorem exists_mem_eraseDups {as : List α} {a : α} (ha : a ∈ as) :
    ∃ b ∈ as.eraseDups, a = b ∨ (a == b) = true := by
  induction as using eraseDups_induction with
  | nil => exact absurd ha (by simp)
  | cons c as ih =>
    rw [List.eraseDups_cons]
    rcases List.mem_cons.1 ha with rfl | ha
    · exact ⟨a, by simp, Or.inl rfl⟩
    · -- The first element removes what equals it; everything else goes on.
      by_cases hac : (a == c) = true
      · exact ⟨c, by simp, Or.inr hac⟩
      · obtain ⟨b, hb, hab⟩ := ih (List.mem_filter.2 ⟨ha, by simpa using hac⟩)
        exact ⟨b, List.mem_cons_of_mem c hb, hab⟩

variable {p : α → Bool}

/-- A test that does not tell equal elements apart holds of all kept elements exactly when it holds
    of the whole list. -/
theorem all_eraseDups (hp : ∀ a b, (a == b) = true → p a = p b) (as : List α) :
    as.eraseDups.all p = as.all p := by
  rw [Bool.eq_iff_iff, List.all_eq_true, List.all_eq_true]
  constructor
  · intro h a ha
    obtain ⟨b, hb, rfl | hab⟩ := exists_mem_eraseDups ha
    · exact h a hb
    · rw [hp a b hab]
      exact h b hb
  · intro h a ha
    exact h a ((eraseDups_sublist as).subset ha)

theorem any_eraseDups (hp : ∀ a b, (a == b) = true → p a = p b) (as : List α) :
    as.eraseDups.any p = as.any p := by
  have hnot := all_eraseDups (p := fun a => !p a) (fun a b hab => by rw [hp a b hab]) as
  rw [← List.not_any_eq_all_not, ← List.not_any_eq_all_not] at hnot
  exact Bool.not_inj hnot

variable {β : Type} {g : α → Option β}

/-- Nothing is lost of what is read off the elements, if equal elements give the same. -/
theorem mem_filterMap_eraseDups (hg : ∀ a b, (a == b) = true → g a = g b) {as : List α} {x : β} :
    x ∈ as.eraseDups.filterMap g ↔ x ∈ as.filterMap g := by
  simp only [List.mem_filterMap]
  constructor
  · rintro ⟨a, ha, hx⟩
    exact ⟨a, (eraseDups_sublist as).subset ha, hx⟩
  · rintro ⟨a, ha, hx⟩
    obtain ⟨b, hb, rfl | hab⟩ := exists_mem_eraseDups ha
    · exact ⟨a, hb, hx⟩
    · exact ⟨b, hb, (hg a b hab).symm.trans hx⟩

/-- Repetitions can be removed before or after something is read off the elements, if their equality
    can be read off too and elements that give nothing equal none that do. -/
theorem filterMap_eraseDups [BEq β]
    (hsome : ∀ a b x y, g a = some x → g b = some y → (a == b) = (x == y))
    (hnone : ∀ a b y, g a = some y → g b = none → (a == b) = false) (as : List α) :
    as.eraseDups.filterMap g = (as.filterMap g).eraseDups := by
  induction as using eraseDups_induction with
  | nil => rfl
  | cons a as ih =>
    rw [List.eraseDups_cons]
    cases hx : g a with
    | none =>
      have hkept : (as.filter fun b => !b == a).filterMap g = as.filterMap g := by
        rw [List.filterMap_filter]
        apply List.filterMap_congr
        intro b _
        cases hy : g b with
        | none => simp
        | some y => simp [hnone b a y hy hx]
      rw [List.filterMap_cons_none hx, List.filterMap_cons_none hx, ih, hkept]
    | some x =>
      have hkept : (as.filter fun b => !b == a).filterMap g =
          (as.filterMap g).filter fun y => !y == x := by
        rw [List.filterMap_filter, List.filter_filterMap]
        apply List.filterMap_congr
        intro b _
        cases hy : g b with
        | none => simp
        | some y => simp [hsome b a y x hy hx, Option.filter]
      rw [List.filterMap_cons_some hx, List.filterMap_cons_some hx, List.eraseDups_cons, ih, hkept]

end

namespace Formula

variable {σ : Type} [DecidableEq σ]

/-- The two forms of a join: the one formula left, or the connective over several or none. -/
theorem joinDistinct_cases (join : List (Formula σ) → Formula σ) (fs : List (Formula σ)) :
    fs.eraseDups = [joinDistinct join fs] ∨
      (fs.eraseDups.length ≠ 1 ∧ joinDistinct join fs = join fs.eraseDups) := by
  unfold joinDistinct
  split
  · next f hf => exact Or.inl hf
  · next hf =>
    refine Or.inr ⟨?_, rfl⟩
    intro hlength
    obtain ⟨f, hone⟩ := List.length_eq_one_iff.1 hlength
    exact hf f hone

end Formula

end GoalCompiler
