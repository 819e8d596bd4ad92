import GoalCompiler.Proofs.NormalForm.Distinct
import GoalCompiler.Proofs.NormalForm.Expansion

set_option autoImplicit false

/-! # Trees of the same shape

The expansion of an and/or tree does not look at the leaves. So if two trees have the same shape and
their leaves are related, one by one, then their clauses are related in the same way
(`AndOr.Related.expansion`), and the two need the same limit (`AndOr.Related.peak_eq`).

The removal of repetitions does look at the elements, but only to compare them. It keeps lists
related if related elements are equal on the one side exactly if they are on the other
(`forall₂_eraseDups`). -/

namespace GoalCompiler

variable {α β : Type} {R : α → β → Prop}

/-! ## Repetitions -/

/-- Related lists stay related without their repetitions, if the relation keeps equality. -/
theorem forall₂_eraseDups [BEq α] [BEq β] {as : List α} {bs : List β}
    (hR : ∀ {a a' b b'}, R a b → R a' b' → (a == a') = (b == b')) (h : List.Forall₂ R as bs) :
    List.Forall₂ R as.eraseDups bs.eraseDups := by
  induction as using eraseDups_induction generalizing bs with
  | nil =>
    rw [List.forall₂_nil_left_iff.1 h]
    exact List.Forall₂.nil
  | cons a as ih =>
    obtain ⟨b, bs, hab, hrest, rfl⟩ := List.forall₂_cons_left_iff.1 h
    rw [List.eraseDups_cons, List.eraseDups_cons]
    refine List.Forall₂.cons hab (ih (List.rel_filter ?_ hrest))
    intro a' b' hab'
    show (!a' == a) = true ↔ (!b' == b) = true
    rw [hR hab' hab]

/-! ## Trees -/

namespace AndOr

/-- Trees of the same shape with related leaves. -/
inductive Related (R : α → β → Prop) : AndOr α → AndOr β → Prop
  | leaf {a b} (related : R a b) : Related R (.leaf a) (.leaf b)
  | all {ts us} (length : ts.length = us.length)
      (parts : ∀ {t u}, (t, u) ∈ ts.zip us → Related R t u) : Related R (.all ts) (.all us)
  | any {ts us} (length : ts.length = us.length)
      (parts : ∀ {t u}, (t, u) ∈ ts.zip us → Related R t u) : Related R (.any ts) (.any us)

theorem Related.all_of_forall₂ {ts : List (AndOr α)} {us : List (AndOr β)}
    (h : List.Forall₂ (Related R) ts us) : Related R (.all ts) (.all us) :=
  .all h.length_eq (List.forall₂_iff_zip.1 h).2

theorem Related.any_of_forall₂ {ts : List (AndOr α)} {us : List (AndOr β)}
    (h : List.Forall₂ (Related R) ts us) : Related R (.any ts) (.any us) :=
  .any h.length_eq (List.forall₂_iff_zip.1 h).2

theorem forall₂_product {left right : List (List α)} {left' right' : List (List β)}
    (hleft : List.Forall₂ (List.Forall₂ R) left left')
    (hright : List.Forall₂ (List.Forall₂ R) right right') :
    List.Forall₂ (List.Forall₂ R) (product left right) (product left' right') := by
  refine List.rel_flatMap hleft ?_
  intro l l' hl
  refine List.rel_map ?_ hright
  intro r r' hr
  exact List.rel_append hl hr

theorem forall₂_expansionAll {ts : List (AndOr α)} {us : List (AndOr β)}
    (h : List.Forall₂ (fun t u => List.Forall₂ (List.Forall₂ R) t.expansion u.expansion) ts us) :
    List.Forall₂ (List.Forall₂ R) (expansionAll ts) (expansionAll us) := by
  induction h with
  | nil => exact .cons .nil .nil
  | cons hfirst hrest ih => exact forall₂_product hfirst ih

theorem forall₂_expansionAny {ts : List (AndOr α)} {us : List (AndOr β)}
    (h : List.Forall₂ (fun t u => List.Forall₂ (List.Forall₂ R) t.expansion u.expansion) ts us) :
    List.Forall₂ (List.Forall₂ R) (expansionAny ts) (expansionAny us) := by
  induction h with
  | nil => exact .nil
  | cons hfirst hrest ih => exact List.rel_append hfirst ih

/-- **Related trees have related clauses.** -/
theorem Related.expansion {t : AndOr α} {u : AndOr β} (h : Related R t u) :
    List.Forall₂ (List.Forall₂ R) t.expansion u.expansion := by
  induction h with
  | leaf related => exact .cons (.cons related .nil) .nil
  | all length parts ih => exact forall₂_expansionAll (List.forall₂_iff_zip.2 ⟨length, ih⟩)
  | any length parts ih => exact forall₂_expansionAny (List.forall₂_iff_zip.2 ⟨length, ih⟩)

theorem Related.count_eq {t : AndOr α} {u : AndOr β} (h : Related R t u) : t.count = u.count := by
  rw [← length_expansion, ← length_expansion, h.expansion.length_eq]

theorem peakAll_eq_of_forall₂ {ts : List (AndOr α)} {us : List (AndOr β)}
    (h : List.Forall₂ (fun t u => t.count = u.count ∧ t.peak = u.peak) ts us) (n : Nat) :
    peakAll n ts = peakAll n us := by
  induction h generalizing n with
  | nil => rfl
  | cons hfirst hrest ih => rw [peakAll, peakAll, hfirst.1, hfirst.2, ih]

theorem peakAny_eq_of_forall₂ {ts : List (AndOr α)} {us : List (AndOr β)}
    (h : List.Forall₂ (fun t u => t.count = u.count ∧ t.peak = u.peak) ts us) (n : Nat) :
    peakAny n ts = peakAny n us := by
  induction h generalizing n with
  | nil => rfl
  | cons hfirst hrest ih => rw [peakAny, peakAny, hfirst.1, hfirst.2, ih]

/-- **Related trees have the same peak,** so they need the same limit. -/
theorem Related.peak_eq {t : AndOr α} {u : AndOr β} (h : Related R t u) : t.peak = u.peak := by
  induction h with
  | leaf related => rfl
  | all length parts ih =>
    refine peakAll_eq_of_forall₂ (List.forall₂_iff_zip.2 ⟨length, ?_⟩) 1
    intro t u htu
    exact ⟨(parts htu).count_eq, ih htu⟩
  | any length parts ih =>
    refine peakAny_eq_of_forall₂ (List.forall₂_iff_zip.2 ⟨length, ?_⟩) 0
    intro t u htu
    exact ⟨(parts htu).count_eq, ih htu⟩

end AndOr

end GoalCompiler
