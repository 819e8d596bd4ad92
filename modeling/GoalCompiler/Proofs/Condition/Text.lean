import GoalCompiler.Condition
import GoalCompiler.Proofs.Numeral

set_option autoImplicit false

/-! # Texts of fluent sets and conditions

The text of a fluent set is the list of its members in braces. A number ends where no digit follows,
and the list ends at the brace, so the text determines the set and what comes after it
(`FluentSet.text_append_inj`). The text of a condition has two sets in it and then its constraints,
so it tells which fluents are required and which are forbidden (`Condition.text_inj`). -/

namespace GoalCompiler

/-! ## Fluent sets -/

namespace FluentSet

/-- What follows the first of the listed members, up to the brace and behind it. -/
def textAfter (xs : List FluentId) (s : List Char) : List Char :=
  xs.flatMap (fun x => ", ".toList ++ x.repr.toList) ++ '}' :: s

theorem textAfter_nil (s : List Char) : textAfter [] s = '}' :: s := rfl

theorem textAfter_cons (x : FluentId) (xs : List FluentId) (s : List Char) :
    textAfter (x :: xs) s = ", ".toList ++ (x.repr.toList ++ textAfter xs s) := by
  simp only [textAfter, List.flatMap_cons, List.append_assoc]

theorem endsNumber_textAfter (xs : List FluentId) (s : List Char) :
    EndsNumber (textAfter xs s) := by
  cases xs with
  | nil => simp [EndsNumber, textAfter_nil]
  | cons x xs => simp [EndsNumber, textAfter_cons]

theorem textAfter_inj {xs ys : List FluentId} {s t : List Char}
    (h : textAfter xs s = textAfter ys t) : xs = ys ∧ s = t := by
  induction xs generalizing ys with
  | nil =>
    cases ys with
    | nil => exact ⟨rfl, (List.cons.inj h).2⟩
    | cons y ys => simp [textAfter_nil, textAfter_cons] at h
  | cons x xs ih =>
    cases ys with
    | nil => simp [textAfter_nil, textAfter_cons] at h
    | cons y ys =>
      rw [textAfter_cons, textAfter_cons] at h
      obtain ⟨rfl, hrest⟩ := repr_append_inj (endsNumber_textAfter xs s)
        (endsNumber_textAfter ys t) (List.append_cancel_left h)
      obtain ⟨rfl, rfl⟩ := ih hrest
      exact ⟨rfl, rfl⟩

/-- The listed members, up to the brace and behind it. -/
def textFrom (xs : List FluentId) (s : List Char) : List Char :=
  match xs with
  | [] => '}' :: s
  | x :: xs => x.repr.toList ++ textAfter xs s

theorem textFrom_inj {xs ys : List FluentId} {s t : List Char}
    (h : textFrom xs s = textFrom ys t) : xs = ys ∧ s = t := by
  -- The brace comes at once, or else a digit does.
  cases xs with
  | nil =>
    cases ys with
    | nil => exact ⟨rfl, (List.cons.inj h).2⟩
    | cons y ys => exact absurd h.symm (repr_append_ne_cons y rfl)
  | cons x xs =>
    cases ys with
    | nil => exact absurd h (repr_append_ne_cons x rfl)
    | cons y ys =>
      obtain ⟨rfl, hrest⟩ :=
        repr_append_inj (endsNumber_textAfter xs s) (endsNumber_textAfter ys t) h
      obtain ⟨rfl, rfl⟩ := textAfter_inj hrest
      exact ⟨rfl, rfl⟩

theorem toList_intercalate_append (xs : List FluentId) (s : List Char) :
    (", ".intercalate (xs.map Nat.repr)).toList ++ '}' :: s = textFrom xs s := by
  cases xs with
  | nil => simp [textFrom]
  | cons x xs =>
    induction xs generalizing x with
    | nil => simp [textFrom, textAfter_nil]
    | cons y ys ih =>
      calc (", ".intercalate ((x :: y :: ys).map Nat.repr)).toList ++ '}' :: s
        _ = x.repr.toList ++ (", ".toList ++
            ((", ".intercalate ((y :: ys).map Nat.repr)).toList ++ '}' :: s)) := by
          simp only [List.map_cons, String.intercalate_cons_cons, String.toList_append,
            List.append_assoc]
        _ = x.repr.toList ++ (", ".toList ++ textFrom (y :: ys) s) := by rw [ih]
        _ = textFrom (x :: y :: ys) s := by rw [textFrom, textFrom, textAfter_cons]

/-- **The text of a set determines the set and what comes after it.** -/
theorem text_append_inj {s t : FluentSet} {u v : List Char}
    (h : s.text.toList ++ u = t.text.toList ++ v) : s = t ∧ u = v := by
  have htext (s : FluentSet) (u : List Char) :
      s.text.toList ++ u = '{' :: textFrom s.members u := by
    rw [text, toList_braced, List.cons_append, List.append_assoc, List.singleton_append,
      toList_intercalate_append]
  rw [htext, htext] at h
  obtain ⟨hmembers, rfl⟩ := textFrom_inj (List.cons.inj h).2
  refine ⟨ext_mem fun x => ?_, rfl⟩
  rw [mem_iff, mem_iff, hmembers]

theorem text_inj {s t : FluentSet} : s.text = t.text ↔ s = t := by
  constructor
  · intro h
    exact (text_append_inj (u := []) (v := []) (by rw [h])).1
  · exact congrArg text

end FluentSet

/-! ## Conditions -/

/-- The constraints in the text of a condition. -/
def NumericConstraint.texts (ks : List NumericConstraint) : String :=
  String.join (ks.map (", " ++ ·.text))

/-- **Conditions print alike exactly if they require the same fluents, forbid the same fluents and
    have constraints that print alike.** -/
theorem Condition.text_inj {c d : Condition} :
    c.text = d.text ↔ c.positive = d.positive ∧ c.negative = d.negative ∧
      NumericConstraint.texts c.numeric = NumericConstraint.texts d.numeric := by
  have htext (c : Condition) : c.text.toList = "pos: ".toList ++ (c.positive.text.toList ++
      (", neg: ".toList ++ (c.negative.text.toList ++
        (NumericConstraint.texts c.numeric).toList))) := by
    simp only [text, NumericConstraint.texts, String.toList_append, List.append_assoc]
  rw [← String.toList_inj, htext, htext]
  constructor
  · intro h
    obtain ⟨hpositive, hrest⟩ := FluentSet.text_append_inj (List.append_cancel_left h)
    obtain ⟨hnegative, hnumeric⟩ := FluentSet.text_append_inj (List.append_cancel_left hrest)
    exact ⟨hpositive, hnegative, String.toList_inj.1 hnumeric⟩
  · rintro ⟨hpositive, hnegative, hnumeric⟩
    rw [hpositive, hnegative, hnumeric]

end GoalCompiler
