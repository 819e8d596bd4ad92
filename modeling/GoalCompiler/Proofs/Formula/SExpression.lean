import GoalCompiler.Formula.Printer
import Mathlib.Data.List.TakeWhile

set_option autoImplicit false

/-! # S-expressions

The text of a formula is that of an S-expression: a word, or a list of S-expressions in parentheses.
Words have no blanks and no parentheses, so a word ends where one of these follows, and the text of
an S-expression determines it and what comes after it (`SExpression.text_append_inj`). -/

namespace GoalCompiler

/-- Whether a character can stand in a word: it is no blank and no parenthesis. -/
def isWordChar (c : Char) : Bool := c != ' ' && c != '(' && c != ')'

/-- A text that is read as one piece. -/
structure Word where
  text : String
  nonempty : text ≠ "" := by decide
  plain : text.toList.all isWordChar = true := by decide
deriving DecidableEq

inductive SExpression
  | word (w : Word)
  | list (es : List SExpression)

/-- Whether a word that stands before the text ends there. -/
def EndsWord (s : List Char) : Prop := ∀ c ∈ s.head?, isWordChar c = false

/-! ## Spaced texts -/

theorem spaced_cons (t : String) (ts : List String) :
    spaced (t :: ts) = " " ++ t ++ spaced ts := by
  rw [spaced, List.map_cons, String.join_cons, ← spaced]

theorem spaced_append (ts us : List String) : spaced (ts ++ us) = spaced ts ++ spaced us := by
  induction ts with
  | nil => simp [spaced]
  | cons t ts ih =>
    rw [List.cons_append, spaced_cons, spaced_cons, ih]
    simp only [String.append_assoc]

theorem intercalate_cons (t : String) (ts : List String) :
    " ".intercalate (t :: ts) = t ++ spaced ts := by
  induction ts generalizing t with
  | nil => simp [spaced]
  | cons u ts ih =>
    rw [String.intercalate_cons_cons, ih, spaced_cons]
    simp only [String.append_assoc]

/-- Texts between which blanks stand, in place of texts after blanks. -/
theorem toList_intercalate (ts : List String) :
    (" ".intercalate ts).toList = (spaced ts).toList.tail := by
  cases ts with
  | nil => simp [spaced]
  | cons t ts =>
    rw [intercalate_cons, spaced_cons, String.append_assoc]
    simp

/-! ## Words -/

theorem Word.ext {v w : Word} (h : v.text = w.text) : v = w := by
  cases v
  cases w
  cases h
  rfl

/-- A word reaches as far as the characters of words. -/
theorem Word.takeWhile_append (w : Word) {s : List Char} (hs : EndsWord s) :
    (w.text.toList ++ s).takeWhile isWordChar = w.text.toList := by
  rw [List.takeWhile_append_of_pos (List.all_eq_true.1 w.plain)]
  cases s with
  | nil => simp
  | cons c s => simp [hs c rfl]

theorem Word.text_append_inj {v w : Word} {s s' : List Char} (hs : EndsWord s) (hs' : EndsWord s')
    (h : v.text.toList ++ s = w.text.toList ++ s') : v = w ∧ s = s' := by
  have hwords := congrArg (List.takeWhile isWordChar) h
  rw [v.takeWhile_append hs, w.takeWhile_append hs'] at hwords
  obtain rfl : v = w := Word.ext (String.toList_inj.1 hwords)
  exact ⟨rfl, List.append_cancel_left h⟩

theorem Word.text_append_ne_cons (w : Word) {c : Char} {s s' : List Char}
    (hc : isWordChar c = false) : w.text.toList ++ s ≠ c :: s' := by
  have hplain := w.plain
  cases h : w.text.toList with
  | nil => exact absurd (String.toList_eq_nil_iff.1 h) w.nonempty
  | cons d ds =>
    rw [h, List.all_cons, Bool.and_eq_true] at hplain
    intro heq
    obtain rfl := (List.cons.inj heq).1
    exact absurd hplain.1 (by simp [hc])

namespace SExpression

/-! ## Text -/

mutual

def text : SExpression → String
  | word w => w.text
  | list es => "(" ++ " ".intercalate (texts es) ++ ")"

def texts : List SExpression → List String
  | [] => []
  | e :: es => e.text :: texts es

end

/-- A keyword with its operands in parentheses. -/
def operation (keyword : Word) (operands : List SExpression) : SExpression :=
  list (word keyword :: operands)

@[simp]
theorem operation_inj {v w : Word} {ds es : List SExpression} :
    operation v ds = operation w es ↔ v = w ∧ ds = es := by
  simp [operation]

@[simp]
theorem operation_ne_word {v w : Word} {es : List SExpression} : operation v es ≠ word w := by
  simp [operation]

@[simp]
theorem word_ne_operation {v w : Word} {es : List SExpression} : word w ≠ operation v es :=
  operation_ne_word.symm

theorem texts_eq_map (es : List SExpression) : texts es = es.map text := by
  induction es with
  | nil => rfl
  | cons e es ih => rw [texts, ih, List.map_cons]

theorem text_word (w : Word) : (word w).text = w.text := by
  rw [text]

theorem text_operation (w : Word) (es : List SExpression) :
    (operation w es).text = parenthesized w.text (es.map text) := by
  rw [operation, text, texts, intercalate_cons, texts_eq_map, text_word, parenthesized,
    ← String.append_assoc]

/-! ## Injectivity -/

/-- The text of the members of a list from the second on, the end of the list and what follows. -/
def rest (es : List SExpression) (s : List Char) : List Char :=
  (spaced (es.map text)).toList ++ ')' :: s

theorem rest_nil (s : List Char) : rest [] s = ')' :: s := by
  simp [rest, spaced]

theorem rest_cons (e : SExpression) (es : List SExpression) (s : List Char) :
    rest (e :: es) s = ' ' :: (e.text.toList ++ rest es s) := by
  simp [rest, spaced_cons]

theorem endsWord_rest (es : List SExpression) (s : List Char) : EndsWord (rest es s) := by
  intro c hc
  cases es with
  | nil =>
    rw [rest_nil] at hc
    obtain rfl := Option.some.inj hc
    rfl
  | cons e es =>
    rw [rest_cons] at hc
    obtain rfl := Option.some.inj hc
    rfl

theorem text_nil_append (s : List Char) : (list []).text.toList ++ s = '(' :: ')' :: s := by
  simp [text, texts]

theorem text_cons_append (e : SExpression) (es : List SExpression) (s : List Char) :
    (list (e :: es)).text.toList ++ s = '(' :: (e.text.toList ++ rest es s) := by
  simp [text, texts, intercalate_cons, texts_eq_map, rest]

theorem exists_text_append_eq (es : List SExpression) (s : List Char) :
    ∃ cs, (list es).text.toList ++ s = '(' :: cs := by
  cases es with
  | nil => exact ⟨_, text_nil_append s⟩
  | cons e es => exact ⟨_, text_cons_append e es s⟩

theorem text_append_ne_close (e : SExpression) {s s' : List Char} :
    e.text.toList ++ s ≠ ')' :: s' := by
  cases e with
  | word w => exact w.text_append_ne_cons rfl
  | list es =>
    obtain ⟨cs, htext⟩ := exists_text_append_eq es s
    rw [htext]
    intro h
    exact absurd (List.cons.inj h).1 (by decide)

mutual

/-- **The text of an S-expression determines it**, and what comes after it if words end there. -/
theorem text_append_inj {s s' : List Char} (hs : EndsWord s) (hs' : EndsWord s') :
    ∀ {e e' : SExpression}, e.text.toList ++ s = e'.text.toList ++ s' → e = e' ∧ s = s'
  | word v, word w, h => by
    obtain ⟨rfl, hrest⟩ := Word.text_append_inj hs hs' h
    exact ⟨rfl, hrest⟩
  | word v, list es, h => by
    obtain ⟨cs, htext⟩ := exists_text_append_eq es s'
    exact absurd (h.trans htext) (v.text_append_ne_cons rfl)
  | list es, word w, h => by
    obtain ⟨cs, htext⟩ := exists_text_append_eq es s
    exact absurd (h.symm.trans htext) (w.text_append_ne_cons rfl)
  | list [], list [], h => by
    rw [text_nil_append, text_nil_append] at h
    exact ⟨rfl, (List.cons.inj (List.cons.inj h).2).2⟩
  | list [], list (e' :: es'), h => by
    rw [text_nil_append, text_cons_append] at h
    exact absurd (List.cons.inj h).2.symm e'.text_append_ne_close
  | list (e :: es), list [], h => by
    rw [text_nil_append, text_cons_append] at h
    exact absurd (List.cons.inj h).2 e.text_append_ne_close
  | list (e :: es), list (e' :: es'), h => by
    rw [text_cons_append, text_cons_append] at h
    have hmembers : rest (e :: es) s = rest (e' :: es') s' := by
      rw [rest_cons, rest_cons, (List.cons.inj h).2]
    obtain ⟨hes, hs⟩ := rest_inj hmembers
    exact ⟨by rw [hes], hs⟩

/-- The same for the members of a list. Each of them ends where a blank or the end of the list
    follows. -/
theorem rest_inj {s s' : List Char} :
    ∀ {es es' : List SExpression}, rest es s = rest es' s' → es = es' ∧ s = s'
  | [], [], h => by
    rw [rest_nil, rest_nil] at h
    exact ⟨rfl, (List.cons.inj h).2⟩
  | [], e' :: es', h => by
    rw [rest_nil, rest_cons] at h
    exact absurd (List.cons.inj h).1 (by decide)
  | e :: es, [], h => by
    rw [rest_nil, rest_cons] at h
    exact absurd (List.cons.inj h).1 (by decide)
  | e :: es, e' :: es', h => by
    rw [rest_cons, rest_cons] at h
    obtain ⟨rfl, hrest⟩ :=
      text_append_inj (endsWord_rest es s) (endsWord_rest es' s') (List.cons.inj h).2
    obtain ⟨rfl, hs⟩ := rest_inj hrest
    exact ⟨rfl, hs⟩

end

theorem text_inj {e e' : SExpression} (h : e.text = e'.text) : e = e' := by
  have hend : EndsWord [] := fun c hc => absurd hc (by simp)
  exact (text_append_inj hend hend (by rw [h])).1

end SExpression

end GoalCompiler
