import GoalCompiler.Proofs.Formula.SExpression
import GoalCompiler.Proofs.Numeral
import GoalCompiler.Proofs.Success
import Mathlib.Data.Sum.Basic

set_option autoImplicit false

/-! # Texts of first-order formulas

Blanks, dashes and parentheses stand for several things in the text of a formula: a dash is the sign
of an index or comes before the type of a variable, and between two variables there may be nothing,
a type or a list of types. `Formula.expression` gives the S-expression of a resolved first-order
formula. It has the same text (`Formula.IsFirstOrder.text_expression`) and determines the formula
(`Formula.IsFirstOrder.expression_inj`), so texts of different formulas differ
(`Formula.text_eq_text_iff`). -/

namespace GoalCompiler

/-- A formula of first-order logic: atoms, equalities and truth values below connectives and
    quantifiers. -/
inductive Formula.IsFirstOrder {σ : Type} : Formula σ → Prop
  | atom (head : Application σ) : IsFirstOrder (.atom head)
  | equality (arguments : List (Term σ)) : IsFirstOrder (.equality arguments)
  | constant (value : Bool) : IsFirstOrder (.constant value)
  | and {fs : List (Formula σ)} (children : ∀ f ∈ fs, IsFirstOrder f) : IsFirstOrder (.and fs)
  | or {fs : List (Formula σ)} (children : ∀ f ∈ fs, IsFirstOrder f) : IsFirstOrder (.or fs)
  | not {f : Formula σ} (body : IsFirstOrder f) : IsFirstOrder (.not f)
  | imply {l r : Formula σ} (left : IsFirstOrder l) (right : IsFirstOrder r) :
    IsFirstOrder (.imply l r)
  | quantified {f : Formula σ} (quantifier : Quantifier) (binders : List (TypedVariable σ))
    (body : IsFirstOrder f) : IsFirstOrder (.quantified quantifier binders f)

/-! ## Indices -/

theorem text_index_injective : Function.Injective (Symbol.text : Index → String) := by
  -- No digit is a dash, so a natural number is not taken for a negative one.
  have hsign (m n : Nat) : m.repr ≠ "-" ++ (n + 1).repr := by
    intro h
    have hdash : '-' ∈ m.repr.toList := by simp [h]
    exact absurd (isDigit_of_mem_repr hdash) (by decide)
  intro i j h
  cases i with
  | ofNat m =>
    cases j with
    | ofNat n => rw [repr_injective h]
    | negSucc n => exact absurd h (hsign m n)
  | negSucc m =>
    cases j with
    | ofNat n => exact absurd h.symm (hsign n m)
    | negSucc n =>
      have hrepr : (m + 1).repr = (n + 1).repr := (String.append_right_inj "-").1 h
      rw [Nat.succ.inj (repr_injective hrepr)]

/-- Whether a character can stand in the text of an index. -/
def isIndexChar (c : Char) : Bool := c.isDigit || c == '-'

theorem isWordChar_of_isIndexChar {c : Char} (h : isIndexChar c = true) : isWordChar c = true := by
  have hne (d : Char) (hd : isIndexChar d = false) : c ≠ d := by
    intro heq
    rw [heq, hd] at h
    exact absurd h (by decide)
  simp [isWordChar, hne ' ' rfl, hne '(' rfl, hne ')' rfl]

theorem isIndexChar_of_mem_repr {n : Nat} {c : Char} (hc : c ∈ n.repr.toList) :
    isIndexChar c = true := by
  rw [isIndexChar, isDigit_of_mem_repr hc, Bool.true_or]

theorem all_isIndexChar (i : Index) : (Symbol.text i).toList.all isIndexChar = true := by
  rw [List.all_eq_true]
  intro c hc
  cases i with
  | ofNat n => exact isIndexChar_of_mem_repr hc
  | negSucc n =>
    rcases List.mem_append.1 (String.toList_append ▸ hc) with hsign | hdigit
    · obtain rfl := List.mem_singleton.1 hsign
      rfl
    · exact isIndexChar_of_mem_repr hdigit

/-- An index as a word. -/
def indexWord (i : Index) : Word where
  text := Symbol.text i
  nonempty := by
    cases i with
    | ofNat n => exact Nat.repr_ne_empty
    | negSucc n => exact fun h => Nat.repr_ne_empty (String.append_eq_empty_iff.1 h).2
  plain := by
    rw [List.all_eq_true]
    intro c hc
    exact isWordChar_of_isIndexChar (List.all_eq_true.1 (all_isIndexChar i) c hc)

/-- A variable as a word. -/
def variableWord (i : Index) : Word where
  text := "?" ++ Symbol.text i
  nonempty := by simp
  plain := by
    rw [String.toList_append, List.all_append, Bool.and_eq_true]
    exact ⟨rfl, (indexWord i).plain⟩

theorem indexWord_injective : Function.Injective indexWord := by
  intro i j h
  exact text_index_injective (congrArg Word.text h)

theorem variableWord_injective : Function.Injective variableWord := by
  intro i j h
  exact text_index_injective ((String.append_right_inj "?").1 (congrArg Word.text h))

/-- A word with a character that is neither a digit nor a dash is no index. -/
theorem indexWord_ne {i : Index} {w : Word} (hw : w.text.toList.all isIndexChar = false) :
    indexWord i ≠ w := by
  rintro rfl
  rw [indexWord, all_isIndexChar] at hw
  exact absurd hw (by decide)

theorem indexWord_ne_variableWord (i j : Index) : indexWord i ≠ variableWord j := by
  refine indexWord_ne ?_
  rw [variableWord, String.toList_append, List.all_append]
  rfl

theorem variableWord_ne {i : Index} {w : Word} (hw : w.text.toList.head? ≠ some '?') :
    variableWord i ≠ w := by
  rintro rfl
  exact hw (by simp [variableWord])

/-! ## Terms and binders -/

def Term.word : Term Index → Word
  | .variable i => variableWord i
  | .constant i => indexWord i

theorem Term.text_word (t : Term Index) : t.word.text = t.text := by
  cases t <;> rfl

theorem Term.map_text_word (ts : List (Term Index)) :
    (ts.map fun t => SExpression.word t.word).map SExpression.text = ts.map Term.text := by
  rw [List.map_map]
  exact List.map_congr_left fun t _ => (SExpression.text_word t.word).trans t.text_word

theorem Term.word_injective : Function.Injective Term.word := by
  intro s t h
  cases s with
  | «variable» i =>
    cases t with
    | «variable» j => rw [variableWord_injective h]
    | constant j => exact absurd h.symm (indexWord_ne_variableWord j i)
  | constant i =>
    cases t with
    | «variable» j => exact absurd h (indexWord_ne_variableWord i j)
    | constant j => rw [indexWord_injective h]

theorem Term.map_word_injective :
    Function.Injective fun ts : List (Term Index) => ts.map fun t => SExpression.word t.word := by
  refine List.map_injective_iff.2 ?_
  intro s t h
  exact Term.word_injective (SExpression.word.inj h)

namespace TypedVariable

/-- A type or a union of types. -/
def typeExpression? : List Index → Option SExpression
  | [] => none
  | [type] => some (.word (indexWord type))
  | types => some (.operation { text := "either" } (types.map fun type => .word (indexWord type)))

/-- A dash and the type, for a variable that has one. -/
def dashed : Option SExpression → List SExpression
  | none => []
  | some type => [.word { text := "-" }, type]

def expressions (v : TypedVariable Index) : List SExpression :=
  .word (variableWord v.name) :: dashed (typeExpression? v.types)

theorem spaced_dashed (type : SExpression) :
    spaced ((dashed (some type)).map SExpression.text) = " - " ++ type.text := by
  rw [dashed, List.map_cons, List.map_singleton, spaced_cons, spaced_cons,
    SExpression.text_word, ← String.append_assoc, ← String.append_assoc]
  exact String.append_empty

theorem spaced_expressions (v : TypedVariable Index) :
    spaced (v.expressions.map SExpression.text) = " " ++ v.text := by
  obtain ⟨name, types⟩ := v
  rw [expressions, List.map_cons, spaced_cons, String.append_assoc, SExpression.text_word]
  match types with
  | [] => rfl
  | [type] =>
    rw [typeExpression?, spaced_dashed, SExpression.text_word]
    rfl
  | type :: second :: types =>
    have htype : typeExpression? (type :: second :: types) =
        some (.operation { text := "either" }
          ((type :: second :: types).map fun type => .word (indexWord type))) := rfl
    rw [htype, spaced_dashed, SExpression.text_operation, List.map_map]
    simp only [Function.comp_def, SExpression.text_word]
    rfl

theorem spaced_flatMap_expressions (vs : List (TypedVariable Index)) :
    spaced ((vs.flatMap expressions).map SExpression.text) = spaced (vs.map text) := by
  induction vs with
  | nil => rfl
  | cons v vs ih =>
    rw [List.map_cons, List.flatMap_cons, List.map_append, spaced_append, spaced_cons, ih,
      spaced_expressions]

theorem text_binders (vs : List (TypedVariable Index)) :
    (SExpression.list (vs.flatMap expressions)).text =
      "(" ++ " ".intercalate (vs.map text) ++ ")" := by
  have htexts : " ".intercalate ((vs.flatMap expressions).map SExpression.text) =
      " ".intercalate (vs.map text) := by
    rw [← String.toList_inj, toList_intercalate, toList_intercalate, spaced_flatMap_expressions]
  rw [SExpression.text, SExpression.texts_eq_map, htexts]

theorem typeExpression?_injective : Function.Injective typeExpression? := by
  intro types types' h
  have hword : Function.Injective fun type => SExpression.word (indexWord type) := by
    intro i j heq
    exact indexWord_injective (SExpression.word.inj heq)
  match types, types', h with
  | [], [], _ => rfl
  | [type], [type'], h => rw [hword (Option.some.inj h)]
  | type :: second :: types, type' :: second' :: types', h =>
    obtain ⟨-, hmap⟩ := SExpression.operation_inj.1 (Option.some.inj h)
    exact List.map_injective_iff.2 hword hmap
  | [], [_], h | [], _ :: _ :: _, h | [_], [], h | _ :: _ :: _, [], h => cases h
  | [_], _ :: _ :: _, h | _ :: _ :: _, [_], h => cases Option.some.inj h

/-- A dashed type ends where nothing or the next variable follows. -/
theorem dashed_append_inj {type? type?' : Option SExpression} {es es' : List SExpression}
    (hes : es.head? ≠ some (.word { text := "-" }))
    (hes' : es'.head? ≠ some (.word { text := "-" }))
    (h : dashed type? ++ es = dashed type?' ++ es') : type? = type?' ∧ es = es' := by
  cases type? with
  | none =>
    cases type?' with
    | none => exact ⟨rfl, h⟩
    | some type' => exact absurd (congrArg List.head? h) hes
  | some type =>
    cases type?' with
    | none => exact absurd (congrArg List.head? h.symm) hes'
    | some type' =>
      obtain ⟨htype, hrest⟩ := List.cons.inj (List.cons.inj h).2
      exact ⟨by rw [htype], hrest⟩

theorem head?_flatMap_expressions_ne (vs : List (TypedVariable Index)) :
    (vs.flatMap expressions).head? ≠ some (.word { text := "-" }) := by
  intro h
  cases vs with
  | nil => exact absurd h (by simp)
  | cons v vs =>
    have hword : variableWord v.name = { text := "-" } :=
      SExpression.word.inj (Option.some.inj h)
    exact absurd hword (variableWord_ne (by decide))

/-- Binders are read from the left: a variable, what is known of its type, and the others. -/
theorem flatMap_expressions_injective :
    Function.Injective fun vs : List (TypedVariable Index) => vs.flatMap expressions := by
  intro vs vs' h
  simp only at h
  induction vs generalizing vs' with
  | nil =>
    cases vs' with
    | nil => rfl
    | cons v' vs' => exact absurd h (by simp [expressions])
  | cons v vs ih =>
    cases vs' with
    | nil => exact absurd h (by simp [expressions])
    | cons v' vs' =>
      rw [List.flatMap_cons, List.flatMap_cons] at h
      obtain ⟨hname, hrest⟩ := List.cons.inj h
      obtain ⟨htypes, hvs⟩ := dashed_append_inj (head?_flatMap_expressions_ne vs)
        (head?_flatMap_expressions_ne vs') hrest
      have hv : v = v' := by
        cases v
        cases v'
        rw [mk.injEq]
        exact ⟨variableWord_injective (SExpression.word.inj hname),
          typeExpression?_injective htypes⟩
      rw [hv, ih hvs]

end TypedVariable

/-! ## Connectives -/

/-- What a parenthesised formula that is no atom starts with. -/
inductive Connective
  | equality
  | and
  | or
  | not
  | imply
  | quantifier (q : Quantifier)
deriving DecidableEq

namespace Connective

def keyword : Connective → String
  | equality => "="
  | and => "and"
  | or => "or"
  | not => "not"
  | imply => "imply"
  | quantifier q => q.keyword

instance : Keyworded Connective where
  all := [equality, and, or, not, imply] ++ Keyworded.all.map quantifier
  keyword := keyword
  find?_keyword k := by
    rcases k with _ | _ | _ | _ | _ | (_ | _) <;> decide

def word (k : Connective) : Word where
  text := k.keyword
  nonempty := by rcases k with _ | _ | _ | _ | _ | (_ | _) <;> decide
  plain := by rcases k with _ | _ | _ | _ | _ | (_ | _) <;> decide

theorem word_injective : Function.Injective word := by
  intro k l h
  have hkeyword : Keyworded.keyword k = Keyworded.keyword l := congrArg Word.text h
  have hfound := congrArg (ofKeyword? (α := Connective)) hkeyword
  rw [ofKeyword?_keyword, ofKeyword?_keyword] at hfound
  exact Option.some.inj hfound

end Connective

/-- What a parenthesised formula starts with: the predicate of an atom, or a connective. -/
def headWord : Index ⊕ Connective → Word := Sum.elim indexWord Connective.word

/-- The predicate of an atom is an index, and no keyword of a connective is. -/
theorem headWord_injective : Function.Injective headWord := by
  refine indexWord_injective.sumElim Connective.word_injective ?_
  intro i k
  refine indexWord_ne ?_
  rcases k with _ | _ | _ | _ | _ | (_ | _) <;> decide

@[simp]
theorem headWord_inj {a b : Index ⊕ Connective} : headWord a = headWord b ↔ a = b :=
  headWord_injective.eq_iff

/-! ## Formulas -/

namespace Formula

def constantWord : Bool → Word
  | true => { text := "true" }
  | false => { text := "false" }

theorem constantWord_injective : Function.Injective constantWord := by
  unfold Function.Injective
  decide

mutual

/-- A first-order formula as an S-expression. -/
def expression : Formula Index → SExpression
  | atom head => .operation (headWord (.inl head.symbol)) (head.arguments.map fun t => .word t.word)
  | equality arguments =>
    .operation (headWord (.inr .equality)) (arguments.map fun t => .word t.word)
  | constant value => .word (constantWord value)
  | and fs => .operation (headWord (.inr .and)) (expressions fs)
  | or fs => .operation (headWord (.inr .or)) (expressions fs)
  | not f => .operation (headWord (.inr .not)) [f.expression]
  | imply l r => .operation (headWord (.inr .imply)) [l.expression, r.expression]
  | quantified q vs f =>
    .operation (headWord (.inr (.quantifier q)))
      [.list (vs.flatMap TypedVariable.expressions), f.expression]
  | _ => .list []

def expressions : List (Formula Index) → List SExpression
  | [] => []
  | f :: fs => f.expression :: expressions fs

end

theorem expressions_eq_map (fs : List (Formula Index)) : expressions fs = fs.map expression := by
  induction fs with
  | nil => rfl
  | cons f fs ih => rw [expressions, ih, List.map_cons]

theorem texts_eq_map {σ : Type} [Symbol σ] (fs : List (Formula σ)) : texts fs = fs.map text := by
  induction fs with
  | nil => rfl
  | cons f fs ih => rw [texts, ih, List.map_cons]

namespace IsFirstOrder

/-- The S-expression of a first-order formula has the text of the formula. -/
theorem text_expression {f : Formula Index} (hf : f.IsFirstOrder) :
    f.expression.text = f.text := by
  induction hf with
  | atom head =>
    rw [expression, SExpression.text_operation, Term.map_text_word]
    rfl
  | equality arguments =>
    rw [expression, SExpression.text_operation, Term.map_text_word, text]
    rfl
  | constant value =>
    cases value with
    | true =>
      rw [expression, SExpression.text_word, text]
      rfl
    | false =>
      rw [expression, SExpression.text_word, text]
      rfl
  | @and fs hfs ih | @or fs hfs ih =>
    have hmembers : (fs.map expression).map SExpression.text = fs.map text := by
      rw [List.map_map]
      exact List.map_congr_left ih
    rw [expression, SExpression.text_operation, expressions_eq_map, hmembers, text, texts_eq_map]
    rfl
  | not hf ih =>
    rw [expression, SExpression.text_operation, List.map_singleton, ih, text]
    rfl
  | imply hl hr ihl ihr =>
    rw [expression, SExpression.text_operation, List.map_cons, List.map_singleton, ihl, ihr, text]
    rfl
  | quantified q vs hf ih =>
    rw [expression, SExpression.text_operation, List.map_cons, List.map_singleton,
      TypedVariable.text_binders, ih, text]
    rfl

/-- A first-order formula is determined by its S-expression. -/
theorem expression_inj {f g : Formula Index} (hf : f.IsFirstOrder) (hg : g.IsFirstOrder)
    (h : f.expression = g.expression) : f = g := by
  induction hf generalizing g with
  | atom head =>
    cases hg with
    | atom head' =>
      rw [expression, expression, SExpression.operation_inj] at h
      have hsymbol : head.symbol = head'.symbol := Sum.inl.inj (headWord_inj.1 h.1)
      have harguments : head.arguments = head'.arguments := Term.map_word_injective h.2
      cases head
      cases head'
      rw [atom.injEq, Application.mk.injEq]
      exact ⟨hsymbol, harguments⟩
    -- The first word tells an atom from the others, and these from each other.
    | _ => simp [expression] at h
  | equality arguments =>
    cases hg with
    | equality arguments' =>
      rw [expression, expression, SExpression.operation_inj] at h
      rw [Term.map_word_injective h.2]
    | _ => simp [expression] at h
  | constant value =>
    cases hg with
    | constant value' =>
      rw [expression, expression, SExpression.word.injEq] at h
      rw [constantWord_injective h]
    | _ => simp [expression] at h
  | and hfs ih =>
    cases hg with
    | and hgs =>
      rw [expression, expression, SExpression.operation_inj, expressions_eq_map,
        expressions_eq_map] at h
      rw [eq_of_map_eq_map h.2 fun f hf g hg => ih f hf (hgs g hg)]
    | _ => simp [expression] at h
  | or hfs ih =>
    cases hg with
    | or hgs =>
      rw [expression, expression, SExpression.operation_inj, expressions_eq_map,
        expressions_eq_map] at h
      rw [eq_of_map_eq_map h.2 fun f hf g hg => ih f hf (hgs g hg)]
    | _ => simp [expression] at h
  | not hf ih =>
    cases hg with
    | not hg =>
      rw [expression, expression, SExpression.operation_inj, List.cons.injEq] at h
      rw [ih hg h.2.1]
    | _ => simp [expression] at h
  | imply hl hr ihl ihr =>
    cases hg with
    | imply hl' hr' =>
      rw [expression, expression, SExpression.operation_inj, List.cons.injEq, List.cons.injEq] at h
      rw [ihl hl' h.2.1, ihr hr' h.2.2.1]
    | _ => simp [expression] at h
  | quantified q vs hf ih =>
    cases hg with
    | quantified q' vs' hg =>
      rw [expression, expression, SExpression.operation_inj, List.cons.injEq, List.cons.injEq,
        SExpression.list.injEq] at h
      obtain ⟨hhead, hbinders, hbody, -⟩ := h
      have hquantifier : q = q' :=
        Connective.quantifier.inj (Sum.inr.inj (headWord_inj.1 hhead))
      rw [hquantifier, TypedVariable.flatMap_expressions_injective hbinders, ih hg hbody]
    | _ => simp [expression] at h

end IsFirstOrder

/-- **The text of a resolved first-order formula determines the formula.** -/
theorem text_eq_text_iff {f g : Formula Index} (hf : f.IsFirstOrder) (hg : g.IsFirstOrder) :
    f.text = g.text ↔ f = g := by
  refine ⟨?_, ?_⟩
  · intro h
    have htext : f.expression.text = g.expression.text := by
      rw [hf.text_expression, hg.text_expression, h]
    exact hf.expression_inj hg (SExpression.text_inj htext)
  · intro h
    rw [h]

/-- The dash before a type binds to the variable before it. -/
theorem text_eq_text_iff_types :
    let body : Formula Index := .not (.atom ⟨0, [.variable (-1), .constant 3]⟩)
    let f : Formula Index := .quantified .universal [⟨-1, [3]⟩, ⟨-2, []⟩] body
    let g : Formula Index := .quantified .universal [⟨-1, []⟩, ⟨-2, [3]⟩] body
    f.IsFirstOrder ∧ g.IsFirstOrder ∧ f.text = "(forall (?-1 - 3 ?-2) (not (0 ?-1 3)))" ∧
      g.text = "(forall (?-1 ?-2 - 3) (not (0 ?-1 3)))" ∧ f.text ≠ g.text := by
  intro body f g
  have hbody : body.IsFirstOrder := .not (.atom _)
  have hf : f.IsFirstOrder := .quantified _ _ hbody
  have hg : g.IsFirstOrder := .quantified _ _ hbody
  refine ⟨hf, hg, rfl, rfl, ?_⟩
  intro h
  have heq : f = g := (text_eq_text_iff hf hg).1 h
  simp [f, g] at heq

end Formula

end GoalCompiler
