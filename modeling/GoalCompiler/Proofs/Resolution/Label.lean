import GoalCompiler.Proofs.Resolution.NormalForm
import Mathlib.Data.Nat.Digits.Defs
import Mathlib.Tactic.Ring

set_option autoImplicit false

/-! # What labels stand for

Two kinds of names are read as more than a name. The label of declared types is looked up in the
table of types in their place. It is a list of names with `~` between them, so types without that
character are read back from it (`splitOn_typeLabel?`), and declarations with different types never
share an entry (`typeLabel?_separates`).

The label of a task occurrence is a number behind a character. `OccurrenceLabel.Numbers` says which
number, in terms of its decimal digits, and resolution gives it exactly if it is an index
(`resolveLabel_iff_numbers`). -/

namespace GoalCompiler

/-! ## Labels of types -/

/-- The names that the label of some types is put together from. -/
def labelParts : List Name → List Name
  | [type] => [type]
  | types => "either" :: types

/-- Putting a name behind a label is joining it to the names of the label. -/
theorem toList_foldl_label (types : List Name) (label : Name) :
    (types.foldl (fun label type => label ++ "~" ++ type) label).toList =
      ['~'].intercalate (label.toList :: types.map String.toList) := by
  induction types generalizing label with
  | nil => simp
  | cons type types ih =>
    rw [List.foldl_cons, ih, List.map_cons, List.intercalate_cons_cons]
    cases types <;> simp

/-- The label has its parts between the tildes. -/
theorem toList_typeLabel? {types : List Name} {label : Name} (h : typeLabel? types = some label) :
    label.toList = ['~'].intercalate ((labelParts types).map String.toList) := by
  match types, h with
  | [type], h =>
    cases h
    simp [labelParts]
  | first :: second :: types, h =>
    cases h
    exact toList_foldl_label (first :: second :: types) "either"

theorem splitOn_typeLabel? {types : List Name} {label : Name}
    (hplain : ∀ type ∈ types, '~' ∉ type.toList) (h : typeLabel? types = some label) :
    label.toList.splitOn '~' = (labelParts types).map String.toList := by
  have hparts : ∀ part ∈ labelParts types, '~' ∉ part.toList := by
    unfold labelParts
    split
    · exact hplain
    · exact List.forall_mem_cons.2 ⟨by decide, hplain⟩
  rw [toList_typeLabel? h]
  refine List.splitOn_intercalate '~' ?_ ?_
  · simpa using hparts
  · unfold labelParts
    split <;> simp

/-- A single type has one part, and a union has three or more. -/
theorem labelParts_inj {as bs : List Name} (has : as ≠ []) (hbs : bs ≠ [])
    (h : labelParts as = labelParts bs) : as = bs := by
  match as, bs with
  | [a], [b] => exact h
  | [a], b :: b' :: bs => exact absurd (congrArg List.length h) (by simp [labelParts])
  | a :: a' :: as, [b] => exact absurd (congrArg List.length h) (by simp [labelParts])
  | a :: a' :: as, b :: b' :: bs => exact (List.cons.inj h).2

theorem typeLabel?_eq_none_iff {types : List Name} : typeLabel? types = none ↔ types = [] := by
  match types with
  | [] => simp [typeLabel?]
  | [type] => simp [typeLabel?]
  | first :: second :: types => simp [typeLabel?]

theorem typeLabel?_inj {as bs : List Name} (has : ∀ a ∈ as, '~' ∉ a.toList)
    (hbs : ∀ b ∈ bs, '~' ∉ b.toList) (h : typeLabel? as = typeLabel? bs) : as = bs := by
  cases hlabel : typeLabel? bs with
  | none => rw [typeLabel?_eq_none_iff.1 hlabel, typeLabel?_eq_none_iff.1 (h.trans hlabel)]
  | some label =>
    have hlabel' : typeLabel? as = some label := h.trans hlabel
    have hparts : (labelParts as).map String.toList = (labelParts bs).map String.toList :=
      (splitOn_typeLabel? has hlabel').symm.trans (splitOn_typeLabel? hbs hlabel)
    have hne {types : List Name} (h : typeLabel? types = some label) : types ≠ [] := by
      rintro rfl
      exact absurd h (by simp [typeLabel?])
    exact labelParts_inj (hne hlabel') (hne hlabel)
      (eq_of_map_eq_map hparts fun _ _ _ _ => String.toList_injective)

/-- Whether a variable gets the type from the table when a quantifier that declares it first is
    resolved, in some scope and at some depth. Each of the other variables of a quantifier is
    declared first by the quantifier over those that are left. -/
def Problem.GivesType (p : Problem) (v : TypedVariable Name) (type : Index) : Prop :=
  ∃ (config : Config) (scope : List Name) (depth : Nat) (q : Quantifier)
    (vs : List (TypedVariable Name)) (f : Formula Name) (i : Index) (t : Formula Index),
    (Formula.quantified q (v :: vs) f).resolveAt p config scope depth =
      .ok (.quantified q [⟨i, [type]⟩] t)

theorem Problem.GivesType.exists_label {p : Problem} {v : TypedVariable Name} {type : Index}
    (h : p.GivesType v type) :
    ∃ label, typeLabel? v.types = some label ∧ p.resolveSymbol .type label = .ok type := by
  obtain ⟨config, scope, depth, q, vs, f, i, t, hresolve⟩ := h
  rw [Formula.resolveAt_quantified, Formula.resolveBinders_cons_eq_ok_iff] at hresolve
  obtain ⟨-, label, _, _, _, hlabel, htype, -, -, hlayer⟩ := hresolve
  cases hlayer
  exact ⟨label, hlabel, htype⟩

/-- **Types without a tilde are determined by their label.** So variables that are declared with
    different types, in whatever formulas, never get the same type from the table. -/
theorem typeLabel?_separates :
    (∀ as bs : List Name, (∀ a ∈ as, '~' ∉ a.toList) → (∀ b ∈ bs, '~' ∉ b.toList) →
      typeLabel? as = typeLabel? bs → as = bs) ∧
    ∀ (p : Problem) (v w : TypedVariable Name) (type : Index),
      (∀ a ∈ v.types, '~' ∉ a.toList) → (∀ b ∈ w.types, '~' ∉ b.toList) →
      p.GivesType v type → p.GivesType w type → v.types = w.types := by
  refine ⟨fun as bs => typeLabel?_inj, ?_⟩
  intro p v w type hvplain hwplain hv hw
  obtain ⟨a, ha, hatype⟩ := hv.exists_label
  obtain ⟨b, hb, hbtype⟩ := hw.exists_label
  have hab : a = b := Problem.resolveSymbol_inj hatype hbtype
  refine typeLabel?_inj hvplain hwplain ?_
  rw [ha, hb, hab]

/-- A union with a type that has no name, declared in two formulas. It is told from the union with
    two such types, and from the single type that is called like the word in front of it. -/
theorem typeLabel?_separates_union :
    let p : Problem := { types := ⟨["either", "either~~block"], by decide⟩ }
    let v : TypedVariable Name := ⟨"x", ["", "block"]⟩
    let w : TypedVariable Name := ⟨"y", ["", "block"]⟩
    let z : TypedVariable Name := ⟨"z", ["either"]⟩
    p.GivesType v 1 ∧ p.GivesType w 1 ∧ p.GivesType z 0 ∧ v.types = w.types ∧ ¬ p.GivesType z 1 ∧
      typeLabel? ["", "block"] ≠ typeLabel? ["", "", "block"] := by
  intro p v w z
  have hv : p.GivesType v 1 :=
    ⟨.default, ["a"], 3, .universal, [], .constant true, -2, .constant true, rfl⟩
  have hw : p.GivesType w 1 :=
    ⟨.default, [], 0, .existential, [z], .equality [], -1,
      .quantified .existential [⟨-2, [0]⟩] (.equality []), rfl⟩
  have hz : p.GivesType z 0 :=
    ⟨.default, ["y"], 1, .existential, [], .equality [], -2, .equality [], rfl⟩
  have hplain : ∀ a ∈ ["", "block"], '~' ∉ a.toList := by decide
  obtain ⟨hlabels, hentries⟩ := typeLabel?_separates
  refine ⟨hv, hw, hz, hentries p v w 1 hplain hplain hv hw, ?_, ?_⟩
  · intro hz
    exact absurd (hentries p v z 1 hplain (by decide) hv hz) (by decide)
  · intro h
    exact absurd (hlabels _ ["", "", "block"] hplain (by decide) h) (by decide)

/-- With a tilde in a name the label does not tell two types from three. -/
example : typeLabel? ["a~b", "c"] = typeLabel? ["a", "b", "c"] := rfl

/-! ## Labels of task occurrences -/

namespace OccurrenceLabel

/-- The label is one character of any kind and then decimal digits of the number, at least one.
    There may be zeros in front. -/
def Numbers (label : Name) (n : Nat) : Prop :=
  ∃ (mark : Char) (digits : List Nat), digits ≠ [] ∧ (∀ d ∈ digits, d < 10) ∧
    label.toList = mark :: digits.map Nat.digitChar ∧ n = Nat.ofDigits 10 digits.reverse

theorem toNat_digitChar {d : Nat} (h : d < 10) : d.digitChar.toNat - '0'.toNat = d := by
  revert d
  decide

theorem exists_digitChar_eq {c : Char} (h : c.isDigit = true) :
    ∃ d, d < 10 ∧ d.digitChar = c := by
  have hofNat : ∀ d, d < 10 → d.digitChar = Char.ofNat (d + '0'.toNat) := by decide
  obtain ⟨hlow, hhigh⟩ := Char.isDigit_iff_toNat.1 h
  have hd : c.toNat - '0'.toNat < 10 := by
    have hnine : '9'.toNat = '0'.toNat + 9 := rfl
    omega
  refine ⟨c.toNat - '0'.toNat, hd, ?_⟩
  rw [hofNat _ hd, Nat.sub_add_cancel hlow, Char.ofNat_toNat]

/-- The characters that pass for digits are those of lists of digits. -/
theorem forall_isDigit_iff {cs : List Char} :
    (∀ c ∈ cs, c.isDigit = true) ↔
      ∃ digits : List Nat, (∀ d ∈ digits, d < 10) ∧ cs = digits.map Nat.digitChar := by
  constructor
  · intro h
    induction cs with
    | nil => exact ⟨[], by simp, rfl⟩
    | cons c cs ih =>
      obtain ⟨hc, hcs⟩ := List.forall_mem_cons.1 h
      obtain ⟨d, hd, rfl⟩ := exists_digitChar_eq hc
      obtain ⟨digits, hdigits, rfl⟩ := ih hcs
      exact ⟨d :: digits, List.forall_mem_cons.2 ⟨hd, hdigits⟩, rfl⟩
  · rintro ⟨digits, hdigits, rfl⟩ c hc
    obtain ⟨d, hd, rfl⟩ := List.mem_map.1 hc
    rw [Nat.isDigit_digitChar, decide_eq_true (hdigits d hd)]

/-- Digits that are read from the left go in front of what was read before. -/
theorem ofDigitChars_map_digitChar {digits : List Nat} (h : ∀ d ∈ digits, d < 10) (read : Nat) :
    Nat.ofDigitChars 10 (digits.map Nat.digitChar) read =
      10 ^ digits.length * read + Nat.ofDigits 10 digits.reverse := by
  induction digits generalizing read with
  | nil => simp [Nat.ofDigitChars]
  | cons d digits ih =>
    obtain ⟨hd, hdigits⟩ := List.forall_mem_cons.1 h
    rw [List.map_cons, Nat.ofDigitChars_cons, ih hdigits, toNat_digitChar hd, List.reverse_cons,
      Nat.ofDigits_append, Nat.ofDigits_singleton, List.length_reverse, List.length_cons]
    ring

/-- What `Numbers` says of the digits, said of the characters and of the value that is read from
    them. -/
theorem numbers_iff {label : Name} {n : Nat} :
    Numbers label n ↔ ∃ mark cs, label.toList = mark :: cs ∧ cs ≠ [] ∧
      (∀ c ∈ cs, c.isDigit = true) ∧ n = digitsValue cs := by
  have hread {digits : List Nat} (hdigits : ∀ d ∈ digits, d < 10) :
      digitsValue (digits.map Nat.digitChar) = Nat.ofDigits 10 digits.reverse := by
    have hzero := ofDigitChars_map_digitChar hdigits 0
    rwa [Nat.mul_zero, Nat.zero_add] at hzero
  constructor
  · rintro ⟨mark, digits, hne, hdigits, hlabel, rfl⟩
    exact ⟨mark, _, hlabel, by simpa using hne, forall_isDigit_iff.2 ⟨digits, hdigits, rfl⟩,
      (hread hdigits).symm⟩
  · rintro ⟨mark, cs, hlabel, hne, hcs, rfl⟩
    obtain ⟨digits, hdigits, rfl⟩ := forall_isDigit_iff.1 hcs
    exact ⟨mark, digits, by simpa using hne, hdigits, hlabel, hread hdigits⟩

theorem number?_eq_some_iff_numbers {label : Name} {n : Nat} :
    number? label = some n ↔ Numbers label n ∧ n < indexLimit := by
  rw [number?_eq_some_iff, numbers_iff]
  constructor
  · rintro ⟨mark, cs, hlabel, hne, hcs, hlimit, rfl⟩
    exact ⟨⟨mark, cs, hlabel, hne, hcs, rfl⟩, hlimit⟩
  · rintro ⟨⟨mark, cs, hlabel, hne, hcs, rfl⟩, hlimit⟩
    exact ⟨mark, cs, hlabel, hne, hcs, hlimit, rfl⟩

/-- The text of a number behind a character is a label of the number. -/
theorem numbers_singleton_append_repr (mark : Char) (n : Nat) :
    Numbers (String.singleton mark ++ n.repr) n := by
  refine numbers_iff.2 ⟨mark, Nat.toDigits 10 n, ?_, Nat.toDigits_ne_nil, ?_, ?_⟩
  · rw [String.toList_append, String.toList_singleton, Nat.toList_repr]
    rfl
  · intro c hc
    exact Nat.isDigit_of_mem_toDigits (by decide) (by decide) hc
  · exact Nat.ofDigitChars_ten_toDigits.symm

end OccurrenceLabel

theorem resolveLabel_eq_error_iff {label : Name} {e : ResolutionError} :
    resolveLabel label = .error e ↔
      e = .invalidLabel label ∧ OccurrenceLabel.number? label = none := by
  unfold resolveLabel
  cases OccurrenceLabel.number? label with
  | none => simp [eq_comm]
  | some n => simp

/-- **A label is resolved exactly if it is a character with a decimal number behind it that is an
    index, and then to this number.** Every other label is reported as it is. -/
theorem resolveLabel_iff_numbers :
    (∀ (label : Name) (i : Index), resolveLabel label = .ok i ↔
      ∃ n : Nat, OccurrenceLabel.Numbers label n ∧ n ≤ 2 ^ 31 - 1 ∧ i = n) ∧
    (∀ (label : Name) (e : ResolutionError), resolveLabel label = .error e ↔
      e = .invalidLabel label ∧ ∀ n, OccurrenceLabel.Numbers label n → 2 ^ 31 - 1 < n) ∧
    ∀ (mark : Char) (n : Nat), n ≤ 2 ^ 31 - 1 →
      resolveLabel (String.singleton mark ++ n.repr) = .ok n := by
  have hlimit (n : Nat) : n < indexLimit ↔ n ≤ 2 ^ 31 - 1 := by
    have hvalue : indexLimit = 2 ^ 31 := rfl
    omega
  have hok (label : Name) (i : Index) : resolveLabel label = .ok i ↔
      ∃ n : Nat, OccurrenceLabel.Numbers label n ∧ n ≤ 2 ^ 31 - 1 ∧ i = n := by
    simp only [resolveLabel_eq_ok_iff, OccurrenceLabel.number?_eq_some_iff_numbers, hlimit,
      and_assoc]
  refine ⟨hok, ?_, ?_⟩
  · intro label e
    simp only [resolveLabel_eq_error_iff, Option.eq_none_iff_forall_ne_some, ne_eq,
      OccurrenceLabel.number?_eq_some_iff_numbers, hlimit, not_and, Nat.not_le]
  · intro mark n hn
    exact (hok _ n).2 ⟨n, OccurrenceLabel.numbers_singleton_append_repr mark n, hn, rfl⟩

/-- The greatest index, with zeros in front of it and behind a character of three bytes, and the
    first number that is no index. -/
theorem resolveLabel_iff_numbers_limit :
    resolveLabel "→002147483647" = .ok 2147483647 ∧
      resolveLabel (String.singleton 't' ++ (2147483647 : Nat).repr) = .ok 2147483647 ∧
      resolveLabel "t2147483648" = .error (.invalidLabel "t2147483648") := by
  have hzeros : OccurrenceLabel.Numbers "→002147483647" 2147483647 :=
    ⟨'→', [0, 0, 2, 1, 4, 7, 4, 8, 3, 6, 4, 7], by decide, by decide, rfl, rfl⟩
  obtain ⟨hok, herror, htext⟩ := resolveLabel_iff_numbers
  refine ⟨?_, htext 't' 2147483647 (by decide), ?_⟩
  · exact (hok _ _).2 ⟨2147483647, hzeros, by decide, rfl⟩
  · refine (herror _ _).2 ⟨rfl, ?_⟩
    intro n hn
    obtain ⟨mark, cs, hlabel, -, -, rfl⟩ := OccurrenceLabel.numbers_iff.1 hn
    cases hlabel
    decide

end GoalCompiler
