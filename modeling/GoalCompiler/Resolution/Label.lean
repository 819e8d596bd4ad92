import GoalCompiler.Formula.Basic

set_option autoImplicit false

/-! # Labels of types and task occurrences -/

namespace GoalCompiler

/-- The name under which the declared types of a variable are found in the table of types: the type
    itself, or `either~t1~t2...` for a union. Without a declared type there is none. -/
def typeLabel? : List Name → Option Name
  | [] => none
  | [type] => some type
  | types => some (types.foldl (fun label type => label ++ "~" ++ type) "either")

namespace OccurrenceLabel

/-- The value of a list of decimal digits. -/
def digitsValue (digits : List Char) : Nat :=
  digits.foldl (fun value digit => 10 * value + (digit.toNat - '0'.toNat)) 0

/-- The number of a task occurrence: its label is one character of any kind and then a decimal number
    that fits a signed 32-bit index. -/
def number? (label : String) : Option Nat :=
  match label.toList with
  | [] => none
  | _ :: digits =>
    if digits ≠ [] ∧ digits.all Char.isDigit ∧ digitsValue digits < indexLimit then
      some (digitsValue digits)
    else none

theorem number?_eq_some_iff {label : Name} {n : Nat} :
    number? label = some n ↔ ∃ mark digits, label.toList = mark :: digits ∧ digits ≠ [] ∧
      (∀ d ∈ digits, d.isDigit = true) ∧ digitsValue digits < indexLimit ∧
      n = digitsValue digits := by
  unfold number?
  cases label.toList with
  | nil => simp
  | cons mark digits =>
    simp only [List.all_eq_true]
    constructor
    · intro h
      split at h
      · next hdigits =>
        cases h
        exact ⟨mark, digits, rfl, hdigits.1, hdigits.2.1, hdigits.2.2, rfl⟩
      · exact absurd h (by simp)
    · rintro ⟨_, _, hcons, hne, hdigits, hlimit, rfl⟩
      cases hcons
      exact if_pos ⟨hne, hdigits, hlimit⟩

end OccurrenceLabel

end GoalCompiler
