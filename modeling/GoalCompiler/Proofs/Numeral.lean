import Mathlib.Logic.Function.Defs

set_option autoImplicit false

/-! # Texts of numbers

The text of a number has its digits and nothing else. So numbers are read back from their texts
(`repr_injective`), also where something follows that is no digit (`repr_append_inj`). -/

namespace GoalCompiler

theorem isDigit_of_mem_repr {n : Nat} {c : Char} (hc : c ∈ n.repr.toList) : c.isDigit = true := by
  rw [Nat.toList_repr] at hc
  exact Nat.isDigit_of_mem_toDigits (by decide) (by decide) hc

theorem repr_injective : Function.Injective Nat.repr := by
  intro m n h
  have hdigits : Nat.toDigits 10 m = Nat.toDigits 10 n := by
    rw [← Nat.toList_repr, ← Nat.toList_repr, h]
  rw [← Nat.ofDigitChars_ten_toDigits (n := m), hdigits, Nat.ofDigitChars_ten_toDigits]

/-- Whether a number that stands before the text ends there. -/
def EndsNumber (s : List Char) : Prop := ∀ c ∈ s.head?, c.isDigit = false

/-- The text of a number reaches as far as the digits. -/
theorem takeWhile_repr_append (n : Nat) {s : List Char} (hs : EndsNumber s) :
    (n.repr.toList ++ s).takeWhile Char.isDigit = n.repr.toList := by
  rw [List.takeWhile_append_of_pos fun c hc => isDigit_of_mem_repr hc]
  cases s with
  | nil => simp
  | cons c s => simp [hs c rfl]

theorem repr_append_inj {m n : Nat} {s t : List Char} (hs : EndsNumber s) (ht : EndsNumber t)
    (h : m.repr.toList ++ s = n.repr.toList ++ t) : m = n ∧ s = t := by
  have hdigits : m.repr.toList = n.repr.toList := by
    rw [← takeWhile_repr_append m hs, h, takeWhile_repr_append n ht]
  obtain rfl : m = n := repr_injective (String.toList_inj.1 hdigits)
  exact ⟨rfl, List.append_cancel_left h⟩

/-- The text of a number starts with a digit. -/
theorem repr_append_ne_cons (n : Nat) {c : Char} {s t : List Char} (hc : c.isDigit = false) :
    n.repr.toList ++ s ≠ c :: t := by
  intro h
  cases hn : n.repr.toList with
  | nil => exact Nat.repr_ne_empty (String.toList_eq_nil_iff.1 hn)
  | cons d ds =>
    have hd : d.isDigit = true := isDigit_of_mem_repr (n := n) (by simp [hn])
    rw [hn] at h
    rw [(List.cons.inj h).1, hc] at hd
    exact absurd hd (by decide)

end GoalCompiler
