set_option autoImplicit false

/-! # Loops

A loop is given by its round: from a state it either stops with an answer or goes on with another
state. `Loop.Ends round s n a` says that the loop that is started in `s` stops in its `n`-th round
and answers `a`.

Nothing makes a loop end. That it does is proved from an invariant and a measure that goes down in
every round, and the measure also bounds the number of rounds (`Loop.exists_ends`). A loop that ends
does so in one way (`Loop.Ends.iff_eq`). -/

namespace GoalCompiler

namespace Loop

variable {σ α : Type}

/-- From the state, the loop stops with the answer after that many rounds. -/
inductive Ends (round : σ → α ⊕ σ) : σ → Nat → α → Prop
  | stop {s a} (answers : round s = .inl a) : Ends round s 1 a
  | goOn {s s' n a} (continues : round s = .inr s') (rest : Ends round s' n a) :
      Ends round s (n + 1) a

variable {round : σ → α ⊕ σ}

theorem Ends.unique {s : σ} {m n : Nat} {a b : α} (h : Ends round s m a) (h' : Ends round s n b) :
    m = n ∧ a = b := by
  induction h generalizing n with
  | stop answers =>
    cases h' with
    | stop answers' => exact ⟨rfl, Sum.inl.inj (answers.symm.trans answers')⟩
    | goOn continues rest => exact absurd (answers.symm.trans continues) (by simp)
  | goOn continues rest ih =>
    cases h' with
    | stop answers => exact absurd (answers.symm.trans continues) (by simp)
    | goOn continues' rest' =>
      cases Sum.inr.inj (continues.symm.trans continues')
      obtain ⟨rfl, rfl⟩ := ih rest'
      exact ⟨rfl, rfl⟩

/-- An end of a loop is its only one. -/
theorem Ends.iff_eq {s : σ} {m n : Nat} {a b : α} (h : Ends round s n a) :
    Ends round s m b ↔ m = n ∧ b = a := by
  constructor
  · intro h'
    exact h'.unique h
  · rintro ⟨rfl, rfl⟩
    exact h

/-- **A loop ends if every round that goes on keeps the invariant and lowers the measure.** Its
    answer is right if that of every round that stops is. -/
theorem exists_ends {Invariant : σ → Prop} {Right : α → Prop} (measure : σ → Nat)
    (progress : ∀ s, Invariant s → (∃ a, round s = .inl a ∧ Right a) ∨
      ∃ s', round s = .inr s' ∧ Invariant s' ∧ measure s' < measure s)
    {s : σ} (hs : Invariant s) : ∃ n a, n ≤ measure s + 1 ∧ Ends round s n a ∧ Right a := by
  induction hm : measure s using Nat.strongRecOn generalizing s with
  | _ m ih =>
    rcases progress s hs with ⟨a, answers, ha⟩ | ⟨s', continues, hs', hlt⟩
    · exact ⟨1, a, Nat.le_add_left 1 m, .stop answers, ha⟩
    · obtain ⟨n, a, hn, hends, ha⟩ := ih (measure s') (hm ▸ hlt) hs' rfl
      exact ⟨n + 1, a, by omega, .goOn continues hends, ha⟩

end Loop

end GoalCompiler
