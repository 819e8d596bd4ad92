import GoalCompiler.Proofs.Goal.Outcome

set_option autoImplicit false

/-! # Failures of goal compilation

A compilation that fails leaves the problem exactly as it was. The last pass is the only one that
touches the problem, and it touches the table of predicates before a step that can fail on its own,
the registration of the fluent. That this step does not fail is due to the checks before it, and not
to the type of the computation: a failure carries whatever problem the steps before it have made.

`Goal.Refused` lists the causes of a failure, each with all that went well before it, and
`Goal.ofFormula_eq_error_iff` says that these are the causes. -/

namespace GoalCompiler

namespace Goal

/-- Why a resolved goal is refused. -/
inductive Refused (config : Config) (p : Problem) (f : Formula Index) : GoalError → Prop
  | tooDeep (deep : f.exceedsDepth config.maxDepth = true) :
      Refused config p f (.tooDeep config.maxDepth)
  | normalForm {cause} (shallow : f.exceedsDepth config.maxDepth = false)
      (expanded : f.dnf config.maxClauses = .error cause) : Refused config p f (.normalForm cause)
  | condition {normal cause} (shallow : f.exceedsDepth config.maxDepth = false)
      (expanded : f.dnf config.maxClauses = .ok normal)
      (refused : alternatives p config normal = .error cause) : Refused config p f (.condition cause)
  | unsatisfiable {normal} (shallow : f.exceedsDepth config.maxDepth = false)
      (expanded : f.dnf config.maxClauses = .ok normal)
      (none : alternatives p config normal = .ok []) : Refused config p f .unsatisfiable
  | predicates {normal cs} (shallow : f.exceedsDepth config.maxDepth = false)
      (expanded : f.dnf config.maxClauses = .ok normal)
      (several : alternatives p config normal = .ok cs) (length : 2 ≤ cs.length)
      (full : indexLimit ≤ p.predicates.size) :
      Refused config p f (.overflow ⟨.symbols .predicate⟩)
  | fluents {normal cs} (shallow : f.exceedsDepth config.maxDepth = false)
      (expanded : f.dnf config.maxClauses = .ok normal)
      (several : alternatives p config normal = .ok cs) (length : 2 ≤ cs.length)
      (room : p.predicates.size < indexLimit) (full : fluentLimit ≤ p.fluents.size) :
      Refused config p f (.overflow ⟨.fluents⟩)

variable {config : Config} {p p' : Problem} {e : GoalError}

theorem ofAlternatives_eq_error_iff {cs : List Condition} :
    ofAlternatives config cs p = .error e p' ↔ p' = p ∧
      (indexLimit ≤ p.predicates.size ∧ e = .overflow ⟨.symbols .predicate⟩ ∨
        p.predicates.size < indexLimit ∧ fluentLimit ≤ p.fluents.size ∧ e = .overflow ⟨.fluents⟩) := by
  rw [run_ofAlternatives]
  split
  · next hpredicates => simp [hpredicates, Nat.not_lt_of_le hpredicates, eq_comm, and_comm]
  · next hpredicates =>
    split
    · next hfluents =>
      simp [hpredicates, Nat.lt_of_not_le hpredicates, hfluents, eq_comm, and_comm]
    · next hfluents => simp [hpredicates, hfluents]

/-- A goal is refused for one of these causes, and then the problem is as it was. -/
theorem ofFormula_eq_error_iff {f : Formula Index} :
    ofFormula config f p = .error e p' ↔ p' = p ∧ Refused config p f e := by
  constructor
  · intro h
    rw [run_ofFormula] at h
    split at h
    · next hdeep =>
      cases h
      exact ⟨rfl, .tooDeep hdeep⟩
    · next hdeep =>
      have hshallow : f.exceedsDepth config.maxDepth = false := by simpa using hdeep
      split at h
      · next cause hnormal =>
        cases h
        exact ⟨rfl, .normalForm hshallow hnormal⟩
      · next normal hnormal =>
        split at h
        · next cause hcs =>
          cases h
          exact ⟨rfl, .condition hshallow hnormal hcs⟩
        · next hcs =>
          cases h
          exact ⟨rfl, .unsatisfiable hshallow hnormal hcs⟩
        · exact absurd h (by simp)
        · next cs hempty hone hcs =>
          have hseveral : 2 ≤ cs.length := by
            rcases cs with _ | ⟨c, _ | ⟨d, cs⟩⟩
            · exact absurd rfl hempty
            · exact absurd rfl (hone c)
            · simp
          obtain ⟨rfl, ⟨hfull, rfl⟩ | ⟨hroom, hfull, rfl⟩⟩ := ofAlternatives_eq_error_iff.1 h
          · exact ⟨rfl, .predicates hshallow hnormal hcs hseveral hfull⟩
          · exact ⟨rfl, .fluents hshallow hnormal hcs hseveral hroom hfull⟩
  · rintro ⟨rfl, h⟩
    cases h with
    | tooDeep deep => rw [run_ofFormula, if_pos deep]
    | normalForm shallow expanded => simp [run_ofFormula, shallow, expanded]
    | condition shallow expanded refused => simp [run_ofFormula, shallow, expanded, refused]
    | unsatisfiable shallow expanded none => simp [run_ofFormula, shallow, expanded, none]
    | predicates shallow expanded several length full =>
      rw [run_ofFormula_of_several shallow expanded several length]
      exact ofAlternatives_eq_error_iff.2 ⟨rfl, Or.inl ⟨full, rfl⟩⟩
    | fluents shallow expanded several length room full =>
      rw [run_ofFormula_of_several shallow expanded several length]
      exact ofAlternatives_eq_error_iff.2 ⟨rfl, Or.inr ⟨room, full, rfl⟩⟩

theorem compile_eq_error_iff {f : Formula Name} :
    compile config f p = .error e p' ↔
      (∃ cause, f.resolve p config [] = .error cause ∧ e = .resolution cause ∧ p' = p) ∨
        ∃ t, f.resolve p config [] = .ok t ∧ ofFormula config t p = .error e p' := by
  rw [run_compile]
  cases f.resolve p config [] with
  | error cause => simp [eq_comm]
  | ok t => simp

/-- **A goal that is not compiled leaves the problem as it was.** In particular the fluent can always
    be registered after the predicate, once both index spaces have been found to have room. -/
theorem problem_eq_of_error (config : Config) (p : Problem) :
    (∀ (f : Formula Name) e p', compile config f p = .error e p' → p' = p) ∧
      (∀ (f : Formula Index) e p', ofFormula config f p = .error e p' → p' = p) ∧
      ∀ predicate x, indexOf (.symbols .predicate) p.predicates.size = .ok predicate →
        fluentOf p.fluents.size = .ok x →
        ∃ y q, (p.addPredicate (p.predicates.freshName config.goalName) []).2.addFluent
          ⟨predicate, []⟩ = .ok (y, q) := by
  refine ⟨?_, ?_, ?_⟩
  · intro f e p' h
    obtain ⟨-, -, -, rfl⟩ | ⟨t, -, h⟩ := compile_eq_error_iff.1 h
    · rfl
    · exact (ofFormula_eq_error_iff.1 h).1
  · intro f e p' h
    exact (ofFormula_eq_error_iff.1 h).1
  · intro predicate x _ hfluents
    have hroom : (p.addPredicate (p.predicates.freshName config.goalName) []).2.fluents.size <
        fluentLimit := (fluentOf_eq_ok_iff.1 hfluents).1
    exact ⟨_, _, Problem.addFluent_of_room _ hroom⟩

end Goal

/-- The fluents of `n` predicates without arguments. -/
def propositions (n : Nat) : Table GroundAtom where
  entries := (List.range n).map fun k : Nat => ⟨k, []⟩
  nodup := List.nodup_range.map fun _ _ h => Int.ofNat.inj (congrArg GroundAtom.predicate h)

theorem size_propositions (n : Nat) : (propositions n).size = n := by
  simp [propositions, Table.size]

namespace Goal

/-- A clause with an atom that is no fluent; a table of fluents that is full, though it has the atom
    of the next predicate; and a problem that has room for both. -/
theorem problem_eq_of_error_full :
    let small : Problem := {
      predicates := ⟨["p", "q"], by decide⟩, signatures := [[], []], fluents := propositions 1 }
    let g : Formula Name := .or [.atom ⟨"p", []⟩, .atom ⟨"q", []⟩]
    let full : Problem := {
      predicates := ⟨["p"], by decide⟩, signatures := [[]], fluents := propositions fluentLimit }
    let f : Formula Index := .or [.constant true, .compare .less .elapsed .elapsed]
    (∃ p', compile .default g small = .error (.condition (.unregistered ⟨1, []⟩)) p' ∧
        p' = small) ∧
      (∃ p', ofFormula .default f full = .error (.overflow ⟨.fluents⟩) p' ∧ p' = full) ∧
      indexOf (.symbols .predicate) small.predicates.size = .ok 2 ∧
      fluentOf small.fluents.size = .ok 1 ∧
      ∃ y q, (small.addPredicate (small.predicates.freshName "dummy-goal") []).2.addFluent
        ⟨2, []⟩ = .ok (y, q) := by
  intro small g full f
  have hcompile : compile .default g small = .error (.condition (.unregistered ⟨1, []⟩)) small := by
    rfl
  have hcs : alternatives full .default f = .ok [.empty, .empty] := by rfl
  have hfluents : fluentLimit ≤ full.fluents.size :=
    Nat.le_of_eq (size_propositions fluentLimit).symm
  have hfull : ofFormula .default f full = .error (.overflow ⟨.fluents⟩) full :=
    ofFormula_eq_error_iff.2 ⟨rfl, .fluents rfl (by rfl) hcs (by decide) (by decide) hfluents⟩
  exact ⟨⟨small, hcompile, (problem_eq_of_error .default small).1 g _ _ hcompile⟩,
    ⟨full, hfull, (problem_eq_of_error .default full).2.1 f _ _ hfull⟩, rfl, rfl,
    (problem_eq_of_error .default small).2.2 2 1 rfl rfl⟩

end Goal

end GoalCompiler
