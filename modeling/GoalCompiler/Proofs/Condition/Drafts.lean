import GoalCompiler.Proofs.Condition.Meaning
import GoalCompiler.Proofs.Condition.Text
import Mathlib.Data.Finset.Card
import Mathlib.Data.List.TFAE
import Mathlib.Logic.Function.Basic
import Mathlib.Tactic.TFAE

set_option autoImplicit false

/-! # Fluent sets and conditions in the making

Fluent sets and conditions are put together from lists, from single fluents and from one another, in
whatever order a caller likes. `Drafts` are sets and conditions on which this work goes on, and a
`DraftStep` is one step of it. Along with the work a ledger can be kept (`Ledger`), with a list in
place of each set: everything that was put in, in its order and as often as it was.

A step changes the drafts as it changes the ledger (`Ledger.drafts_record`), so after a run each set
is that of the fluents which the ledger lists for it. Order and repeats are lost there: runs that
put in the same fluents end with the same sets, and these print alike
(`Drafts.run_order_irrelevant`). -/

namespace GoalCompiler

/-! ## Sets of listed fluents -/

namespace FluentSet

/-- The set has the listed fluents as members, whatever their order and however often each of them
    is listed. -/
structure Gathers (s : FluentSet) (xs : List FluentId) : Prop where
  contains : ∀ x, s.contains x = true ↔ x ∈ xs
  mem_members : ∀ x, x ∈ s.members ↔ x ∈ xs
  ascending : s.members.Pairwise (· < ·)
  nodup : s.members.Nodup
  size : s.size = xs.toFinset.card

theorem gathers_ofList (xs : List FluentId) : (ofList xs).Gathers xs where
  contains x := contains_iff_mem.trans mem_ofList
  mem_members x := mem_ofList
  ascending := (ofList xs).ascending
  nodup := (ofList xs).nodup_members
  size := by
    have hsame : (ofList xs).members.toFinset = xs.toFinset := by
      ext x
      rw [List.mem_toFinset, List.mem_toFinset, ← mem_iff, mem_ofList]
    rw [← hsame, List.toFinset_card_of_nodup (ofList xs).nodup_members, size]

/-- Whether the lists have the same fluents. -/
def SameFluents (xs ys : List FluentId) : Prop := ∀ x, x ∈ xs ↔ x ∈ ys

instance (xs ys : List FluentId) : Decidable (SameFluents xs ys) :=
  decidable_of_iff ((∀ x ∈ xs, x ∈ ys) ∧ ∀ y ∈ ys, y ∈ xs)
    ⟨fun h x => ⟨h.1 x, h.2 x⟩, fun h => ⟨fun x => (h x).1, fun y => (h y).2⟩⟩

theorem ofList_eq_ofList_iff {xs ys : List FluentId} :
    ofList xs = ofList ys ↔ SameFluents xs ys := by
  constructor
  · intro h x
    rw [← mem_ofList, h, mem_ofList]
  · intro h
    apply ext_mem
    intro x
    rw [mem_ofList, mem_ofList, h]

theorem union_assoc (s t u : FluentSet) : (s.union t).union u = s.union (t.union u) := by
  apply ext_mem
  intro x
  rw [mem_union, mem_union, mem_union, mem_union, or_assoc]

theorem empty_union (s : FluentSet) : empty.union s = s := by
  apply ext_mem
  intro x
  rw [mem_union, or_iff_right not_mem_empty]

theorem union_empty (s : FluentSet) : s.union empty = s := rfl

end FluentSet

/-! ## Conjunction -/

namespace Condition

theorem eq_iff {c d : Condition} :
    c = d ↔ c.positive = d.positive ∧ c.negative = d.negative ∧ c.numeric = d.numeric := by
  cases c
  cases d
  simp

theorem beq_eq (c d : Condition) : (c == d) =
    (c.positive == d.positive && c.negative == d.negative && c.numeric == d.numeric) := rfl

theorem conjoin_assoc (c d e : Condition) : (c.conjoin d).conjoin e = c.conjoin (d.conjoin e) := by
  simp only [conjoin, FluentSet.union_assoc, List.append_assoc]

theorem empty_conjoin (c : Condition) : empty.conjoin c = c := by
  simp only [conjoin, empty, FluentSet.empty_union, List.nil_append]

theorem conjoin_empty (c : Condition) : c.conjoin empty = c := by
  simp only [conjoin, empty, FluentSet.union_empty, List.append_nil]

end Condition

/-! ## Drafts -/

/-- Where a fluent set is kept: under a name of its own, or in the condition of a name. -/
inductive Place
  | set (name : Name)
  | required (name : Name)
  | forbidden (name : Name)
deriving DecidableEq

/-- Fluent sets and conditions on which work goes on, each under a name. -/
@[ext]
structure Drafts where
  sets : Name → FluentSet := fun _ => .empty
  conditions : Name → Condition := fun _ => .empty

namespace Drafts

/-- The fluent set at a place. -/
def fluents (d : Drafts) : Place → FluentSet
  | .set name => d.sets name
  | .required name => (d.conditions name).positive
  | .forbidden name => (d.conditions name).negative

def putCondition (d : Drafts) (name : Name) (c : Condition) : Drafts :=
  { d with conditions := Function.update d.conditions name c }

/-- Replace the fluent set at a place. -/
def put (d : Drafts) (place : Place) (s : FluentSet) : Drafts :=
  match place with
  | .set name => { d with sets := Function.update d.sets name s }
  | .required name => d.putCondition name { d.conditions name with positive := s }
  | .forbidden name => d.putCondition name { d.conditions name with negative := s }

/-- Add a fluent at a place: whether it was new there, and the drafts with it. -/
def add (d : Drafts) (place : Place) (x : FluentId) : Bool × Drafts :=
  match place with
  | .set name =>
    let (fresh, s) := (d.sets name).add x
    (fresh, d.put (.set name) s)
  | .required name =>
    let (fresh, c) := (d.conditions name).addPositive x
    (fresh, d.putCondition name c)
  | .forbidden name =>
    let (fresh, c) := (d.conditions name).addNegative x
    (fresh, d.putCondition name c)

/-- Adding answers whether the fluent is missing at the place, and puts it there. -/
theorem add_eq (d : Drafts) (place : Place) (x : FluentId) :
    d.add place x = (!(d.fluents place).contains x, d.put place ((d.fluents place).insert x)) := by
  cases place <;> rfl

end Drafts

/-! ## Steps -/

/-- A step of the work on drafts. -/
inductive DraftStep
  /-- Start a set anew from a list of fluents. -/
  | collect (place : Place) (xs : List FluentId)
  | insert (place : Place) (x : FluentId)
  /-- Add all fluents of another set. -/
  | unite (place other : Place)
  /-- Start a condition anew with one required fluent. -/
  | single (name : Name) (x : FluentId)
  | constrain (name : Name) (constraint : NumericConstraint)
  /-- Conjoin a condition with another one. -/
  | conjoin (name other : Name)

namespace DraftStep

/-- The drafts after a step. -/
def apply (d : Drafts) : DraftStep → Drafts
  | collect place xs => d.put place (.ofList xs)
  | insert place x => (d.add place x).2
  | unite place other => d.put place ((d.fluents place).union (d.fluents other))
  | single name x => d.putCondition name (.single x)
  | constrain name constraint => d.putCondition name ((d.conditions name).constrain constraint)
  | conjoin name other => d.putCondition name ((d.conditions name).conjoin (d.conditions other))

/-- The fluents that a step brings in from outside. -/
def fluents : DraftStep → List FluentId
  | collect _ xs => xs
  | insert _ x => [x]
  | single _ x => [x]
  | _ => []

end DraftStep

/-- The drafts after some steps, one after the other. All of them are empty at first. -/
def Drafts.run (steps : List DraftStep) : Drafts := steps.foldl DraftStep.apply {}

/-! ## Ledgers -/

/-- What was put in at each place since it was last started anew, and the constraints that each
    condition got since then. -/
structure Ledger where
  fluents : Place → List FluentId := fun _ => []
  constraints : Name → List NumericConstraint := fun _ => []

namespace Ledger

def put (l : Ledger) (place : Place) (xs : List FluentId) : Ledger :=
  { l with fluents := Function.update l.fluents place xs }

def putCondition (l : Ledger) (name : Name) (required forbidden : List FluentId)
    (constraints : List NumericConstraint) : Ledger where
  fluents := Function.update (Function.update l.fluents (.required name) required)
    (.forbidden name) forbidden
  constraints := Function.update l.constraints name constraints

/-- The ledger after a step. -/
def record (l : Ledger) : DraftStep → Ledger
  | .collect place xs => l.put place xs
  | .insert place x => l.put place (l.fluents place ++ [x])
  | .unite place other => l.put place (l.fluents place ++ l.fluents other)
  | .single name x => l.putCondition name [x] [] []
  | .constrain name constraint =>
    { l with
      constraints := Function.update l.constraints name (l.constraints name ++ [constraint]) }
  | .conjoin name other =>
    l.putCondition name (l.fluents (.required name) ++ l.fluents (.required other))
      (l.fluents (.forbidden name) ++ l.fluents (.forbidden other))
      (l.constraints name ++ l.constraints other)

/-- The ledger of some steps. -/
def ofSteps (steps : List DraftStep) : Ledger := steps.foldl record {}

/-- The drafts with the listed fluents and constraints. -/
def drafts (l : Ledger) : Drafts where
  sets name := .ofList (l.fluents (.set name))
  conditions name :=
    { positive := .ofList (l.fluents (.required name))
      negative := .ofList (l.fluents (.forbidden name))
      numeric := l.constraints name }

theorem fluents_drafts (l : Ledger) (place : Place) :
    l.drafts.fluents place = .ofList (l.fluents place) := by
  cases place <;> rfl

theorem drafts_put (l : Ledger) (place : Place) (xs : List FluentId) :
    (l.put place xs).drafts = l.drafts.put place (.ofList xs) := by
  cases place with
  | set name =>
    ext1
    · funext n
      by_cases h : n = name <;> simp [drafts, put, Drafts.put, h]
    · simp [drafts, put, Drafts.put]
  | required name =>
    ext1
    · simp [drafts, put, Drafts.put, Drafts.putCondition]
    · funext n
      by_cases h : n = name <;> simp [drafts, put, Drafts.put, Drafts.putCondition, h]
  | forbidden name =>
    ext1
    · simp [drafts, put, Drafts.put, Drafts.putCondition]
    · funext n
      by_cases h : n = name <;> simp [drafts, put, Drafts.put, Drafts.putCondition, h]

theorem drafts_putCondition (l : Ledger) (name : Name) (required forbidden : List FluentId)
    (constraints : List NumericConstraint) :
    (l.putCondition name required forbidden constraints).drafts = l.drafts.putCondition name
      { positive := .ofList required, negative := .ofList forbidden, numeric := constraints } := by
  ext1
  · simp [drafts, putCondition, Drafts.putCondition]
  · funext n
    by_cases h : n = name <;> simp [drafts, putCondition, Drafts.putCondition, h]

/-- **A step changes the drafts as it changes the ledger.** -/
theorem drafts_record (l : Ledger) (step : DraftStep) :
    (l.record step).drafts = step.apply l.drafts := by
  cases step with
  | collect place xs => exact l.drafts_put place xs
  | insert place x =>
    rw [record, drafts_put, FluentSet.ofList_append, DraftStep.apply, Drafts.add_eq, fluents_drafts]
    -- Inserting a fluent is uniting with the set of it.
    rfl
  | unite place other =>
    rw [record, drafts_put, FluentSet.ofList_append, DraftStep.apply, fluents_drafts,
      fluents_drafts]
  | single name x => exact l.drafts_putCondition name [x] [] []
  | constrain name constraint =>
    ext1
    · rfl
    · funext n
      by_cases h : n = name <;>
        simp [drafts, record, DraftStep.apply, Drafts.putCondition, Condition.constrain, h]
  | conjoin name other =>
    rw [record, drafts_putCondition, FluentSet.ofList_append, FluentSet.ofList_append]
    rfl

/-- The drafts after a run are those of its ledger. -/
theorem drafts_ofSteps (steps : List DraftStep) : (ofSteps steps).drafts = Drafts.run steps :=
  (List.foldl_hom drafts fun l step => (l.drafts_record step).symm).symm

/-- Whether all listed numbers are those of fluents. -/
def InRange (l : Ledger) : Prop := ∀ place, ∀ x ∈ l.fluents place, x < fluentLimit

theorem InRange.put {l : Ledger} (h : l.InRange) {xs : List FluentId}
    (hxs : ∀ x ∈ xs, x < fluentLimit) (place : Place) : (l.put place xs).InRange :=
  (Function.forall_update_iff l.fluents fun _ ys => ∀ x ∈ ys, x < fluentLimit).2
    ⟨hxs, fun other _ => h other⟩

theorem InRange.putCondition {l : Ledger} (h : l.InRange) {required forbidden : List FluentId}
    (hrequired : ∀ x ∈ required, x < fluentLimit) (hforbidden : ∀ x ∈ forbidden, x < fluentLimit)
    (name : Name) (constraints : List NumericConstraint) :
    (l.putCondition name required forbidden constraints).InRange :=
  (h.put hrequired (.required name)).put hforbidden (.forbidden name)

theorem InRange.record {l : Ledger} (h : l.InRange) {step : DraftStep}
    (hstep : ∀ x ∈ step.fluents, x < fluentLimit) : (l.record step).InRange := by
  have happend {xs ys : List FluentId} (hxs : ∀ x ∈ xs, x < fluentLimit)
      (hys : ∀ x ∈ ys, x < fluentLimit) : ∀ x ∈ xs ++ ys, x < fluentLimit :=
    List.forall_mem_append.2 ⟨hxs, hys⟩
  cases step with
  | collect place xs => exact h.put hstep place
  | insert place x => exact h.put (happend (h place) hstep) place
  | unite place other => exact h.put (happend (h place) (h other)) place
  | single name x => exact h.putCondition hstep (by simp) name []
  | constrain name constraint => exact h
  | conjoin name other =>
    exact h.putCondition (happend (h _) (h _)) (happend (h _) (h _)) name _

theorem inRange_ofSteps {steps : List DraftStep}
    (h : ∀ step ∈ steps, ∀ x ∈ step.fluents, x < fluentLimit) : (ofSteps steps).InRange :=
  List.foldlRecOn steps record (fun _ _ hx => absurd hx List.not_mem_nil)
    fun _ hl step hstep => hl.record (h step hstep)

/-- Whether no condition has got a constraint. -/
def Unconstrained (l : Ledger) : Prop := ∀ name, l.constraints name = []

theorem Unconstrained.record {l : Ledger} (h : l.Unconstrained) {step : DraftStep}
    (hstep : ∀ name constraint, step ≠ .constrain name constraint) :
    (l.record step).Unconstrained := by
  intro name
  cases step with
  | constrain n constraint => exact absurd rfl (hstep n constraint)
  | single n x => by_cases hn : name = n <;> simp [Ledger.record, putCondition, hn, h name]
  | conjoin n other =>
    by_cases hn : name = n <;> simp [Ledger.record, putCondition, hn, h name, h n, h other]
  | _ => exact h name

theorem unconstrained_ofSteps {steps : List DraftStep}
    (h : ∀ name constraint, .constrain name constraint ∉ steps) :
    (ofSteps steps).Unconstrained := by
  refine List.foldlRecOn steps record (fun _ => rfl) ?_
  intro l hl step hstep
  refine hl.record ?_
  rintro name constraint rfl
  exact h name constraint hstep

end Ledger

/-! ## What a run leaves -/

namespace Drafts

theorem fluents_run (steps : List DraftStep) (place : Place) :
    (run steps).fluents place = .ofList ((Ledger.ofSteps steps).fluents place) := by
  rw [← Ledger.drafts_ofSteps, Ledger.fluents_drafts]

theorem numeric_run (steps : List DraftStep) (name : Name) :
    ((run steps).conditions name).numeric = (Ledger.ofSteps steps).constraints name := by
  rw [← Ledger.drafts_ofSteps]
  rfl

/-- Sets are equal, list the same members and print alike exactly if the same fluents were put
    in. -/
theorem tfae_fluents_run (steps steps' : List DraftStep) (place place' : Place) :
    [FluentSet.SameFluents ((Ledger.ofSteps steps).fluents place)
        ((Ledger.ofSteps steps').fluents place'),
      (run steps).fluents place = (run steps').fluents place',
      ((run steps).fluents place).members = ((run steps').fluents place').members,
      ((run steps).fluents place).text = ((run steps').fluents place').text].TFAE := by
  tfae_have 1 ↔ 2 := by rw [fluents_run, fluents_run, FluentSet.ofList_eq_ofList_iff]
  tfae_have 2 → 3 := congrArg FluentSet.members
  tfae_have 3 → 4 := fun h => by rw [FluentSet.text, FluentSet.text, h]
  tfae_have 4 → 2 := FluentSet.text_inj.1
  tfae_finish

/-- Between conditions with the same fluents only the constraints make a difference, to the
    conditions, to whether they compare equal and to their texts. -/
theorem conditions_run_iff {steps steps' : List DraftStep} {name name' : Name}
    (hrequired : FluentSet.SameFluents ((Ledger.ofSteps steps).fluents (.required name))
      ((Ledger.ofSteps steps').fluents (.required name')))
    (hforbidden : FluentSet.SameFluents ((Ledger.ofSteps steps).fluents (.forbidden name))
      ((Ledger.ofSteps steps').fluents (.forbidden name'))) :
    let c := (run steps).conditions name
    let c' := (run steps').conditions name'
    let ks := (Ledger.ofSteps steps).constraints name
    let ks' := (Ledger.ofSteps steps').constraints name'
    (c = c' ↔ ks = ks') ∧ (c == c') = (ks == ks') ∧
      (c.text = c'.text ↔ NumericConstraint.texts ks = NumericConstraint.texts ks') := by
  intro c c' ks ks'
  have hpositive : c.positive = c'.positive := ((tfae_fluents_run _ _ _ _).out 0 1).1 hrequired
  have hnegative : c.negative = c'.negative := ((tfae_fluents_run _ _ _ _).out 0 1).1 hforbidden
  have hks : c.numeric = ks := numeric_run steps name
  have hks' : c'.numeric = ks' := numeric_run steps' name'
  refine ⟨?_, ?_, ?_⟩
  · rw [Condition.eq_iff, hks, hks']
    simp [hpositive, hnegative]
  · rw [Condition.beq_eq, hpositive, hnegative, hks, hks']
    simp
  · rw [Condition.text_inj, hks, hks']
    simp [hpositive, hnegative]

/-- **Fluent sets and conditions do not depend on the order in which they are put together.** A run
    leaves the distinct fluents that it put in, in ascending order, and numbers of fluents if it put
    in such numbers. Where two runs put in the same fluents they leave equal sets, and so equal
    conditions but for their constraints. Adding a fluent answers whether it was not put in before,
    sets are disjoint if no fluent was put into both, and conditions form a monoid under
    conjunction. -/
theorem run_order_irrelevant :
    (∀ (steps : List DraftStep) (place : Place),
      ((run steps).fluents place).Gathers ((Ledger.ofSteps steps).fluents place)) ∧
    (∀ steps : List DraftStep, (∀ step ∈ steps, ∀ x ∈ step.fluents, x < fluentLimit) →
      ∀ place, ∀ x ∈ (run steps).fluents place, x < fluentLimit) ∧
    (∀ (steps steps' : List DraftStep) (place place' : Place),
      [FluentSet.SameFluents ((Ledger.ofSteps steps).fluents place)
          ((Ledger.ofSteps steps').fluents place'),
        (run steps).fluents place = (run steps').fluents place',
        ((run steps).fluents place).members = ((run steps').fluents place').members,
        ((run steps).fluents place).text = ((run steps').fluents place').text].TFAE) ∧
    (∀ (steps steps' : List DraftStep) (name name' : Name),
      FluentSet.SameFluents ((Ledger.ofSteps steps).fluents (.required name))
        ((Ledger.ofSteps steps').fluents (.required name')) →
      FluentSet.SameFluents ((Ledger.ofSteps steps).fluents (.forbidden name))
        ((Ledger.ofSteps steps').fluents (.forbidden name')) →
      let c := (run steps).conditions name
      let c' := (run steps').conditions name'
      let ks := (Ledger.ofSteps steps).constraints name
      let ks' := (Ledger.ofSteps steps').constraints name'
      ((c = c' ↔ ks = ks') ∧ (c == c') = (ks == ks') ∧
        (c.text = c'.text ↔ NumericConstraint.texts ks = NumericConstraint.texts ks')) ∧
      ((∀ n k, .constrain n k ∉ steps) → (∀ n k, .constrain n k ∉ steps') →
        c = c' ∧ (c == c') = true ∧ c.text = c'.text)) ∧
    (∀ (steps : List DraftStep) (place : Place) (x : FluentId),
      ((run steps).add place x).1 = true ↔ x ∉ (Ledger.ofSteps steps).fluents place) ∧
    (∀ (steps steps' : List DraftStep) (place place' : Place),
      ((run steps).fluents place).isDisjoint ((run steps').fluents place') = true ↔
        ¬ ∃ x, x ∈ (Ledger.ofSteps steps).fluents place ∧
          x ∈ (Ledger.ofSteps steps').fluents place') ∧
    (∀ c d e : Condition, (c.conjoin d).conjoin e = c.conjoin (d.conjoin e)) ∧
    (∀ c : Condition, Condition.empty.conjoin c = c ∧ c.conjoin .empty = c) ∧
    ∀ (s : State) (c d : Condition),
      (c.conjoin d).holds s = true ↔ c.holds s = true ∧ d.holds s = true := by
  refine ⟨?_, ?_, tfae_fluents_run, ?_, ?_, ?_, Condition.conjoin_assoc, ?_, ?_⟩
  · intro steps place
    rw [fluents_run]
    exact FluentSet.gathers_ofList _
  · intro steps hsteps place x hx
    rw [fluents_run, FluentSet.mem_ofList] at hx
    exact Ledger.inRange_ofSteps hsteps place x hx
  · intro steps steps' name name' hrequired hforbidden c c' ks ks'
    refine ⟨conditions_run_iff hrequired hforbidden, ?_⟩
    intro hsteps hsteps'
    obtain ⟨heq, hbeq, -⟩ : (c = c' ↔ ks = ks') ∧ (c == c') = (ks == ks') ∧ _ :=
      conditions_run_iff hrequired hforbidden
    have hks : ks = [] := Ledger.unconstrained_ofSteps hsteps name
    have hks' : ks' = [] := Ledger.unconstrained_ofSteps hsteps' name'
    have hsame : c = c' := heq.2 (hks.trans hks'.symm)
    refine ⟨hsame, ?_, congrArg Condition.text hsame⟩
    rw [hbeq, hks, hks']
    rfl
  · intro steps place x
    rw [add_eq, fluents_run, Bool.not_eq_true', ← Bool.not_eq_true, FluentSet.contains_iff_mem,
      FluentSet.mem_ofList]
  · intro steps steps' place place'
    rw [fluents_run, fluents_run, FluentSet.isDisjoint_iff]
    simp only [FluentSet.mem_ofList, not_exists, not_and]
  · intro c
    exact ⟨c.empty_conjoin, c.conjoin_empty⟩
  · intro s c d
    rw [Condition.holds_conjoin, Bool.and_eq_true]

/-- A condition that is united with a set, against one that is conjoined from two. The greatest
    number of a fluent is put in three times on one way and once on the other. -/
theorem run_order_irrelevant_conjoined :
    let steps : List DraftStep := [.collect (.set "a") [4294967295, 3, 4294967295],
      .insert (.required "c") 4294967295, .unite (.required "c") (.set "a"),
      .insert (.forbidden "c") 5]
    let steps' : List DraftStep := [.single "d" 4294967295, .single "e" 3,
      .insert (.forbidden "d") 5, .conjoin "e" "d"]
    (run steps).conditions "c" = (run steps').conditions "e" ∧
      ((run steps).fluents (.set "a")).text = ((run steps').fluents (.required "e")).text ∧
      ((run steps').conditions "e").text =
        "pos: " ++ braced "3, 4294967295" ++ ", neg: " ++ braced "5" ∧
      ((run steps').fluents (.required "e")).size = 2 ∧
      ((run steps).add (.set "a") 5).1 = true ∧ ((run steps).add (.forbidden "c") 5).1 = false ∧
      ∀ x ∈ (run steps).fluents (.required "c"), x < fluentLimit := by
  intro steps steps'
  obtain ⟨hgathers, hrange, hsets, hconditions, hadd, -⟩ := run_order_irrelevant
  have hset : FluentSet.SameFluents ((Ledger.ofSteps steps).fluents (.set "a"))
      ((Ledger.ofSteps steps').fluents (.required "e")) := by decide
  have hrequired : FluentSet.SameFluents ((Ledger.ofSteps steps).fluents (.required "c"))
      ((Ledger.ofSteps steps').fluents (.required "e")) := by decide
  have hforbidden : FluentSet.SameFluents ((Ledger.ofSteps steps).fluents (.forbidden "c"))
      ((Ledger.ofSteps steps').fluents (.forbidden "e")) := by decide
  obtain ⟨-, hunconstrained⟩ := hconditions steps steps' "c" "e" hrequired hforbidden
  refine ⟨(hunconstrained (by simp [steps]) (by simp [steps'])).1, ?_, ?_, ?_, ?_, ?_, ?_⟩
  · exact ((hsets steps steps' (.set "a") (.required "e")).out 0 3).1 hset
  · rfl
  · rw [(hgathers steps' (.required "e")).size]
    rfl
  · rw [hadd]
    decide
  · rw [← Bool.not_eq_true, hadd]
    decide
  · exact hrange steps (by decide) (.required "c")

end Drafts

end GoalCompiler
