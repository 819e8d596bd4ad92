import GoalCompiler.Formula.Induction
import GoalCompiler.Proofs.Formula.Nodes

set_option autoImplicit false

/-! # Variables of a formula

`Formula.variableNames` lists the variables that a formula uses or declares, and
`Formula.mapVariables` replaces them. The condition of a method constraint starts a scope of its own,
so its variables are replaced by a map of their own. Two replacements matter: `Formula.rename` is the
one of a renaming, which is the same everywhere, and `Formula.shift` makes room for binders around a
resolved formula, which do not reach the conditions of method constraints. -/

namespace GoalCompiler

variable {σ : Type}

/-! ## Replacement -/

def Term.mapVariable (g : σ → σ) : Term σ → Term σ
  | .variable x => .variable (g x)
  | .constant c => .constant c

def Application.mapVariables (g : σ → σ) (a : Application σ) : Application σ :=
  { a with arguments := a.arguments.map (Term.mapVariable g) }

def TypedVariable.mapName (g : σ → σ) (v : TypedVariable σ) : TypedVariable σ :=
  { v with name := g v.name }

def TaskReference.mapVariables (g : σ → σ) (t : TaskReference σ) : TaskReference σ :=
  { t with head := t.head.mapVariables g }

theorem Term.mapVariable_id : (Term.mapVariable id : Term σ → Term σ) = id := by
  funext t
  cases t with
  | «variable» x => rfl
  | constant c => rfl

theorem Application.mapVariables_id (a : Application σ) : a.mapVariables id = a := by
  rw [Application.mapVariables, Term.mapVariable_id, List.map_id]

theorem TaskReference.mapVariables_id (t : TaskReference σ) : t.mapVariables id = t := by
  rw [TaskReference.mapVariables, Application.mapVariables_id]

/-- The index of a variable below `n` more binders: `-k` becomes `-(k + n)`. -/
def shiftIndex (n : Nat) (i : Index) : Index := i - n

theorem shiftIndex_zero : shiftIndex 0 = id := by
  funext i
  exact Int.sub_zero i

namespace Formula

mutual

/-- Replace the variables of a formula, where they are used and where they are declared: by `g`
    outside of the conditions of method constraints, and by `h` in these. -/
def mapVariables (g h : σ → σ) : Formula σ → Formula σ
  | atom a => atom (a.mapVariables g)
  | function a => function (a.mapVariables g)
  | equality ts => equality (ts.map (Term.mapVariable g))
  | and fs => and (mapVariablesAll g h fs)
  | or fs => or (mapVariablesAll g h fs)
  | not f => not (f.mapVariables g h)
  | imply l r => imply (l.mapVariables g h) (r.mapVariables g h)
  | constant value => constant value
  | quantified q vs f => quantified q (vs.map (TypedVariable.mapName g)) (f.mapVariables g h)
  | compare c l r => compare c (l.mapVariables g h) (r.mapVariables g h)
  | binary o l r => binary o (l.mapVariables g h) (r.mapVariables g h)
  | unary o f => unary o (f.mapVariables g h)
  | window o a b c => window o (a.mapVariables g h) (b.mapVariables g h) (c.mapVariables g h)
  | number x => number x
  | elapsed => elapsed
  | violated => violated
  | task t => task (t.mapVariables g)
  | occurrence timed label => occurrence timed label
  | ordering o l r => ordering o (l.mapVariables g h) (r.mapVariables g h)
  | hold side t c => hold side (t.mapVariables g h) (c.mapVariables h h)
  | holdBetween a b c =>
    holdBetween (a.mapVariables g h) (b.mapVariables g h) (c.mapVariables h h)

def mapVariablesAll (g h : σ → σ) : List (Formula σ) → List (Formula σ)
  | [] => []
  | f :: fs => f.mapVariables g h :: mapVariablesAll g h fs

end

/-- Rename every variable. -/
def rename (g : σ → σ) (f : Formula σ) : Formula σ := f.mapVariables g g

/-- Move the variables of a resolved formula below `n` more binders. These do not reach the
    conditions of method constraints. -/
def shift (n : Nat) (t : Formula Index) : Formula Index := t.mapVariables (shiftIndex n) id

theorem mapVariablesAll_eq_map (g h : σ → σ) (fs : List (Formula σ)) :
    mapVariablesAll g h fs = fs.map (mapVariables g h) := by
  induction fs with
  | nil => rfl
  | cons f fs ih => rw [mapVariablesAll, ih, List.map_cons]

theorem keyword_mapVariables (g h : σ → σ) (f : Formula σ) :
    (f.mapVariables g h).keyword = f.keyword := by
  cases f with
  | hold side t c => cases side <;> rfl
  | _ => rfl

theorem shift_zero : shift 0 = mapVariables id id := by
  funext t
  rw [shift, shiftIndex_zero]

theorem mapVariables_id (f : Formula σ) : f.mapVariables id id = f := by
  induction f using induction_children with
  | step f ih =>
    cases f with
    | and fs | or fs =>
      have hmembers : fs.map (mapVariables id id) = fs :=
        (List.map_congr_left ih).trans (List.map_id fs)
      rw [mapVariables, mapVariablesAll_eq_map, hmembers]
    | quantified q vs f =>
      have hnames : vs.map (TypedVariable.mapName id) = vs := List.map_id vs
      rw [mapVariables, hnames, ih f (by simp [children])]
    | atom | function | task =>
      rw [mapVariables]
      simp only [Application.mapVariables_id, TaskReference.mapVariables_id]
    | equality ts => rw [mapVariables, Term.mapVariable_id, List.map_id]
    | constant | number | elapsed | violated | occurrence => rfl
    | not | imply | compare | binary | unary | window | ordering | hold | holdBetween =>
      simp only [children, List.mem_cons, List.not_mem_nil, or_false, forall_eq_or_imp,
        forall_eq] at ih
      simp only [mapVariables, ih]

/-! ## Names -/

/-- The variables that the node itself uses or declares. -/
def ownVariables : Formula σ → List σ
  | atom a => (a.arguments.filter Term.isVariable).map Term.symbol
  | function a => (a.arguments.filter Term.isVariable).map Term.symbol
  | equality ts => (ts.filter Term.isVariable).map Term.symbol
  | quantified _ vs _ => vs.map (·.name)
  | task t => (t.head.arguments.filter Term.isVariable).map Term.symbol
  | _ => []

/-- The variables that a formula uses or declares. -/
def variableNames (f : Formula σ) : List σ := f.nodes.flatMap ownVariables

theorem ownVariables_subset (f : Formula σ) : f.ownVariables ⊆ f.variableNames := by
  intro x hx
  exact List.mem_flatMap.2 ⟨f, mem_nodes_iff_children.2 (Or.inl rfl), hx⟩

theorem variableNames_subset {f c : Formula σ} (hc : c ∈ f.children) :
    c.variableNames ⊆ f.variableNames := by
  intro x hx
  obtain ⟨g, hg, hx⟩ := List.mem_flatMap.1 hx
  exact List.mem_flatMap.2 ⟨g, mem_nodes_iff_children.2 (Or.inr ⟨c, hc, hg⟩), hx⟩

theorem mem_map_symbol_of_variable {x : σ} {ts : List (Term σ)} (h : .variable x ∈ ts) :
    x ∈ (ts.filter Term.isVariable).map Term.symbol :=
  List.mem_map.2 ⟨.variable x, List.mem_filter.2 ⟨h, rfl⟩, rfl⟩

end Formula

end GoalCompiler
