import GoalCompiler.Formula.Operator
import GoalCompiler.Number.Decimal

set_option autoImplicit false

/-! # Formulas

The tree of a logical, numeric, temporal or hierarchical-task formula, over any type `σ` of symbols.
A formula as written has names for symbols. A resolved formula has indices: the position of a symbol
in its table, or a negative number for a variable, `-1` for the outermost binder.

Formulas may be very deep, so questions about depth are answered a level at a time and not by
recursion into the tree. -/

namespace GoalCompiler

/-- A symbol as written. -/
abbrev Name := String

/-- A resolved symbol: a table position, or `-k` for the variable of the `k`-th binder counted from
    the outermost. -/
abbrev Index := Int

/-- The first natural number, `2 ^ 31`, that is no index: indices are signed 32-bit numbers. -/
def indexLimit : Nat := 0x80000000

/-- What symbols look like in text. -/
class Symbol (σ : Type) where
  text : σ → String

instance : Symbol Name := ⟨id⟩

instance : Symbol Index := ⟨fun
  | .ofNat n => n.repr
  | .negSucc n => "-" ++ (n + 1).repr⟩

/-- An argument of an atom, a function or a task. -/
inductive Term (σ : Type)
  | variable (symbol : σ)
  | constant (symbol : σ)
deriving DecidableEq

namespace Term

variable {σ : Type}

/-- The symbol of a term, whatever its kind. -/
def symbol : Term σ → σ
  | .variable s => s
  | .constant s => s

def isVariable : Term σ → Bool
  | .variable _ => true
  | .constant _ => false

end Term

/-- A symbol applied to arguments: `(on ?x b)`. -/
structure Application (σ : Type) where
  symbol : σ
  arguments : List (Term σ)
deriving DecidableEq

/-- A declared variable with its types; several types stand for their union. -/
structure TypedVariable (σ : Type) where
  name : σ
  types : List σ
deriving DecidableEq

/-- A task of a method. The label names the occurrence (`t3`, the number 3 once resolved); the head
    of the method's own task has none. -/
structure TaskReference (σ : Type) where
  head : Application σ
  label : Option σ := none
  primitive : Bool := false
  time : Option TimePoint := none
deriving DecidableEq

namespace TaskReference

variable {σ : Type}

/-- The task with the given occurrence label. -/
def labeled (t : TaskReference σ) (label : σ) : TaskReference σ := { t with label := some label }

/-- The task at the given time point. -/
def atTime (t : TaskReference σ) (time : TimePoint) : TaskReference σ := { t with time := some time }

end TaskReference

/-- A formula over symbols `σ`. -/
inductive Formula (σ : Type)
  /-- A predicate applied to arguments. -/
  | atom (head : Application σ)
  /-- A numeric function applied to arguments. -/
  | function (head : Application σ)
  /-- The arguments denote the same object. -/
  | equality (arguments : List (Term σ))
  | and (children : List (Formula σ))
  | or (children : List (Formula σ))
  | not (body : Formula σ)
  | imply (left right : Formula σ)
  /-- One of the two truth values. -/
  | constant (value : Bool)
  | quantified (quantifier : Quantifier) (binders : List (TypedVariable σ)) (body : Formula σ)
  | compare (comparison : Comparison) (left right : Formula σ)
  | binary (operator : BinaryOperator) (left right : Formula σ)
  | unary (operator : UnaryOperator) (operand : Formula σ)
  | window (operator : WindowOperator) (first second third : Formula σ)
  | number (value : Binary64)
  /-- The elapsed time `#t`. -/
  | elapsed
  /-- The marker of a violated preference. -/
  | violated
  | task (reference : TaskReference σ)
  /-- A task occurrence by its label alone; `timed` if it stands for one of its time points. -/
  | occurrence (timed : Bool) (label : σ)
  | ordering (precedence : Precedence) (left right : Formula σ)
  /-- The condition has to hold on one side of the task occurrence. -/
  | hold (side : Side) (task condition : Formula σ)
  /-- The condition has to hold between the two task occurrences. -/
  | holdBetween (first second condition : Formula σ)

namespace Formula

variable {σ : Type}

/-- The word for a node in diagnostics. -/
def keyword : Formula σ → String
  | atom _ => "atom"
  | function _ => "fn-head"
  | equality _ => "equal-atom"
  | and _ => "and"
  | or _ => "or"
  | not _ => "not"
  | imply _ _ => "imply"
  | constant true => "true"
  | constant false => "false"
  | quantified q _ _ => q.keyword
  | compare c _ _ => c.keyword
  | binary o _ _ => o.keyword
  | unary o _ => o.keyword
  | window o _ _ _ => o.keyword
  | number _ => "number"
  | elapsed => "#t"
  | violated => "is-violated"
  | task _ => "task"
  | occurrence false _ => "task-id"
  | occurrence true _ => "timed-task-id"
  | ordering _ _ _ => "ordering"
  | hold .before _ _ => "hold-before"
  | hold .after _ _ => "hold-after-method"
  | holdBetween _ _ _ => "hold-between"

def isAtom : Formula σ → Bool
  | atom _ => true
  | _ => false

/-- Whether a node is no connective of propositional logic: no conjunction, disjunction, implication
    or negation. -/
def isBasic : Formula σ → Bool
  | and _ => false
  | or _ => false
  | imply _ _ => false
  | not _ => false
  | _ => true

/-- Whether a node is a literal of a normal form: a basic node or the negation of one. -/
def isLiteral : Formula σ → Bool
  | not body => body.isBasic
  | f => f.isBasic

/-- The direct sub-formulas in the order of the text. Terms are not sub-formulas. -/
def children : Formula σ → List (Formula σ)
  | and fs => fs
  | or fs => fs
  | not f => [f]
  | imply l r => [l, r]
  | quantified _ _ f => [f]
  | compare _ l r => [l, r]
  | binary _ l r => [l, r]
  | unary _ f => [f]
  | window _ a b c => [a, b, c]
  | ordering _ l r => [l, r]
  | hold _ t c => [t, c]
  | holdBetween a b c => [a, b, c]
  | _ => []

end Formula

end GoalCompiler
