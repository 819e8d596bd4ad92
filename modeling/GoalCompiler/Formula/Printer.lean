import GoalCompiler.Formula.Basic

set_option autoImplicit false

/-! # Text of formulas

Formulas are written as parenthesised expressions with the connective first. Names print as they are
and indices as decimal numbers, so a resolved formula shows its raw indices. -/

namespace GoalCompiler

variable {σ : Type} [Symbol σ]

/-- Each text after a blank. -/
def spaced (texts : List String) : String := String.join (texts.map (" " ++ ·))

/-- `(keyword operand ...)`. -/
def parenthesized (keyword : String) (operands : List String) : String :=
  "(" ++ keyword ++ spaced operands ++ ")"

/-- Variables are marked by a question mark. -/
def Term.text : Term σ → String
  | .variable s => "?" ++ Symbol.text s
  | .constant s => Symbol.text s

def Application.text (a : Application σ) : String :=
  parenthesized (Symbol.text a.symbol) (a.arguments.map Term.text)

/-- A variable with its type, or with the union of its types, after a dash. -/
def TypedVariable.text (v : TypedVariable σ) : String :=
  "?" ++ Symbol.text v.name ++
    match v.types with
    | [] => ""
    | [type] => " - " ++ Symbol.text type
    | types => " - " ++ parenthesized "either" (types.map Symbol.text)

/-- A task after its label and time point. Without a label the time point does not show either. -/
def TaskReference.text (t : TaskReference σ) : String :=
  match t.label, t.time with
  | none, _ => t.head.text
  | some label, none => parenthesized (Symbol.text label) [t.head.text]
  | some label, some time => parenthesized time.keyword [Symbol.text label, t.head.text]

namespace Formula

mutual

def text : Formula σ → String
  | atom head => head.text
  | function head => head.text
  | equality arguments => parenthesized "=" (arguments.map Term.text)
  | and fs => parenthesized "and" (texts fs)
  | or fs => parenthesized "or" (texts fs)
  | not f => parenthesized "not" [f.text]
  | imply l r => parenthesized "imply" [l.text, r.text]
  | constant true => "true"
  | constant false => "false"
  | quantified q vs f =>
    parenthesized q.keyword ["(" ++ " ".intercalate (vs.map TypedVariable.text) ++ ")", f.text]
  | compare c l r => parenthesized c.keyword [l.text, r.text]
  | binary o l r => parenthesized o.keyword [l.text, r.text]
  | unary o f => parenthesized o.keyword [f.text]
  | window o a b c => parenthesized o.keyword [a.text, b.text, c.text]
  | number x => x.text
  | elapsed => "#t"
  | violated => "is-violated"
  | task t => t.text
  | occurrence false label => "t" ++ Symbol.text label
  | occurrence true label => parenthesized "at" ["t" ++ Symbol.text label]
  | ordering p l r => parenthesized p.keyword [l.text, r.text]
  | hold .before t c => parenthesized "hold-before" [t.text, c.text]
  | hold .after t c => parenthesized "hold-after" [t.text, c.text]
  | holdBetween a b c => parenthesized "hold-between" [a.text, b.text, c.text]

def texts : List (Formula σ) → List String
  | [] => []
  | f :: fs => f.text :: texts fs

end

end Formula

end GoalCompiler
