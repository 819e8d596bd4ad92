set_option autoImplicit false

/-! # Operators of formulas

The connectives that carry an operator, one enumeration per family, each with the keyword that names
it in text and in diagnostics. Within a family a keyword names one operator. -/

namespace GoalCompiler

/-- A finite family whose members are named by different keywords. -/
class Keyworded (α : Type) where
  all : List α
  keyword : α → String
  find?_keyword : ∀ a : α, all.find? (fun b => keyword b == keyword a) = some a

/-- The member that a keyword names. -/
def ofKeyword? {α : Type} [Keyworded α] (word : String) : Option α :=
  Keyworded.all.find? fun a : α => Keyworded.keyword a == word

theorem ofKeyword?_keyword {α : Type} [Keyworded α] (a : α) :
    ofKeyword? (Keyworded.keyword a) = some a := Keyworded.find?_keyword a

inductive Quantifier
  | universal
  | existential
deriving DecidableEq

def Quantifier.keyword : Quantifier → String
  | .universal => "forall"
  | .existential => "exists"

instance : Keyworded Quantifier where
  all := [.universal, .existential]
  keyword := Quantifier.keyword
  find?_keyword o := by cases o <;> decide

/-- A numeric comparison. -/
inductive Comparison
  | less
  | lessEqual
  | equal
  | greaterEqual
  | greater
deriving DecidableEq

namespace Comparison

def keyword : Comparison → String
  | less => "<"
  | lessEqual => "<="
  | equal => "="
  | greaterEqual => ">="
  | greater => ">"

/-- The comparison that holds exactly when this one does not. Equality has none: its negation is not
    a single comparison. -/
def negated? : Comparison → Option Comparison
  | less => some greaterEqual
  | lessEqual => some greater
  | equal => none
  | greaterEqual => some less
  | greater => some lessEqual

/-- Negation undoes itself. -/
theorem negated?_symm {c d : Comparison} (h : c.negated? = some d) : d.negated? = some c := by
  cases c <;> simp_all [negated?] <;> subst h <;> rfl

end Comparison

instance : Keyworded Comparison where
  all := [.less, .lessEqual, .equal, .greaterEqual, .greater]
  keyword := Comparison.keyword
  find?_keyword o := by cases o <;> decide

/-- A connective with two operands that is neither a comparison nor an implication. -/
inductive BinaryOperator
  | functionValue
  | when
  | timedLiteral
  | assign
  | increase
  | decrease
  | scaleUp
  | scaleDown
  | times
  | divide
  | minus
  | plus
  | sometimeAfter
  | sometimeBefore
  | within
  | holdAfter
deriving DecidableEq

def BinaryOperator.keyword : BinaryOperator → String
  | .functionValue => "fn-atom"
  | .when => "when"
  | .timedLiteral => "at"
  | .assign => "assign"
  | .increase => "increase"
  | .decrease => "decrease"
  | .scaleUp => "scale-up"
  | .scaleDown => "scale-down"
  | .times => "*"
  | .divide => "/"
  | .minus => "-"
  | .plus => "+"
  | .sometimeAfter => "sometime-after"
  | .sometimeBefore => "sometime-before"
  | .within => "within"
  | .holdAfter => "hold-after"

instance : Keyworded BinaryOperator where
  all :=
    [.functionValue, .when, .timedLiteral, .assign, .increase, .decrease, .scaleUp, .scaleDown,
     .times, .divide, .minus, .plus, .sometimeAfter, .sometimeBefore, .within, .holdAfter]
  keyword := BinaryOperator.keyword
  find?_keyword o := by cases o <;> decide

/-- A connective with one operand that is not the negation. -/
inductive UnaryOperator
  | atStart
  | atEnd
  | overAll
  | minimize
  | maximize
  | minus
  | always
  | sometime
  | atMostOnce
  | expression
  | timedExpression
deriving DecidableEq

def UnaryOperator.keyword : UnaryOperator → String
  | .atStart => "at start"
  | .atEnd => "at end"
  | .overAll => "over all"
  | .minimize => "minimize"
  | .maximize => "maximize"
  | .minus => "-"
  | .always => "always"
  | .sometime => "sometime"
  | .atMostOnce => "at-most-once"
  | .expression => "f-exp"
  | .timedExpression => "f-exp-t"

instance : Keyworded UnaryOperator where
  all :=
    [.atStart, .atEnd, .overAll, .minimize, .maximize, .minus, .always, .sometime, .atMostOnce,
     .expression, .timedExpression]
  keyword := UnaryOperator.keyword
  find?_keyword o := by cases o <;> decide

/-- A constraint on a time window, with three operands. -/
inductive WindowOperator
  | alwaysWithin
  | holdDuring
deriving DecidableEq

def WindowOperator.keyword : WindowOperator → String
  | .alwaysWithin => "always-within"
  | .holdDuring => "hold-during"

instance : Keyworded WindowOperator where
  all := [.alwaysWithin, .holdDuring]
  keyword := WindowOperator.keyword
  find?_keyword o := by cases o <;> decide

/-- How two task occurrences of a method are ordered. -/
inductive Precedence
  | before
  | notAfter
  | after
  | notBefore
  | together
deriving DecidableEq

def Precedence.keyword : Precedence → String
  | .before => "<"
  | .notAfter => "<="
  | .after => ">"
  | .notBefore => ">="
  | .together => "="

instance : Keyworded Precedence where
  all := [.before, .notAfter, .after, .notBefore, .together]
  keyword := Precedence.keyword
  find?_keyword o := by cases o <;> decide

/-- A time point of a task occurrence. -/
inductive TimePoint
  | start
  | finish
deriving DecidableEq

def TimePoint.keyword : TimePoint → String
  | .start => "start"
  | .finish => "end"

instance : Keyworded TimePoint where
  all := [.start, .finish]
  keyword := TimePoint.keyword
  find?_keyword o := by cases o <;> decide

/-- The side of a task occurrence on which a method condition has to hold. -/
inductive Side
  | before
  | after
deriving DecidableEq

end GoalCompiler
