import GoalCompiler.Action
import GoalCompiler.Condition
import GoalCompiler.Condition.Conjunction
import GoalCompiler.Config
import GoalCompiler.Diagnostic
import GoalCompiler.FluentSet
import GoalCompiler.Formula.Basic
import GoalCompiler.Formula.Depth
import GoalCompiler.Formula.Equality
import GoalCompiler.Formula.Equivalence
import GoalCompiler.Formula.Induction
import GoalCompiler.Formula.Operator
import GoalCompiler.Formula.Printer
import GoalCompiler.Goal.Compile
import GoalCompiler.Goal.Error
import GoalCompiler.NormalForm.AndOr
import GoalCompiler.NormalForm.Disjunctive
import GoalCompiler.Number.Binary64
import GoalCompiler.Number.Decimal
import GoalCompiler.Problem.Basic
import GoalCompiler.Problem.Index
import GoalCompiler.Resolution.Basic
import GoalCompiler.Resolution.Error
import GoalCompiler.Resolution.Label
import GoalCompiler.Table
import GoalCompiler.Proofs.Condition.Conjuncts
import GoalCompiler.Proofs.Condition.Drafts
import GoalCompiler.Proofs.Condition.Literals
import GoalCompiler.Proofs.Condition.Meaning
import GoalCompiler.Proofs.Condition.Text
import GoalCompiler.Proofs.Formula.Conjuncts
import GoalCompiler.Proofs.Formula.DepthWalk
import GoalCompiler.Proofs.Formula.Nodes
import GoalCompiler.Proofs.Formula.SExpression
import GoalCompiler.Proofs.Formula.Text
import GoalCompiler.Proofs.Formula.Variables
import GoalCompiler.Proofs.Goal.Acceptance
import GoalCompiler.Proofs.Goal.Clauses
import GoalCompiler.Proofs.Goal.Conjunction
import GoalCompiler.Proofs.Goal.Consistency
import GoalCompiler.Proofs.Goal.DepthLimit
import GoalCompiler.Proofs.Goal.Effect
import GoalCompiler.Proofs.Goal.Failure
import GoalCompiler.Proofs.Goal.FreshName
import GoalCompiler.Proofs.Goal.Meaning
import GoalCompiler.Proofs.Goal.NumericPolicy
import GoalCompiler.Proofs.Goal.Outcome
import GoalCompiler.Proofs.Goal.StandIn
import GoalCompiler.Proofs.Loop
import GoalCompiler.Proofs.NormalForm.Conjunction
import GoalCompiler.Proofs.NormalForm.Count
import GoalCompiler.Proofs.NormalForm.Distinct
import GoalCompiler.Proofs.NormalForm.Expansion
import GoalCompiler.Proofs.NormalForm.Idempotent
import GoalCompiler.Proofs.NormalForm.Limit
import GoalCompiler.Proofs.NormalForm.Meaning
import GoalCompiler.Proofs.NormalForm.Polarity
import GoalCompiler.Proofs.NormalForm.Related
import GoalCompiler.Proofs.NormalForm.Shape
import GoalCompiler.Proofs.NormalForm.Threshold
import GoalCompiler.Proofs.Numeral
import GoalCompiler.Proofs.Problem.Growth
import GoalCompiler.Proofs.Problem.History
import GoalCompiler.Proofs.Problem.Run
import GoalCompiler.Proofs.Resolution.AtomKey
import GoalCompiler.Proofs.Resolution.Binders
import GoalCompiler.Proofs.Resolution.Depth
import GoalCompiler.Proofs.Resolution.Label
import GoalCompiler.Proofs.Resolution.Meaning
import GoalCompiler.Proofs.Resolution.NormalForm
import GoalCompiler.Proofs.Resolution.Relation
import GoalCompiler.Proofs.Resolution.Renaming
import GoalCompiler.Proofs.Resolution.Scope
import GoalCompiler.Proofs.Resolution.WellFormed
import GoalCompiler.Proofs.Success
import GoalCompiler.Proofs.Valuation
