import DialogueScript.Program
import DialogueScript.Typing

namespace DialogueScript

/-- What the variable becomes: for `@gold += 5`, the sum of `@gold` and `5`. -/
def AssignOperator.result (operator : AssignOperator) (name : String) (value : Expression)
    (span : Span) : Expression :=
  match operator.binary? with
  | none => value
  | some binary => .binary binary (.var name span) value span

structure Assignment where
  name : String
  value : Expression
  span : Span
  node : String
deriving DecidableEq

namespace Statement

def assignment? (id : String) : Statement → Option Assignment
  | assign name operator value span => some ⟨name, operator.result name value span, span, id⟩
  | say .. | choice .. | goto .. => none

/-- The expressions whose types are checked: what an assigned variable becomes, and all others as
they are written. -/
def typedExpressions : Statement → List Expression
  | assign name operator value span => [operator.result name value span]
  | s => s.expressions

end Statement

namespace Program

def assignments (program : Program) : List Assignment :=
  program.flatMap fun node => node.statements.filterMap (·.assignment? node.id)

def variableUses (program : Program) : List (Expression.Variable × String) :=
  program.flatMap fun node =>
    node.statements.flatMap fun s =>
      s.expressions.flatMap fun e => e.reads.map fun v => (v, node.id)

/-- One finding for each place where a variable is read that is assigned nowhere. -/
def undefinedFindings (program : Program) : List Finding :=
  let assigned := program.assignments.map Assignment.name
  (program.variableUses.filter fun u => u.1.name ∉ assigned).map fun u =>
    (Finding.spanning (.undefinedVariable u.1.name) u.1.span).inNode u.2

def environment (program : Program) : TypeEnvironment :=
  .ofAssignments (program.assignments.map fun a => (a.name, a.value))

def typeFindings (program : Program) : List Finding :=
  let env := program.environment
  program.flatMap fun node =>
    node.statements.flatMap fun s =>
      s.typedExpressions.flatMap fun e => (env.infer e).mismatches.map (·.inNode node.id)

/-- One finding for each variable that is assigned and never read, where it is assigned first. -/
def unusedFindings (program : Program) : List Finding :=
  let used := program.variableUses.map (·.1.name)
  ((program.assignments.map Assignment.name).eraseDups.filter (· ∉ used)).filterMap fun name =>
    (program.assignments.find? (·.name = name)).map fun a =>
      (Finding.spanning (.unusedVariable name) a.span).inNode a.node

end Program

end DialogueScript
