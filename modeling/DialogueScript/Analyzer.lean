import DialogueScript.Analysis

namespace DialogueScript

/-- Values under names, in the order in which the names came up. A name keeps its first value. -/
abbrev Registry (α : Type) := List (String × α)

namespace Registry

variable {α : Type}

def names (r : Registry α) : List String := r.map Prod.fst

def defines (r : Registry α) (name : String) : Bool := (r.lookup name).isSome

def add (r : Registry α) (name : String) (value : α) : Registry α :=
  if r.defines name then r else r ++ [(name, value)]

end Registry

/-- Where a variable is assigned first. -/
structure VariableDefinition where
  span : Span
  node : String
deriving DecidableEq

structure Analyzer where
  /-- The ids of the nodes, each with the span of the first node that has it. -/
  definitions : Registry Span
  references : List Reference
  /-- What the variables become. -/
  assignments : List (String × Expression)
  definedVariables : Registry VariableDefinition
  /-- The places where variables are read, each with the node that it is in. -/
  uses : List (Expression.Variable × String)
  /-- The expressions whose types are to be checked, each with the node that it is in. -/
  expressions : List (Expression × String)
  /-- What was found in the nodes. -/
  findings : List Finding
deriving DecidableEq

namespace Analyzer

def empty : Analyzer := ⟨[], [], [], [], [], [], []⟩

def report (a : Analyzer) (id : String) (findings : List Finding) : Analyzer :=
  { a with findings := a.findings ++ findings.map (·.inNode id) }

/-- Notes where the node stands, unless its id is taken. -/
def define (a : Analyzer) (node : Node) : Analyzer :=
  match a.definitions.lookup node.id with
  | some first =>
    a.report node.id [.atPosition (.duplicateNode node.id first.start.line) node.span.start]
  | none => { a with definitions := a.definitions.add node.id node.span }

def checkExit (a : Analyzer) (node : Node) : Analyzer :=
  if node.statements.isEmpty then a.report node.id [.atPosition (.emptyNode node.id) node.span.start]
  else if node.hasExit then a
  else a.report node.id [.atPosition (.deadEnd node.id) node.span.start]

def recordAssignment (a : Analyzer) (made : Assignment) : Analyzer :=
  { a with
    assignments := a.assignments ++ [(made.name, made.value)]
    definedVariables := a.definedVariables.add made.name ⟨made.span, made.node⟩ }

def visit (a : Analyzer) (id : String) (texts : List String) (s : Statement) : Analyzer :=
  let a := a.report id (s.callFindings ++ s.choiceFindings id texts)
  let a := { a with
    references := a.references ++ (s.reference? id).toList
    uses := a.uses ++ s.expressions.flatMap fun e => e.reads.map fun v => (v, id)
    expressions := a.expressions ++ s.typedExpressions.map fun e => (e, id) }
  match s.assignment? id with
  | some made => a.recordAssignment made
  | none => a

def visitAll (a : Analyzer) (id : String) (texts : List String) : List Statement → Analyzer
  | [] => a
  | s :: rest => (a.visit id texts s).visitAll id (texts ++ s.choiceText?.toList) rest

def feed (a : Analyzer) (node : Node) : Analyzer :=
  ((a.define node).checkExit node).visitAll node.id [] node.statements

def definitionOf (a : Analyzer) (id : String) : Position :=
  ((a.definitions.lookup id).map Span.start).getD .start

def missingFindings (a : Analyzer) : List Finding :=
  (a.references.filter fun r => !a.definitions.defines r.target).map fun r =>
    (Finding.spanning (.missingNode r.source r.target) r.span).inNode r.source

def entryFindings (a : Analyzer) : List Finding :=
  if a.definitions.isEmpty || a.definitions.defines entryPoint then []
  else [.atPosition .missingStart .start]

def unreachableFindings (a : Analyzer) : List Finding :=
  if a.definitions.defines entryPoint then
    let reached := Edges.reachableFrom (a.references.map Reference.link) entryPoint
    (a.definitions.names.filter (· ∉ reached)).map fun id =>
      (Finding.atPosition (.unreachableNode id) (a.definitionOf id)).inNode id
  else []

def circularFindings (a : Analyzer) : List Finding :=
  let cycles := Edges.findCycles ((a.references.filter (·.kind = .goto)).map Reference.link)
    a.definitions.names
  (cycles.flatMap List.dropLast).eraseDups.filterMap fun id =>
    (cycles.find? (id ∈ ·)).map fun path =>
      (Finding.atPosition (.circularGoto path) (a.definitionOf id)).inNode id

def undefinedFindings (a : Analyzer) : List Finding :=
  (a.uses.filter fun u => !a.definedVariables.defines u.1.name).map fun u =>
    (Finding.spanning (.undefinedVariable u.1.name) u.1.span).inNode u.2

def typeFindings (a : Analyzer) : List Finding :=
  let env := TypeEnvironment.ofAssignments a.assignments
  a.expressions.flatMap fun e => (env.infer e.1).mismatches.map (·.inNode e.2)

def unusedFindings (a : Analyzer) : List Finding :=
  let used := a.uses.map (·.1.name)
  (a.definedVariables.names.filter (· ∉ used)).filterMap fun name =>
    (a.definedVariables.lookup name).map fun d =>
      (Finding.spanning (.unusedVariable name) d.span).inNode d.node

/-- What is to be said of the nodes so far. The analyzer stays as it is and can take in more of them. -/
def finalize (a : Analyzer) : Analysis :=
  .ofFindings (a.findings ++ a.missingFindings ++ a.entryFindings ++ a.unreachableFindings ++
    a.circularFindings ++ a.undefinedFindings ++ a.typeFindings ++ a.unusedFindings)

end Analyzer

end DialogueScript
