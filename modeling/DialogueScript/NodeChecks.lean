import DialogueScript.Finding
import DialogueScript.Folding
import DialogueScript.References

namespace DialogueScript

def Expression.Call.problem? (call : Expression.Call) : Option FindingCause :=
  match Builtin.find? call.name with
  | none => some (.unknownFunction call.name)
  | some builtin =>
    if call.arguments.length = builtin.arity then none
    else some (.wrongArity builtin.name builtin.arity call.arguments.length)

def Expression.Call.finding? (call : Expression.Call) : Option Finding :=
  call.problem?.map (.spanning · call.span)

namespace Statement

def choiceText? : Statement → Option String
  | choice text .. => some text
  | assign .. | say .. | goto .. => none

def callFindings (s : Statement) : List Finding :=
  s.expressions.flatMap fun e => e.calls.filterMap Expression.Call.finding?

/-- What is wrong with a choice in node `id` after choices with the given texts. -/
def choiceFindings (id : String) (texts : List String) : Statement → List Finding
  | choice text _ condition span textSpan _ =>
    (if text ∈ texts then [.spanning (.repeatedChoice text id) textSpan] else []) ++
      (condition.toList.filter Expression.isAlwaysFalse).map fun e =>
        .spanning (.impossibleChoice e text) span
  | assign .. | say .. | goto .. => []

def findingsAfter (id : String) (texts : List String) : List Statement → List Finding
  | [] => []
  | s :: rest =>
    s.callFindings ++ s.choiceFindings id texts ++
      findingsAfter id (texts ++ s.choiceText?.toList) rest

end Statement

namespace Node

/-- What is wrong with the node as a whole: its id is taken, it is empty, or it leads nowhere. -/
def frameFindings (earlier : List Node) (node : Node) : List Finding :=
  let duplicate := match Program.node? earlier node.id with
    | some first => [Finding.atPosition (.duplicateNode node.id first.span.start.line) node.span.start]
    | none => []
  let empty := node.statements.isEmpty
  duplicate ++
    (if empty then [.atPosition (.emptyNode node.id) node.span.start]
    else if node.hasExit then []
    else [.atPosition (.deadEnd node.id) node.span.start])

/-- What is wrong with `node`, where `earlier` are the nodes before it. -/
def findings (earlier : List Node) (node : Node) : List Finding :=
  (node.frameFindings earlier ++ Statement.findingsAfter node.id [] node.statements).map
    (·.inNode node.id)

def findingsAfter (earlier : List Node) : List Node → List Finding
  | [] => []
  | node :: rest => node.findings earlier ++ findingsAfter (earlier ++ [node]) rest

end Node

def Program.nodeFindings (program : Program) : List Finding := Node.findingsAfter [] program

end DialogueScript
