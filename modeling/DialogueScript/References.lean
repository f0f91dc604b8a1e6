import DialogueScript.Program

namespace DialogueScript

inductive ReferenceKind where
  | choice | goto
deriving DecidableEq, Repr

/-- A choice or goto in node `source`; `span` is where it names `target`. -/
structure Reference where
  source : String
  target : String
  kind : ReferenceKind
  span : Span
deriving DecidableEq, Repr

def Statement.reference? (source : String) : Statement → Option Reference
  | choice _ target _ _ _ targetSpan => some ⟨source, target, .choice, targetSpan⟩
  | goto target _ targetSpan => some ⟨source, target, .goto, targetSpan⟩
  | assign .. | say .. => none

def Reference.link (r : Reference) : String × String := (r.source, r.target)

def Node.references (node : Node) : List Reference := node.statements.filterMap (·.reference? node.id)

namespace Program

def references (program : Program) : List Reference := program.flatMap Node.references

def node? (program : Program) (id : String) : Option Node := program.find? (·.id = id)

def defines (program : Program) (id : String) : Bool := program.any (·.id = id)

/-- The ids of the nodes in the order of their first definitions. -/
def ids (program : Program) : List String := (program.map Node.id).eraseDups

def definitionOf (program : Program) (id : String) : Position :=
  ((program.node? id).map (·.span.start)).getD .start

end Program

end DialogueScript
