import DialogueScript.Program

namespace DialogueScript

def Span.nowhere : Span := .point .start

namespace Expression

mutual

def unplaced : Expression → Expression
  | literal value _ => literal value .nowhere
  | var name _ => var name .nowhere
  | binary operator left right _ => binary operator left.unplaced right.unplaced .nowhere
  | unary operator operand _ => unary operator operand.unplaced .nowhere
  | call name arguments _ => call name (unplacedAll arguments) .nowhere

def unplacedAll : List Expression → List Expression
  | [] => []
  | e :: rest => e.unplaced :: unplacedAll rest

end

end Expression

def Speech.unplaced (s : Speech) : Speech :=
  ⟨s.opening, s.placeholders.map fun p => (p.1.unplaced, p.2)⟩

def Statement.unplaced : Statement → Statement
  | assign name operator value _ => assign name operator value.unplaced .nowhere
  | say speech _ => say speech.unplaced .nowhere
  | choice text target condition _ _ _ =>
    choice text target (condition.map Expression.unplaced) .nowhere .nowhere .nowhere
  | goto target _ _ => goto target .nowhere .nowhere

def Node.unplaced (node : Node) : Node :=
  ⟨node.id, node.statements.map Statement.unplaced, .nowhere⟩

def Program.unplaced (program : Program) : Program := program.map Node.unplaced

/-- Whether the programs differ in nothing but places. -/
def Program.alike (p q : Program) : Bool := p.unplaced = q.unplaced

end DialogueScript
