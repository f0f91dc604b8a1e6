import DialogueScript.Program

namespace DialogueScript

def Literal.render : Literal → String
  | number value => toString value
  | text value => stringLiteral value
  | boolean value => if value then "true" else "false"

namespace Expression

mutual

def render : Expression → String
  | literal value _ => value.render
  | var name _ => "@" ++ name
  | binary operator left right _ =>
    "(" ++ left.render ++ " " ++ operator.symbol ++ " " ++ right.render ++ ")"
  | unary operator operand _ => operator.symbol ++ operand.render
  | call name arguments _ => name ++ "(" ++ renderArguments arguments ++ ")"

def renderArguments : List Expression → String
  | [] => ""
  | [e] => e.render
  | e :: rest => e.render ++ ", " ++ renderArguments rest

end

def renderPlaceholder (e : Expression) : String := "#\x7b" ++ e.render ++ "\x7d"

end Expression

/-- A placeholder and the bytes that it takes in the text. -/
structure Interpolation where
  expression : Expression
  start : Nat
  stop : Nat
deriving DecidableEq

namespace Speech

/-- The whole text, with each placeholder written out. -/
def text (s : Speech) : String :=
  s.opening ++ String.join (s.placeholders.map fun p => p.1.renderPlaceholder ++ p.2)

def interpolationsFrom (start : Nat) : List (Expression × String) → List Interpolation
  | [] => []
  | (e, following) :: rest =>
    let stop := start + e.renderPlaceholder.utf8ByteSize
    ⟨e, start, stop⟩ :: interpolationsFrom (stop + following.utf8ByteSize) rest

def interpolations (s : Speech) : List Interpolation :=
  interpolationsFrom s.opening.utf8ByteSize s.placeholders

def render (s : Speech) : String :=
  "\"" ++ escape s.opening ++
    String.join (s.placeholders.map fun p => p.1.renderPlaceholder ++ escape p.2) ++ "\""

end Speech

def Statement.render : Statement → String
  | assign name operator value _ => "@" ++ name ++ " " ++ operator.symbol ++ " " ++ value.render
  | say speech _ => "say " ++ speech.render
  | choice text target condition _ _ _ =>
    "choice " ++ stringLiteral text ++ ", :" ++ target ++
      match condition with
      | some e => ", if: " ++ e.render
      | none => ""
  | goto target _ _ => "goto :" ++ target

def Node.render (node : Node) : String :=
  "node " ++ node.id ++ "\n" ++
    String.join (node.statements.map fun s => "  " ++ s.render ++ "\n") ++ "end\n"

/-- The nodes in order, with an empty line between two. -/
def Program.render (program : Program) : String := String.intercalate "\n" (program.map Node.render)

end DialogueScript
