import DialogueScript.Expression

namespace DialogueScript

/-- Text with placeholders in it: the text up to the first one, then each with the text after it. -/
structure Speech where
  opening : String
  placeholders : List (Expression × String)
deriving DecidableEq

namespace Speech

def ofString (text : String) : Speech := ⟨text, []⟩

def prependText (text : String) (s : Speech) : Speech := { s with opening := text ++ s.opening }

def prependPlaceholder (e : Expression) (s : Speech) : Speech := ⟨"", (e, s.opening) :: s.placeholders⟩

end Speech

inductive Statement where
  /-- Such as `@gold += 5`. -/
  | assign (name : String) (operator : AssignOperator) (value : Expression) (span : Span)
  /-- Such as `say "Hello"`. -/
  | say (speech : Speech) (span : Span)
  /-- Such as `choice "Leave", :door, if: @open`. -/
  | choice (text target : String) (condition : Option Expression) (span textSpan targetSpan : Span)
  /-- Such as `goto :door`. -/
  | goto (target : String) (span targetSpan : Span)
deriving DecidableEq

namespace Statement

def span : Statement → Span
  | assign _ _ _ span | say _ span | choice _ _ _ span _ _ | goto _ span _ => span

def target? : Statement → Option (String × Span)
  | choice _ target _ _ _ targetSpan | goto target _ targetSpan => some (target, targetSpan)
  | assign .. | say .. => none

/-- The expressions that the statement holds, not counting the parts of each. -/
def expressions : Statement → List Expression
  | assign _ _ value _ => [value]
  | say speech _ => speech.placeholders.map (·.1)
  | choice _ _ condition _ _ _ => condition.toList
  | goto .. => []

end Statement

/-- `span` runs from the word `node` to the word `end`. -/
structure Node where
  id : String
  statements : List Statement
  span : Span
deriving DecidableEq

def Node.hasExit (node : Node) : Bool := node.statements.any (·.target?.isSome)

abbrev Program := List Node

def entryPoint : String := "start"

end DialogueScript
