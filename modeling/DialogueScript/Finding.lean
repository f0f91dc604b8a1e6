import DialogueScript.Rendering
import DialogueScript.ScriptError
import DialogueScript.ValueType

namespace DialogueScript

inductive Severity where
  | suggestion | warning | error
deriving DecidableEq, Repr

namespace Severity

def name : Severity → String
  | suggestion => "suggestion"
  | warning => "warning"
  | error => "error"

def rank : Severity → Nat
  | suggestion => 0
  | warning => 1
  | error => 2

def reaches (threshold severity : Severity) : Bool := threshold.rank ≤ severity.rank

end Severity

inductive FindingCause where
  | emptyNode (id : String)
  | duplicateNode (id : String) (firstLine : Nat)
  | deadEnd (id : String)
  | unknownFunction (name : String)
  | wrongArity (name : String) (arity given : Nat)
  | impossibleChoice (condition : Expression) (text : String)
  | repeatedChoice (text id : String)
  | missingNode (source target : String)
  | unreachableNode (id : String)
  | circularGoto (path : List String)
  | missingStart
  | undefinedVariable (name : String)
  | typeMismatch (operator : BinaryOperator) (required left right : ValueType)
  | unusedVariable (name : String)
deriving DecidableEq

namespace FindingCause

def code : FindingCause → String
  | emptyNode _ => "empty_node"
  | duplicateNode .. => "duplicate_node"
  | deadEnd _ => "dead_end"
  | unknownFunction _ => "unknown_function"
  | wrongArity .. => "invalid_function_args"
  | impossibleChoice .. => "suspicious_condition"
  | repeatedChoice .. => "identical_choices"
  | missingNode .. => "missing_node"
  | unreachableNode _ => "unreachable_node"
  | circularGoto _ => "circular_reference"
  | missingStart => "missing_entry_point"
  | undefinedVariable _ => "undefined_variable"
  | typeMismatch .. => "type_mismatch"
  | unusedVariable _ => "unused_variable"

def severity : FindingCause → Severity
  | emptyNode _ | duplicateNode .. | unknownFunction _ | wrongArity .. | missingNode ..
  | missingStart => .error
  | deadEnd _ | impossibleChoice .. | repeatedChoice .. | unreachableNode _ | circularGoto _
  | undefinedVariable _ | typeMismatch .. => .warning
  | unusedVariable _ => .suggestion

def message : FindingCause → String
  | emptyNode id => "Node '" ++ id ++ "' is empty"
  | duplicateNode id firstLine =>
    "Duplicate node '" ++ id ++ "' (first defined at line " ++ toString firstLine ++ ")"
  | deadEnd id => "Node '" ++ id ++ "' has no choices or gotos, so the dialogue ends here"
  | unknownFunction name => "Unknown function '" ++ name ++ "'"
  | wrongArity name arity given =>
    "Function '" ++ name ++ "' expects " ++ toString arity ++ " arguments, got " ++ toString given
  | impossibleChoice condition text =>
    "Condition " ++ condition.render ++ " is always false, so choice \"" ++ text ++
      "\" can never be shown"
  | repeatedChoice text id => "Duplicate choice text \"" ++ text ++ "\" in node '" ++ id ++ "'"
  | missingNode source target =>
    "Node '" ++ source ++ "' references missing node '" ++ target ++ "'"
  | unreachableNode id => "Node '" ++ id ++ "' is unreachable from '" ++ entryPoint ++ "'"
  | circularGoto path => "Circular goto reference detected: " ++ String.intercalate " -> " path
  | missingStart => "No '" ++ entryPoint ++ "' node found; dialogue needs an entry point"
  | undefinedVariable name => "Variable '@" ++ name ++ "' is used but never assigned"
  | typeMismatch operator required left right =>
    "Type mismatch: operator '" ++ operator.symbol ++ "' expects " ++ required.name ++
      " operands, got " ++ left.name ++ " and " ++ right.name
  | unusedVariable name => "Variable '@" ++ name ++ "' is assigned but never used"

end FindingCause

/-- `endColumn` is known when the place is a stretch of one line, `node` when it lies in a node. -/
structure Finding where
  cause : FindingCause
  position : Position
  endColumn : Option Nat
  node : Option String
deriving DecidableEq

namespace Finding

def atPosition (cause : FindingCause) (position : Position) : Finding := ⟨cause, position, none, none⟩

def spanning (cause : FindingCause) (span : Span) : Finding :=
  if span.stop.line = span.start.line ∧ span.start.column < span.stop.column then
    ⟨cause, span.start, some span.stop.column, none⟩
  else atPosition cause span.start

def inNode (id : String) (f : Finding) : Finding := { f with node := some id }

def code (f : Finding) : String := f.cause.code

def message (f : Finding) : String := f.cause.message

def severity (f : Finding) : Severity := f.cause.severity

end Finding

instance : ToString Finding :=
  ⟨fun f => f.severity.name ++ "[" ++ f.code ++ "]: " ++ f.message ++ f.position.describe⟩

end DialogueScript
