import DialogueScript.Blank
import DialogueScript.Lines
import DialogueScript.Token

namespace DialogueScript

inductive IndentStyle where
  | spaces | tabs
deriving DecidableEq, Repr

def IndentStyle.name : IndentStyle → String
  | spaces => "spaces"
  | tabs => "tabs"

inductive ErrorCause where
  | unexpectedCharacter (character : Char)
  | mixedIndentation
  | inconsistentIndentation (expected found : IndentStyle)
  | invalidDedent (level : Nat)
  | unterminatedString
  | unterminatedPlaceholder
  | unexpectedToken (expected found : String) (hint : Option String)
  | malformedNumber (text : String)
  | unexpectedIndentation
deriving DecidableEq, Repr

namespace ErrorCause

def message : ErrorCause → String
  | unexpectedCharacter character => "unexpected character " ++ quotedChar character
  | mixedIndentation => "mixed spaces and tabs in indentation"
  | inconsistentIndentation expected found =>
    "inconsistent indentation: expected " ++ expected.name ++ ", found " ++ found.name
  | invalidDedent level => "invalid dedentation level " ++ toString level
  | unterminatedString => "unterminated string"
  | unterminatedPlaceholder => "unterminated interpolation"
  | unexpectedToken expected found _ => "expected " ++ expected ++ ", got " ++ found
  | malformedNumber text => "error parsing number: " ++ quotedString text
  | unexpectedIndentation => "unexpected indentation"

def tip? : ErrorCause → Option String
  | unexpectedCharacter _ => none
  | mixedIndentation => some "indent each line with either spaces or tabs, not both"
  | inconsistentIndentation expected _ => some ("this file is indented with " ++ expected.name)
  | invalidDedent _ => some "unindent to a level used by an enclosing block"
  | unterminatedString => some "add a closing `\"`"
  | unterminatedPlaceholder => some "close the interpolation with `\x7d`"
  | unexpectedToken _ _ hint => hint
  | malformedNumber text => some ("`" ++ text ++ "` is not a valid number")
  | unexpectedIndentation => some "statements in a node share one indentation level"

/-- Whether the fault lies in the words of the script already, before any grammar. -/
def isLexical : ErrorCause → Bool
  | unexpectedCharacter _ | mixedIndentation | inconsistentIndentation .. | invalidDedent _
  | unterminatedString | unterminatedPlaceholder => true
  | unexpectedToken .. | malformedNumber _ | unexpectedIndentation => false

def code : ErrorCause → String
  | unexpectedCharacter _ => "UnexpectedCharacter"
  | mixedIndentation => "MixedIndentation"
  | inconsistentIndentation .. => "InconsistentIndentation"
  | invalidDedent _ => "InvalidDedent"
  | unterminatedString => "UnterminatedString"
  | unterminatedPlaceholder => "UnterminatedInterpolation"
  | unexpectedToken _ _ none => "UnexpectedToken"
  | unexpectedToken _ _ (some _) => "UnexpectedTokenDetailed"
  | malformedNumber _ => "NumberParseError"
  | unexpectedIndentation => "UnexpectedIndentation"

end ErrorCause

structure ScriptError where
  cause : ErrorCause
  position : Position
deriving DecidableEq, Repr

namespace ScriptError

def message (e : ScriptError) : String := e.cause.message

def tip? (e : ScriptError) : Option String := e.cause.tip?

def isLexical (e : ScriptError) : Bool := e.cause.isLexical

def code (e : ScriptError) : String := e.cause.code

end ScriptError

/-- ` at line L, column C`, the way messages end. -/
def Position.describe (p : Position) : String :=
  " at line " ++ toString p.line ++ ", column " ++ toString p.column

instance : ToString ScriptError := ⟨fun e => e.message ++ e.position.describe⟩

namespace ScriptError

/-- The offending line without its indentation, between a margin with the line number and a row that
ends in a caret under the column of the error. A line that does not exist gives no text. -/
def excerpt (e : ScriptError) (source : String) : String :=
  match line? source e.position.line with
  | none => ""
  | some line =>
    let number := toString e.position.line
    let margin := String.ofList (List.replicate (number.length + 1) ' ')
    let isIndent := fun c => c = ' ' || c = '\t'
    let indent := line.text.takeWhile isIndent
    let shown := String.ofList (Blank.trimEnd (line.text.dropWhile isIndent))
    let dashes := String.ofList (List.replicate (e.position.column - 1 - indent.length) '-')
    margin ++ "|\n" ++ number ++ " | " ++ shown ++ "\n" ++ margin ++ "| " ++ dashes ++ "^"

def display (e : ScriptError) (source file : String) : String :=
  let heading := match e.tip? with
    | none => "Error: " ++ e.message
    | some tip => "Error: " ++ e.message ++ " (" ++ tip ++ ")"
  heading ++ "\n-> " ++ file ++ ":" ++ toString e.position.line ++ ":" ++
    toString e.position.column ++ "\n" ++ e.excerpt source

end ScriptError

end DialogueScript
