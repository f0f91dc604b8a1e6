import DialogueScript.Check
import DialogueScript.JsonValue

namespace DialogueScript

inductive NoticeLevel where
  | error | warning | advice
deriving DecidableEq, Repr

/-- An error or finding, with the stretch of `length` bytes from byte `offset` that it is about. -/
structure Notice where
  code : String
  level : NoticeLevel
  message : String
  help : Option String
  label : String
  offset : Nat
  length : Nat
deriving DecidableEq, Repr

/-- How many bytes the character at byte `offset` of the text has; none at the end. -/
def sizeAt (offset : Nat) : List Char → Nat
  | [] => 0
  | c :: rest => if offset = 0 then c.utf8Size else sizeAt (offset - c.utf8Size) rest

/-- Where `p` is in the source, or the end of the source if there is no such line. -/
def offsetOrEnd (source : String) (p : Position) : Nat :=
  (byteOffset source p).getD source.utf8ByteSize

namespace Notice

def ofError (source : String) (e : ScriptError) : Notice :=
  let offset := offsetOrEnd source e.position
  { code := e.code
    level := .error
    message := e.message
    help := e.tip?
    label := if e.isLexical then "lexical error" else "syntax error"
    offset := offset
    length := sizeAt offset source.toList }

def levelOf : Severity → NoticeLevel
  | .error => .error
  | .warning => .warning
  | .suggestion => .advice

def labelOf : Severity → String
  | .error => "error here"
  | .warning => "warning here"
  | .suggestion => "consider changing this"

/-- Points at the stretch of one line that the finding is about, or just at its position. -/
def ofFinding (source : String) (f : Finding) : Notice :=
  let offset := offsetOrEnd source f.position
  let stop := (f.endColumn.bind fun column => byteOffset source ⟨f.position.line, column⟩).getD offset
  { code := f.code
    level := levelOf f.severity
    message := f.message
    help := f.node.map fun id => "in node '" ++ id ++ "'"
    label := labelOf f.severity
    offset := offset
    length := stop - offset }

def fullCode (n : Notice) : String := "tome::" ++ n.code

end Notice

namespace ScriptError

def toJson (e : ScriptError) : JsonValue :=
  .object
    [("column", .number e.position.column), ("line", .number e.position.line),
      ("message", .text e.message), ("tip", .ofOption .text e.tip?), ("type", .text e.code)]

end ScriptError

namespace Finding

def toJson (f : Finding) : JsonValue :=
  .object
    ([("column", .number f.position.column)] ++
      JsonValue.optionalField "endColumn" .number f.endColumn ++
      [("line", .number f.position.line), ("message", .text f.message)] ++
      JsonValue.optionalField "node" .text f.node ++
      [("severity", .text f.severity.name), ("type", .text f.code)])

end Finding

def fileReport (kind file : String) (valid : Bool) (errors warnings suggestions : List JsonValue) :
    JsonValue :=
  .object
    [("errors", .array errors), ("file", .text file), ("suggestions", .array suggestions),
      ("type", .text kind), ("valid", .bool valid), ("warnings", .array warnings)]

def unreadableReport (file : String) : JsonValue :=
  fileReport "read_error" file false
    [.object [("message", .text ("failed to read " ++ file))]] [] []

def Severity.shown (threshold : Severity) (findings : List Finding) : List Finding :=
  findings.filter (threshold.reaches ·.severity)

namespace CheckOutcome

/-- The notices of a check. Lexical and syntax errors are shown whatever the threshold is. -/
def notices (threshold : Severity) (source : String) : CheckOutcome → List Notice
  | lexicalErrors errors | syntaxErrors errors => errors.map (.ofError source)
  | analyzed _ analysis => (threshold.shown analysis.findings).map (.ofFinding source)

def summary (file : String) : CheckOutcome → String
  | lexicalErrors errors => file ++ ": " ++ toString errors.length ++ " lexical error(s)"
  | syntaxErrors errors => file ++ ": " ++ toString errors.length ++ " syntax error(s)"
  | analyzed _ analysis =>
    file ++ ": " ++ (if analysis.valid then "valid" else "invalid") ++ ", " ++
      toString analysis.errors.length ++ " error(s), " ++
      toString analysis.warnings.length ++ " warning(s), " ++
      toString analysis.suggestions.length ++ " suggestion(s)"

def report (threshold : Severity) (file : String) : CheckOutcome → JsonValue
  | lexicalErrors errors =>
    fileReport "lexical_errors" file false (errors.map ScriptError.toJson) [] []
  | syntaxErrors errors =>
    fileReport "syntax_errors" file false (errors.map ScriptError.toJson) [] []
  | analyzed _ analysis =>
    let written := fun findings => (threshold.shown findings).map Finding.toJson
    fileReport "analysis_issues" file analysis.valid (written analysis.errors)
      (written analysis.warnings) (written analysis.suggestions)

end CheckOutcome

end DialogueScript
