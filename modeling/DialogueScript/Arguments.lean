import DialogueScript.Finding

namespace DialogueScript

inductive OutputFormat where
  | text | json
deriving DecidableEq, Repr

def OutputFormat.ofName? : String → Option OutputFormat
  | "text" => some text
  | "json" => some json
  | _ => none

def Severity.ofName? : String → Option Severity
  | "error" => some error
  | "warning" => some warning
  | "suggestion" => some suggestion
  | _ => none

inductive Request where
  | check (files : List String) (format : OutputFormat) (threshold : Severity)
  | graph (file : String)
  | version
  | help
deriving DecidableEq, Repr

def Request.files : Request → List String
  | check files .. => files
  | graph file => [file]
  | version | help => []

inductive UsageError where
  | unexpectedArgument (argument : String)
  | unknownCommand (name : String)
  | missingCommand
  | missingValue (option : String)
  | invalidValue (option value : String)
  | repeatedOption (option : String)
  | missingFile
deriving DecidableEq, Repr

def UsageError.message : UsageError → String
  | unexpectedArgument argument => "unexpected argument '" ++ argument ++ "'"
  | unknownCommand name => "unrecognized subcommand '" ++ name ++ "'"
  | missingCommand => "a subcommand is required: check or graph"
  | missingValue option => "a value is required for '" ++ option ++ "'"
  | invalidValue option value => "invalid value '" ++ value ++ "' for '" ++ option ++ "'"
  | repeatedOption option => "'" ++ option ++ "' cannot be used multiple times"
  | missingFile => "a file is required"

inductive Command where
  | check | graph
deriving DecidableEq, Repr

def Command.ofName? : String → Option Command
  | "check" => some check
  | "graph" => some graph
  | _ => none

structure Arguments where
  files : List String
  format : Option OutputFormat
  threshold : Option Severity
deriving DecidableEq, Repr

def Arguments.empty : Arguments := ⟨[], none, none⟩

/-- A lone dash is no option. -/
def isOption (argument : String) : Bool := argument.startsWith "-" && argument ≠ "-"

/-- The letters of a group of short options such as `-vv`. -/
def shortOptions? (argument : String) : Option (List Char) :=
  match argument.toList with
  | '-' :: '-' :: _ | ['-'] => none
  | '-' :: letters => some letters
  | _ => none

/-- An option and the value that is written to it with an equals sign. -/
def attachedValue? (argument : String) : Option (String × String) :=
  let name := argument.toList.takeWhile (· ≠ '=')
  match argument.toList.dropWhile (· ≠ '=') with
  | '=' :: value => some (String.ofList name, String.ofList value)
  | _ => none

/-- Reads a group of short options. `v` asks for more log lines, of which there are none here; `h`
asks for help, and `V`, where it is allowed, for the version. -/
def readLetters (argument : String) (versionAllowed : Bool) :
    List Char → Except UsageError (Option Request)
  | [] => .ok none
  | 'v' :: rest => readLetters argument versionAllowed rest
  | 'h' :: _ => .ok (some .help)
  | 'V' :: _ =>
    if versionAllowed then .ok (some .version) else .error (.unexpectedArgument argument)
  | _ :: _ => .error (.unexpectedArgument argument)

def readValue {α : Type} (ofName? : String → Option α) (option value : String) : Except UsageError α :=
  match ofName? value with
  | some a => .ok a
  | none => .error (.invalidValue option value)

namespace Arguments

def takesValue (command : Command) (option : String) : Bool :=
  command = .check && (option = "--format" || option = "--min-severity")

def setOption (given : Arguments) (option value : String) : Except UsageError Arguments := do
  if option = "--format" then
    let format ← readValue OutputFormat.ofName? option value
    if given.format.isSome then .error (.repeatedOption option)
    else return { given with format := some format }
  else
    let threshold ← readValue Severity.ofName? option value
    if given.threshold.isSome then .error (.repeatedOption option)
    else return { given with threshold := some threshold }

/-- `graph` takes one file, `check` any number. -/
def addFile (command : Command) (given : Arguments) (file : String) : Except UsageError Arguments :=
  if file = "" then .error (.invalidValue "file" file)
  else if command = .graph ∧ given.files ≠ [] then .error (.unexpectedArgument file)
  else .ok { given with files := given.files ++ [file] }

def read (command : Command) (given : Arguments) :
    List String → Except UsageError (Arguments ⊕ Request)
  | [] => .ok (.inl given)
  | argument :: rest =>
    if argument = "--" then (rest.foldlM (addFile command) given).map .inl
    else if !isOption argument then do read command (← given.addFile command argument) rest
    else if argument = "--help" then .ok (.inr .help)
    else if argument = "--verbose" then read command given rest
    else if takesValue command argument then
      match rest with
      | [] => .error (.missingValue argument)
      | value :: rest =>
        if isOption value then .error (.missingValue argument)
        else do read command (← given.setOption argument value) rest
    else
      match shortOptions? argument, attachedValue? argument with
      | some letters, _ =>
        match readLetters argument false letters with
        | .error e => .error e
        | .ok (some request) => .ok (.inr request)
        | .ok none => read command given rest
      | none, some (option, value) =>
        if takesValue command option then do read command (← given.setOption option value) rest
        else .error (.unexpectedArgument argument)
      | none, none => .error (.unexpectedArgument argument)

/-- An option that is not given has the value of a variable of the environment, or else a default. -/
def orEnvironment {α : Type} (environment : String → Option String) (ofName? : String → Option α)
    (name : String) (fallback : α) : Option α → Except UsageError α
  | some a => .ok a
  | none =>
    match environment name with
    | some value => readValue ofName? name value
    | none => .ok fallback

def toRequest (environment : String → Option String) (given : Arguments) :
    Command → Except UsageError Request
  | .check => do
    let format ← orEnvironment environment OutputFormat.ofName? "TOME_FORMAT" .text given.format
    let threshold ←
      orEnvironment environment Severity.ofName? "TOME_MIN_SEVERITY" .suggestion given.threshold
    if given.files.isEmpty then .error .missingFile
    else return .check given.files format threshold
  | .graph =>
    match given.files with
    | [] => .error .missingFile
    | file :: _ => .ok (.graph file)

end Arguments

namespace Request

/-- Reads what follows the word `help`: nothing, or one subcommand to explain. -/
def ofHelp : List String → Except UsageError Request
  | [] => .ok .help
  | name :: rest =>
    if (name = "help" || (Command.ofName? name).isSome) && rest.isEmpty then .ok .help
    else .error (.unknownCommand name)

def ofArguments (environment : String → Option String) : List String → Except UsageError Request
  | [] => .error .missingCommand
  | argument :: rest =>
    if argument = "--verbose" then ofArguments environment rest
    else if argument = "--version" then .ok .version
    else if argument = "--help" then .ok .help
    else if argument = "help" then ofHelp rest
    else
      match Command.ofName? argument, shortOptions? argument with
      | some command, _ =>
        match Arguments.empty.read command rest with
        | .error e => .error e
        | .ok (.inr request) => .ok request
        | .ok (.inl given) => given.toRequest environment command
      | none, some letters =>
        match readLetters argument true letters with
        | .error e => .error e
        | .ok (some request) => .ok request
        | .ok none => ofArguments environment rest
      | none, none => .error (.unknownCommand argument)

end Request

end DialogueScript
