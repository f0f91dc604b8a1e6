import DialogueScript.Arguments
import DialogueScript.Report
import DialogueScript.StoryGraph

namespace DialogueScript

/-- The exit status, and what is written to standard output and to standard error. -/
structure Response where
  status : Nat
  output : String
  notes : String
deriving DecidableEq, Repr

/-- A text for each file, or nothing for one that cannot be read as text. -/
abbrev Files := String → Option String

def versionLine : String := "tome 0.1.0\n"

def usage : String :=
  "Static checker for branching dialogue scripts\n\n" ++
    "Usage: tome [OPTIONS] <COMMAND>\n\n" ++
    "Commands:\n" ++
    "  check [--format text|json] [--min-severity error|warning|suggestion] <FILES>...\n" ++
    "  graph <FILE>\n\n" ++
    "Options:\n" ++
    "  -v, --verbose\n" ++
    "  -h, --help\n" ++
    "  -V, --version\n"

def unreadableNote (file : String) : String := "failed to read " ++ file ++ "\n"

def CheckOutcome.details (threshold : Severity) (source file : String) : CheckOutcome → List String
  | lexicalErrors errors | syntaxErrors errors => errors.map (·.display source file)
  | analyzed _ analysis => (threshold.shown analysis.findings).map toString

/-- The answer about one file; its status tells whether the file is valid. -/
def checkFile (files : Files) (format : OutputFormat) (threshold : Severity) (file : String) : Response :=
  match files file, format with
  | none, .text => ⟨1, "", unreadableNote file⟩
  | none, .json => ⟨1, (unreadableReport file).compact ++ "\n", ""⟩
  | some source, format =>
    let outcome := checkScript source
    let status := if outcome.valid then 0 else 1
    match format with
    | .text =>
      ⟨status, outcome.summary file ++ "\n",
        String.join ((outcome.details threshold source file).map (· ++ "\n"))⟩
    | .json => ⟨status, (outcome.report threshold file).compact ++ "\n", ""⟩

def checkFiles (files : Files) (format : OutputFormat) (threshold : Severity) (names : List String) :
    Response :=
  let answers := names.map (checkFile files format threshold)
  ⟨if answers.all (·.status = 0) then 0 else 1, String.join (answers.map Response.output),
    String.join (answers.map Response.notes)⟩

/-- The graph of a script that has no errors in its text, whatever its analysis says. -/
def graphFile (files : Files) (file : String) : Response :=
  match files file with
  | none => ⟨1, "", unreadableNote file⟩
  | some source =>
    match checkScript source with
    | .analyzed program _ => ⟨0, (StoryGraph.ofProgram program).toJson.pretty ++ "\n", ""⟩
    | outcome =>
      ⟨1, "", String.join ((outcome.details .error source file).map (· ++ "\n")) ++
        file ++ " could not be parsed\n"⟩

def respond (files : Files) : Request → Response
  | .check names format threshold => checkFiles files format threshold names
  | .graph file => graphFile files file
  | .version => ⟨0, versionLine, ""⟩
  | .help => ⟨0, usage, ""⟩

/-- The answer to a command line. Arguments that make no sense get no output. -/
def runCommandLine (environment : String → Option String) (files : Files) (arguments : List String) :
    Response :=
  match Request.ofArguments environment arguments with
  | .error e => ⟨2, "", "error: " ++ e.message ++ "\n"⟩
  | .ok request => respond files request

end DialogueScript
