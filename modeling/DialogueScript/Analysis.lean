import DialogueScript.FlowChecks
import DialogueScript.NodeChecks
import DialogueScript.VariableChecks

namespace DialogueScript

structure Analysis where
  errors : List Finding
  warnings : List Finding
  suggestions : List Finding
deriving DecidableEq

namespace Analysis

def ofFindings (findings : List Finding) : Analysis :=
  let graded := fun severity => findings.filter (·.severity = severity)
  ⟨graded .error, graded .warning, graded .suggestion⟩

def valid (a : Analysis) : Bool := a.errors.isEmpty

/-- The findings, the most severe first. -/
def findings (a : Analysis) : List Finding := a.errors ++ a.warnings ++ a.suggestions

end Analysis

def Program.findings (program : Program) : List Finding :=
  program.nodeFindings ++ program.missingFindings ++ program.entryFindings ++
    program.unreachableFindings ++ program.circularFindings ++ program.undefinedFindings ++
    program.typeFindings ++ program.unusedFindings

def analyze (program : Program) : Analysis := .ofFindings program.findings

end DialogueScript
