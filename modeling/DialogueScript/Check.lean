import DialogueScript.Analyzer
import DialogueScript.Lexing
import DialogueScript.ParseProgram

namespace DialogueScript

inductive CheckOutcome where
  | lexicalErrors (errors : List ScriptError)
  | syntaxErrors (errors : List ScriptError)
  | analyzed (program : Program) (analysis : Analysis)
deriving DecidableEq

def CheckOutcome.valid : CheckOutcome → Bool
  | lexicalErrors _ | syntaxErrors _ => false
  | analyzed _ analysis => analysis.valid

structure Checking where
  nodes : Program
  analyzer : Analyzer
deriving DecidableEq

namespace Checking

def start : Checking := ⟨[], .empty⟩

def take (c : Checking) (node : Node) : Checking := ⟨c.nodes ++ [node], c.analyzer.feed node⟩

end Checking

def checkScript (source : String) : CheckOutcome :=
  match lex source with
  | .error errors => .lexicalErrors errors
  | .ok tokens =>
    let (checking, parser) := (Parser.ofTokens tokens).foldNodes Checking.take .start
    if parser.errors.isEmpty then .analyzed checking.nodes checking.analyzer.finalize
    else .syntaxErrors parser.errors

end DialogueScript
