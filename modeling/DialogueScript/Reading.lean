import DialogueScript.Lexing
import DialogueScript.ParseProgram

namespace DialogueScript

/-- Why a text cannot be read: the first lexical error in it, or else the errors of its grammar. -/
inductive ReadError where
  | lexical (error : ScriptError)
  | grammar (errors : List ScriptError)
deriving DecidableEq, Repr

def readProgram (source : String) : Except ReadError Program :=
  match tokenize source with
  | .error e => .error (.lexical e)
  | .ok tokens => (parse tokens).mapError .grammar

/-- An expression that fills the first line of its text. What follows that line is not looked at. -/
def readExpression (source : String) : Except ReadError Expression :=
  match tokenize source with
  | .error e => .error (.lexical e)
  | .ok tokens =>
    let line : Parse Expression := do
      let e ← Parse.expression .lowest
      let _ ← Parse.expect .newline
      return e
    (line (.ofTokens tokens)).1.mapError fun e => .grammar [e]

end DialogueScript
