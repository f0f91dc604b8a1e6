import DialogueScript.CommandLine

namespace DialogueScript

/-- The text of a file, unless it cannot be read or is not UTF-8. -/
def readScript (file : String) : IO (Option String) := do
  try
    return String.fromUTF8? (← IO.FS.readBinFile file)
  catch _ => return none

end DialogueScript

open DialogueScript

def main (arguments : List String) : IO UInt32 := do
  let names := ["TOME_FORMAT", "TOME_MIN_SEVERITY"]
  let values ← names.mapM fun name => do return (name, ← IO.getEnv name)
  let environment := fun name => (values.lookup name).getD none
  let files := match Request.ofArguments environment arguments with
    | .ok request => request.files
    | .error _ => []
  let texts ← files.mapM fun file => do return (file, ← readScript file)
  let answer := runCommandLine environment (fun file => (texts.lookup file).getD none) arguments
  IO.eprint answer.notes
  IO.print answer.output
  return answer.status.toUInt32
