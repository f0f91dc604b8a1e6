import DialogueScript.JsonValue
import DialogueScript.Program

namespace DialogueScript

structure Link where
  source : String
  target : String
deriving DecidableEq, Repr

/-- The nodes are in alphabetical order, each listed once; the links are in the order of the text. -/
structure StoryGraph where
  nodes : List String
  links : List Link
deriving DecidableEq, Repr

def Node.links (node : Node) : List Link :=
  node.statements.filterMap fun s => s.target?.map fun t => ⟨node.id, t.1⟩

namespace StoryGraph

def ofProgram (program : Program) : StoryGraph :=
  let links := program.flatMap Node.links
  let names := program.map Node.id ++ links.map Link.target
  ⟨names.eraseDups.mergeSort fun a b => decide (a ≤ b), links⟩

def toJson (g : StoryGraph) : JsonValue :=
  .object
    [("nodes", .array (g.nodes.map .text)),
      ("links", .array (g.links.map fun l =>
        .object [("source", .text l.source), ("target", .text l.target)]))]

end StoryGraph

end DialogueScript
