import DialogueScript.Cycles
import DialogueScript.Finding
import DialogueScript.References

namespace DialogueScript.Program

def missingFindings (program : Program) : List Finding :=
  (program.references.filter fun r => !program.defines r.target).map fun r =>
    (Finding.spanning (.missingNode r.source r.target) r.span).inNode r.source

def entryFindings (program : Program) : List Finding :=
  if program.isEmpty || program.defines entryPoint then []
  else [.atPosition .missingStart .start]

def links (program : Program) : Edges String := program.references.map Reference.link

/-- The ways from node to node that are taken without a choice. -/
def gotoLinks (program : Program) : Edges String :=
  (program.references.filter (·.kind = .goto)).map Reference.link

/-- The nodes to which no way leads from the entry point, if there is one. -/
def unreachableFindings (program : Program) : List Finding :=
  if program.defines entryPoint then
    let reached := program.links.reachableFrom entryPoint
    (program.ids.filter (· ∉ reached)).map fun id =>
      (Finding.atPosition (.unreachableNode id) (program.definitionOf id)).inNode id
  else []

/-- The nodes on cycles of gotos, each with the first cycle through it. -/
def circularFindings (program : Program) : List Finding :=
  let cycles := program.gotoLinks.findCycles program.ids
  (cycles.flatMap List.dropLast).eraseDups.filterMap fun id =>
    (cycles.find? (id ∈ ·)).map fun path =>
      (Finding.atPosition (.circularGoto path) (program.definitionOf id)).inNode id

end DialogueScript.Program
