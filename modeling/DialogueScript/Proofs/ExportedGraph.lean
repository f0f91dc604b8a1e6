import DialogueScript.StoryGraph
import DialogueScript.Proofs.AnalyzerState
import DialogueScript.Proofs.UnreachableNodes

namespace DialogueScript

def Reference.drawn (r : Reference) : Link := ⟨r.source, r.target⟩

theorem Statement.map_target? (source : String) (s : Statement) :
    (s.target?.map fun t => Link.mk source t.1) = (s.reference? source).map Reference.drawn := by
  cases s <;> rfl

theorem Node.links_eq (node : Node) : node.links = node.references.map Reference.drawn := by
  unfold links references
  rw [List.map_filterMap]
  exact List.filterMap_congr fun s _ => s.map_target? node.id

namespace StoryGraph

variable {program : Program}

theorem links_ofProgram (program : Program) :
    (ofProgram program).links = program.references.map Reference.drawn := by
  unfold ofProgram Program.references
  rw [List.map_flatMap]
  exact List.flatMap_congr fun node _ => node.links_eq

/-- A way in the drawn graph from the first id to the second. -/
def Reaches (g : StoryGraph) : String → String → Prop :=
  Relation.ReflTransGen fun source target => ⟨source, target⟩ ∈ g.links

theorem mem_links_ofProgram {source target : String} :
    ⟨source, target⟩ ∈ (ofProgram program).links ↔ (source, target) ∈ program.links := by
  rw [links_ofProgram, Program.links, List.mem_map, List.mem_map]
  apply exists_congr
  intro r
  simp [Reference.drawn, Reference.link]

theorem reaches_ofProgram {a b : String} : (ofProgram program).Reaches a b ↔ program.links.Reaches a b := by
  unfold Reaches Edges.Reaches
  simp only [mem_links_ofProgram]

/-- The nodes that are drawn are those that are defined and those that are led to. -/
theorem mem_nodes_ofProgram {name : String} : name ∈ (ofProgram program).nodes ↔
    program.defines name = true ∨ ∃ r ∈ program.references, r.target = name := by
  have hlinks := links_ofProgram program
  unfold ofProgram at hlinks ⊢
  dsimp only at hlinks ⊢
  rw [hlinks, List.mem_mergeSort, List.mem_eraseDups, List.mem_append, List.map_map]
  simp [Program.defines, Reference.drawn]

end StoryGraph

namespace Program

variable {program : Program}

theorem defines_eq_false_iff {id : String} : program.defines id = false ↔ ∀ node ∈ program, node.id ≠ id := by
  simp [defines]

theorem ofCode_missing_node : (analyze program).ofCode "missing_node" = program.missingFindings :=
  program.filter_code .references rfl

theorem mem_missingFindings_iff {target : String} :
    (∃ f ∈ program.missingFindings, ∃ source, f.cause = .missingNode source target) ↔
      program.defines target = false ∧ ∃ r ∈ program.references, r.target = target := by
  unfold missingFindings
  constructor
  · rintro ⟨f, hf, source, hcause⟩
    obtain ⟨r, hr, rfl⟩ := List.mem_map.1 hf
    rw [Finding.cause_inNode, Finding.cause_spanning] at hcause
    cases hcause
    obtain ⟨hr, hmissing⟩ := List.mem_filter.1 hr
    exact ⟨by simpa using hmissing, r, hr, rfl⟩
  · rintro ⟨hmissing, r, hr, rfl⟩
    exact ⟨_, List.mem_map.2 ⟨r, List.mem_filter.2 ⟨hr, by simpa using hmissing⟩, rfl⟩, r.source, by simp⟩

theorem nodup_node_unreachableFindings : (program.unreachableFindings.map Finding.node).Nodup := by
  unfold unreachableFindings
  split
  · rw [List.map_map]
    exact ((nodup_eraseDups _).filter _).map (Option.some_injective _)
  · exact .nil

end Program

/-- The drawn graph and the analyzer agree. Its links are, in order, the references that the analyzer has taken
down when it was fed all nodes; its nodes that no node of the program defines are just those that are reported
as missing; and if there is an entry point, just the ids that no way along its links leads to are reported as
out of reach, each once. -/
theorem drawn_graph_agrees (program : Program) :
    let graph := StoryGraph.ofProgram program
    let analyzer := program.foldl Analyzer.feed .empty
    let found := analyzer.finalize
    graph.links = analyzer.references.map (fun r => ⟨r.source, r.target⟩) ∧
      (∀ name, (name ∈ graph.nodes ∧ ∀ node ∈ program, node.id ≠ name) ↔
        ∃ f ∈ found.ofCode "missing_node", ∃ source, f.cause = .missingNode source name) ∧
      ((∃ node ∈ program, node.id = "start") →
        ((found.ofCode "unreachable_node").map Finding.node).Nodup ∧
        ∀ id, some id ∈ (found.ofCode "unreachable_node").map Finding.node ↔
          (∃ node ∈ program, node.id = id) ∧ ¬graph.Reaches "start" id) := by
  dsimp only
  rw [Analyzer.finalize_foldl_feed, (Analyzer.covers_empty.foldl_feed program).references,
    Program.ofCode_missing_node, Program.ofCode_unreachable_node]
  refine ⟨StoryGraph.links_ofProgram program, fun name => ?_, fun hentry => ⟨?_, fun id => ?_⟩⟩
  · rw [StoryGraph.mem_nodes_ofProgram, Program.mem_missingFindings_iff, ← Program.defines_eq_false_iff]
    constructor
    · rintro ⟨hdefined | htarget, hmissing⟩
      · exact absurd (hdefined.symm.trans hmissing) (by decide)
      · exact ⟨hmissing, htarget⟩
    · exact fun ⟨hmissing, htarget⟩ => ⟨.inr htarget, hmissing⟩
  · exact Program.nodup_node_unreachableFindings
  · rw [Program.mem_node_unreachableFindings, Program.defines_iff, StoryGraph.reaches_ofProgram, List.mem_map]
    exact and_iff_right hentry

end DialogueScript
