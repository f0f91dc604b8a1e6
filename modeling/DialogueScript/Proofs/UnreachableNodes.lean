import DialogueScript.Proofs.NodeOrder

namespace DialogueScript

theorem pairwise_idxOf_eraseDups {α : Type} [DecidableEq α] (as : List α) :
    as.eraseDups.Pairwise fun a b => as.idxOf a < as.idxOf b := by
  -- from the back: a new last element comes after the others, and their places stay
  induction as using List.reverseRecOn with
  | nil => simp
  | append_singleton as x ih =>
    have hplaces : as.eraseDups.Pairwise fun a b => (as ++ [x]).idxOf a < (as ++ [x]).idxOf b := by
      refine ih.imp_of_mem fun {a b} ha hb hab => ?_
      rwa [List.idxOf_append_of_mem (List.mem_eraseDups.1 ha), List.idxOf_append_of_mem (List.mem_eraseDups.1 hb)]
    rw [eraseDups_concat]
    split
    · exact hplaces
    · rename_i hx
      refine List.pairwise_append.2 ⟨hplaces, List.pairwise_singleton .., fun a ha b hb => ?_⟩
      obtain rfl := List.mem_singleton.1 hb
      have ha : a ∈ as := List.mem_eraseDups.1 ha
      rw [List.idxOf_append_of_mem ha, List.idxOf_append_of_notMem hx]
      exact Nat.lt_add_right _ (List.idxOf_lt_length_of_mem ha)

namespace Program

variable {program : Program}

/-- A choice or a goto in a node with the first id leads to the second id. -/
def LeadsTo (program : Program) (source target : String) : Prop :=
  ∃ node ∈ program, node.id = source ∧ ∃ s ∈ node.statements, s.LeadsTo target

theorem mem_links {a b : String} : (a, b) ∈ program.links ↔ program.LeadsTo a b := by
  unfold links references
  simp only [List.mem_map, List.mem_flatMap]
  constructor
  · rintro ⟨r, ⟨node, hnode, hr⟩, hlink⟩
    obtain ⟨s, hs, hr⟩ := List.mem_filterMap.1 hr
    cases s <;> cases hr <;> cases hlink
    · exact ⟨node, hnode, rfl, _, hs, .choice⟩
    · exact ⟨node, hnode, rfl, _, hs, .goto⟩
  · rintro ⟨node, hnode, rfl, s, hs, hlead⟩
    cases hlead with
    | choice => exact ⟨_, ⟨node, hnode, List.mem_filterMap.2 ⟨_, hs, rfl⟩⟩, rfl⟩
    | goto => exact ⟨_, ⟨node, hnode, List.mem_filterMap.2 ⟨_, hs, rfl⟩⟩, rfl⟩

theorem reaches_links {a b : String} :
    program.links.Reaches a b ↔ Relation.ReflTransGen program.LeadsTo a b := by
  have hedge : (fun a b => (a, b) ∈ program.links) = program.LeadsTo := by
    funext a b
    exact propext mem_links
  unfold Edges.Reaches
  rw [hedge]

theorem ofCode_unreachable_node :
    (analyze program).ofCode "unreachable_node" = program.unreachableFindings :=
  program.filter_code .reachability rfl

theorem unreachableFindings_of_no_entry (h : ∀ node ∈ program, node.id ≠ entryPoint) :
    program.unreachableFindings = [] := by
  have hentry : program.defines entryPoint = false := by simpa [defines] using h
  simp [unreachableFindings, hentry]

theorem pairwise_unreachableFindings :
    (program.unreachableFindings.filterMap Finding.node).Pairwise
      fun a b => (program.map Node.id).idxOf a < (program.map Node.id).idxOf b := by
  unfold unreachableFindings
  split
  · rw [List.filterMap_map]
    refine List.Pairwise.filterMap (R := fun a b => (program.map Node.id).idxOf a < (program.map Node.id).idxOf b)
      _ (fun a b hab c hc d hd => ?_) ((pairwise_idxOf_eraseDups _).filter _)
    cases hc
    cases hd
    exact hab
  · exact .nil

theorem exists_of_mem_unreachableFindings {f : Finding} (h : f ∈ program.unreachableFindings) :
    ∃ node, program.find? (·.id = node.id) = some node ∧
      f = ⟨.unreachableNode node.id, node.span.start, none, some node.id⟩ := by
  unfold unreachableFindings at h
  split at h
  · obtain ⟨id, hid, rfl⟩ := List.mem_map.1 h
    obtain ⟨other, hother, hid⟩ : ∃ node ∈ program, node.id = id := by
      simpa [ids, List.mem_eraseDups] using List.mem_of_mem_filter hid
    cases hfind : program.find? (·.id = id) with
    | none => exact absurd hid (by simpa using List.find?_eq_none.1 hfind other hother)
    | some node =>
      obtain rfl : node.id = id := by simpa using List.find?_some hfind
      refine ⟨node, hfind, ?_⟩
      simp [Finding.inNode, Finding.atPosition, definitionOf, node?, hfind]
  · cases h

end Program

/-- The warnings about nodes out of reach are right. There are none without an entry point; otherwise they
are for just the ids of nodes to which no chain of choices and gotos leads from it, each once, where it is
defined first, in the order of the first definitions. And the search that they come from finds just what a
chain of edges leads to, in whatever graph. -/
theorem unreachable_nodes_exact (program : Program) :
    let found := (analyze program).ofCode "unreachable_node"
    ((∀ node ∈ program, node.id ≠ "start") → found = []) ∧
      (∀ id, some id ∈ found.map Finding.node ↔ (∃ node ∈ program, node.id = "start") ∧
        (∃ node ∈ program, node.id = id) ∧ ¬Relation.ReflTransGen program.LeadsTo "start" id) ∧
      (found.filterMap Finding.node).Pairwise
        (fun a b => (program.map Node.id).idxOf a < (program.map Node.id).idxOf b) ∧
      (∀ f ∈ found, ∃ first, program.find? (·.id = first.id) = some first ∧ f.node = some first.id ∧
        f.position = first.span.start ∧ f.endColumn = none ∧ f.severity = .warning ∧
        f.message = "Node '" ++ first.id ++ "' is unreachable from 'start'") ∧
      ∀ (α : Type) [DecidableEq α] (edges : Edges α) (root v : α),
        v ∈ edges.reachableFrom root ↔ Relation.ReflTransGen (fun a b => (a, b) ∈ edges) root v := by
  dsimp only
  rw [Program.ofCode_unreachable_node]
  refine ⟨Program.unreachableFindings_of_no_entry, fun id => ?_, Program.pairwise_unreachableFindings,
    fun f hf => ?_, fun α _ edges root v => Edges.mem_reachableFrom⟩
  · rw [Program.mem_node_unreachableFindings, Program.reaches_links, Program.defines_iff, List.mem_map]
    rfl
  · obtain ⟨first, hfirst, rfl⟩ := Program.exists_of_mem_unreachableFindings hf
    have hmessage : (FindingCause.unreachableNode first.id).message =
        "Node '" ++ first.id ++ "' is unreachable from 'start'" := by
      unfold FindingCause.message entryPoint
      simp [String.append_assoc]
    exact ⟨first, hfirst, rfl, rfl, rfl, rfl, hmessage⟩

end DialogueScript
