import DialogueScript.Proofs.CycleCover
import DialogueScript.Proofs.FindingCauses

namespace DialogueScript

namespace Program

/-- A goto in a node with the first id leads to the second id. -/
def GoesTo (program : Program) (source target : String) : Prop :=
  ∃ node ∈ program, node.id = source ∧
    ∃ span targetSpan, Statement.goto target span targetSpan ∈ node.statements

variable {program : Program}

theorem mem_gotoLinks {a b : String} : (a, b) ∈ program.gotoLinks ↔ program.GoesTo a b := by
  unfold gotoLinks references
  simp only [List.mem_map, List.mem_filter, List.mem_flatMap, decide_eq_true_eq]
  constructor
  · rintro ⟨r, ⟨⟨node, hnode, hr⟩, hkind⟩, hlink⟩
    obtain ⟨s, hs, hr⟩ := List.mem_filterMap.1 hr
    cases s <;> cases hr
    · cases hkind
    · cases hlink
      exact ⟨node, hnode, rfl, _, _, hs⟩
  · rintro ⟨node, hnode, rfl, span, targetSpan, hs⟩
    exact ⟨⟨node.id, b, .goto, targetSpan⟩, ⟨⟨node, hnode, List.mem_filterMap.2 ⟨_, hs, rfl⟩⟩, rfl⟩, rfl⟩

theorem GoesTo.mem_ids {a b : String} (h : program.GoesTo a b) : a ∈ program.ids := by
  obtain ⟨node, hnode, rfl, -⟩ := h
  exact List.mem_eraseDups.2 (List.mem_map_of_mem hnode)

theorem leads_gotoLinks {a b : String} :
    program.gotoLinks.Leads a b ↔ Relation.TransGen program.GoesTo a b := by
  have hedge : (fun a b => (a, b) ∈ program.gotoLinks) = program.GoesTo := by
    funext a b
    exact propext mem_gotoLinks
  unfold Edges.Leads
  rw [hedge]

theorem exists_mem_findCycles_iff {id : String} :
    (∃ path ∈ program.gotoLinks.findCycles program.ids, id ∈ path) ↔
      Relation.TransGen program.GoesTo id id := by
  rw [← leads_gotoLinks]
  constructor
  · rintro ⟨path, hpath, hid⟩
    exact (Edges.isCycle_of_mem_findCycles hpath).leads hid
  · intro h
    obtain ⟨b, hedge, -⟩ := Relation.TransGen.head'_iff.1 h
    exact Edges.exists_mem_findCycles (mem_gotoLinks.1 hedge).mem_ids .refl h

end Program

theorem nodup_eraseDups {α : Type} [BEq α] [LawfulBEq α] (as : List α) : as.eraseDups.Nodup := by
  match as with
  | [] => simp
  | a :: as =>
    rw [List.eraseDups_cons, List.nodup_cons]
    refine ⟨fun h => ?_, nodup_eraseDups _⟩
    simpa using List.mem_eraseDups.1 h
termination_by as.length
decreasing_by exact Nat.lt_succ_of_le (List.length_filter_le _ _)

theorem eraseDups_concat {α : Type} [DecidableEq α] (as : List α) (a : α) :
    (as ++ [a]).eraseDups = if a ∈ as then as.eraseDups else as.eraseDups ++ [a] := by
  rw [List.eraseDups_append]
  split
  · rename_i ha
    simp [List.removeAll, ha]
  · rename_i ha
    simp [List.removeAll, ha, List.eraseDups_cons]

theorem Edges.IsCycle.mem_dropLast {edges : Edges String} {cycle : List String}
    (h : edges.IsCycle cycle) {id : String} : id ∈ cycle.dropLast ↔ id ∈ cycle := by
  obtain ⟨v, rest, rfl⟩ := h.exists_eq
  rw [List.dropLast_concat]
  simp [or_comm]

namespace Program

variable {program : Program}

def circularIds (program : Program) : List String :=
  ((program.gotoLinks.findCycles program.ids).flatMap List.dropLast).eraseDups

theorem mem_circularIds {id : String} :
    id ∈ program.circularIds ↔ Relation.TransGen program.GoesTo id id := by
  unfold circularIds
  rw [List.mem_eraseDups, List.mem_flatMap, ← exists_mem_findCycles_iff]
  apply exists_congr
  intro path
  exact and_congr_right fun hpath => (Edges.isCycle_of_mem_findCycles hpath).mem_dropLast

theorem exists_of_mem_circularIds {id : String} (h : id ∈ program.circularIds) :
    ∃ path, (program.gotoLinks.findCycles program.ids).find? (id ∈ ·) = some path ∧
      program.gotoLinks.IsCycle path ∧ id ∈ path := by
  obtain ⟨path, hpath, hid⟩ := exists_mem_findCycles_iff.2 (mem_circularIds.1 h)
  cases hfind : (program.gotoLinks.findCycles program.ids).find? (id ∈ ·) with
  | none => simpa [hid] using List.find?_eq_none.1 hfind path hpath
  | some path =>
    exact ⟨path, rfl, Edges.isCycle_of_mem_findCycles (List.mem_of_find?_eq_some hfind),
      by simpa using List.find?_some hfind⟩

theorem node_circularFindings : program.circularFindings.map Finding.node = program.circularIds.map some := by
  unfold circularFindings
  dsimp only
  rw [List.map_filterMap, ← List.filterMap_eq_map]
  apply List.filterMap_congr
  intro id hid
  obtain ⟨path, hpath, -⟩ := exists_of_mem_circularIds hid
  rw [hpath]
  rfl

theorem filter_circular_reference :
    (analyze program).findings.filter (·.code = "circular_reference") = program.circularFindings :=
  program.filter_code .cycles rfl

end Program

/-- Circles of gotos are reported for just the nodes on cycles of gotos, once for each of their ids, and
the path in the message is such a cycle: it follows gotos from an id back to it, comes by the reported
node, and comes by no id twice. -/
theorem circular_references_exact (program : Program) :
    let found := (analyze program).findings.filter (·.code = "circular_reference")
    (found.map Finding.node).Nodup ∧
      (∀ id, some id ∈ found.map Finding.node ↔
        (∃ node ∈ program, node.id = id) ∧ Relation.TransGen program.GoesTo id id) ∧
      ∀ f ∈ found, ∃ id path, f.node = some id ∧
        f.message = "Circular goto reference detected: " ++ String.intercalate " -> " path ∧
        id ∈ path ∧ 2 ≤ path.length ∧ path.head? = path.getLast? ∧
        path.IsChain program.GoesTo ∧ path.dropLast.Nodup := by
  dsimp only
  rw [Program.filter_circular_reference, Program.node_circularFindings]
  refine ⟨(nodup_eraseDups _).map (Option.some_injective _), fun id => ?_, fun f hf => ?_⟩
  · rw [List.mem_map_of_injective (Option.some_injective _), Program.mem_circularIds]
    refine (and_iff_right_of_imp fun h => ?_).symm
    obtain ⟨b, ⟨node, hnode, hid, -⟩, -⟩ := Relation.TransGen.head'_iff.1 h
    exact ⟨node, hnode, hid⟩
  · obtain ⟨id, hid, hf⟩ := List.mem_filterMap.1 hf
    obtain ⟨path, hfind, hcycle, hmem⟩ := Program.exists_of_mem_circularIds hid
    rw [hfind] at hf
    cases hf
    exact ⟨id, path, rfl, rfl, hmem, hcycle.long, hcycle.closed,
      hcycle.chain.imp fun _ _ => Program.mem_gotoLinks.1, hcycle.simple⟩

end DialogueScript
