import DialogueScript.Proofs.CycleSearch

namespace DialogueScript.Edges

variable {α : Type} [DecidableEq α] {edges : Edges α}

section Components

variable {roots : List α} {walk : Walk α} {u v : α}

theorem mem_classOf : u ∈ edges.classOf walk v ↔
    u ∈ walk.entered ∧ edges.Reaches v u ∧ edges.Reaches u v := by
  unfold classOf
  dsimp only
  rw [List.mem_filter, decide_eq_true_eq, mem_reachableFrom, mem_reachableFrom, reaches_reversed]

theorem classOf_congr (huv : edges.Reaches u v) (hvu : edges.Reaches v u) :
    edges.classOf walk u = edges.classOf walk v := by
  unfold classOf
  apply List.filter_congr
  intro w hw
  simp only [mem_reachableFrom, reaches_reversed, decide_eq_decide]
  constructor
  · exact fun h => ⟨hvu.trans h.1, h.2.trans huv⟩
  · exact fun h => ⟨huv.trans h.1, h.2.trans hvu⟩

/-- A vertex that leads back to itself does so by an edge, or by way of another vertex of its class. -/
theorem holdsCycle_of_leads {members : List α} (h : edges.Leads v v)
    (hmembers : ∀ u, edges.Reaches v u → edges.Reaches u v → u ∈ members) :
    edges.holdsCycle v members = true := by
  obtain ⟨u, hreach, hedge⟩ := h.exists_last
  have hu : u ∈ members := hmembers u hreach (.single hedge)
  have hv : v ∈ members := hmembers v .refl .refl
  unfold holdsCycle
  rw [decide_eq_true_eq]
  by_cases huv : u = v
  · exact .inr (huv ▸ hedge)
  · left
    by_contra hshort
    obtain ⟨w, hw⟩ := List.length_eq_one_iff.1
      (Nat.le_antisymm (Nat.not_lt.1 hshort) (List.length_pos_of_mem hv))
    rw [hw, List.mem_singleton] at hu hv
    exact huv (hu.trans hv.symm)

theorem exists_component {root : α} (hroot : root ∈ roots) (hreach : edges.Reaches root v)
    (hcycle : edges.Leads v v) :
    ∃ component ∈ edges.cyclicComponents roots,
      ∀ u, u ∈ component ↔ edges.Reaches v u ∧ edges.Reaches u v := by
  have hentered : v ∈ (edges.walk roots).entered := mem_walk_entered.2 ⟨root, hroot, hreach⟩
  have hmem : ∀ u, u ∈ edges.classOf (edges.walk roots) v ↔ edges.Reaches v u ∧ edges.Reaches u v := by
    intro u
    rw [mem_classOf, and_iff_right_iff_imp]
    exact fun h => mem_walk_entered.2 ⟨root, hroot, hreach.trans h.1⟩
  -- the class is listed with the member that was entered first
  have hne : edges.classOf (edges.walk roots) v ≠ [] := List.ne_nil_of_mem ((hmem v).2 ⟨.refl, .refl⟩)
  obtain ⟨first, hfirst⟩ := List.getLast?_isSome.2 hne |> Option.isSome_iff_exists.1
  obtain ⟨hto, hback⟩ := (hmem first).1 (List.mem_of_getLast? hfirst)
  have hclass : edges.classOf (edges.walk roots) first = edges.classOf (edges.walk roots) v :=
    classOf_congr hback hto
  have hleft : first ∈ (edges.walk roots).left :=
    mem_walk_left_of_entered (mem_walk_entered.2 ⟨root, hroot, hreach.trans hto⟩)
  have hholds : edges.holdsCycle first (edges.classOf (edges.walk roots) v) = true := by
    refine holdsCycle_of_leads (.trans_right hback (.trans_left hcycle hto)) fun u hu hu' => ?_
    exact (hmem u).2 ⟨hto.trans hu, hu'.trans hback⟩
  refine ⟨edges.classOf (edges.walk roots) v, ?_, hmem⟩
  unfold cyclicComponents
  refine List.mem_filterMap.2 ⟨first, List.mem_reverse.2 hleft, ?_⟩
  dsimp only
  rw [hclass, if_pos ⟨hfirst, hholds⟩]

end Components

section Cover

variable {roots within covered vs path : List α} {v : α}

theorem exists_cycle_of_mem_cover (h : path ∈ edges.cover roots within covered vs) :
    ∃ v cycle, edges.cycleThrough v within = some cycle ∧ path = turned roots cycle := by
  induction vs generalizing covered with
  | nil => cases h
  | cons u vs ih =>
    unfold cover at h
    split at h
    · exact ih h
    · split at h
      · exact ih h
      · rename_i cycle hcycle
        rcases List.mem_cons.1 h with rfl | h
        · exact ⟨u, cycle, hcycle, rfl⟩
        · exact ih h

/-- A vertex through which a cycle can be found is on an earlier cycle or on one of those given. -/
theorem covered_or_mem_cover {cycle : List α} (roots covered : List α) (hv : v ∈ vs)
    (hcycle : edges.cycleThrough v within = some cycle) :
    v ∈ covered ∨ ∃ path ∈ edges.cover roots within covered vs, v ∈ path := by
  induction vs generalizing covered with
  | nil => cases hv
  | cons u vs ih =>
    have hfound {cycle u : _} (h : edges.cycleThrough u within = some cycle) {w : α} (hw : w ∈ cycle) :
        w ∈ turned roots cycle := ((isCycle_turned (isCycle_cycleThrough h).1).2 w).2 hw
    have hthrough : v ∈ cycle := List.mem_of_mem_head? (isCycle_cycleThrough hcycle).2.1
    unfold cover
    split
    · rename_i hu
      rcases List.mem_cons.1 hv with rfl | hv
      · exact .inl hu
      · exact ih covered hv
    · rcases List.mem_cons.1 hv with rfl | hv
      · rw [hcycle]
        exact .inr ⟨_, List.mem_cons_self, hfound hcycle hthrough⟩
      · split
        · exact ih covered hv
        · rename_i cycle' hcycle'
          rcases ih (covered ++ cycle') hv with hcov | ⟨path, hpath, hmem⟩
          · rcases List.mem_append.1 hcov with hcov | hcov
            · exact .inl hcov
            · exact .inr ⟨_, List.mem_cons_self, hfound hcycle' hcov⟩
          · exact .inr ⟨path, List.mem_cons_of_mem _ hpath, hmem⟩

theorem mem_findCycles : path ∈ edges.findCycles roots ↔
    ∃ component ∈ edges.cyclicComponents roots, path ∈ edges.cover roots
      (sortedBy (rank roots) component) [] (sortedBy (rank roots) component) := by
  unfold findCycles sortedBy
  simp

theorem isCycle_of_mem_findCycles (h : path ∈ edges.findCycles roots) : edges.IsCycle path := by
  obtain ⟨component, -, hpath⟩ := mem_findCycles.1 h
  obtain ⟨v, cycle, hcycle, rfl⟩ := exists_cycle_of_mem_cover hpath
  exact (isCycle_turned (isCycle_cycleThrough hcycle).1).1

theorem exists_mem_findCycles {root : α} (hroot : root ∈ roots) (hreach : edges.Reaches root v)
    (hcycle : edges.Leads v v) : ∃ path ∈ edges.findCycles roots, v ∈ path := by
  obtain ⟨component, hcomponent, hmem⟩ := exists_component hroot hreach hcycle
  have hsorted : ∀ u, u ∈ sortedBy (rank roots) component ↔ edges.Reaches v u ∧ edges.Reaches u v := by
    intro u
    rw [sortedBy, List.mem_mergeSort, hmem]
  obtain ⟨u, hto, hedge⟩ := hcycle.exists_last
  obtain ⟨cycle, hfound⟩ := exists_cycleThrough
    (reaches_inside (fun u hu hu' => (hsorted u).2 ⟨hu, hu'⟩) hto (.single hedge)) hedge
  rcases covered_or_mem_cover roots [] ((hsorted v).2 ⟨.refl, .refl⟩) hfound with
    hcov | ⟨path, hpath, hv⟩
  · cases hcov
  · exact ⟨path, mem_findCycles.2 ⟨component, hcomponent, hpath⟩, hv⟩

end Cover

end DialogueScript.Edges
