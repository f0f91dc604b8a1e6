import Mathlib.Logic.Relation
import DialogueScript.Digraph

namespace DialogueScript.Edges

variable {α : Type} [DecidableEq α] {edges : Edges α}

/-- A path of edges, perhaps an empty one, leads from the first vertex to the second. -/
abbrev Reaches (edges : Edges α) : α → α → Prop := Relation.ReflTransGen fun a b => (a, b) ∈ edges

theorem mem_successors {v w : α} : w ∈ edges.successors v ↔ (v, w) ∈ edges := by
  unfold successors
  rw [List.mem_filterMap]
  constructor
  · rintro ⟨⟨a, b⟩, he, h⟩
    split at h
    · cases h
      simp_all
    · cases h
  · exact fun h => ⟨(v, w), h, by simp⟩

omit [DecidableEq α] in
theorem mem_reversed {v w : α} : (v, w) ∈ edges.reversed ↔ (w, v) ∈ edges := by
  unfold reversed
  rw [List.mem_map]
  constructor
  · rintro ⟨⟨a, b⟩, he, h⟩
    cases h
    exact he
  · exact fun h => ⟨(w, v), h, rfl⟩

omit [DecidableEq α] in
theorem reaches_reversed {a b : α} : edges.reversed.Reaches a b ↔ edges.Reaches b a := by
  have hswap : (fun a b => (a, b) ∈ edges.reversed) = Function.swap fun a b => (a, b) ∈ edges := by
    funext a b
    exact propext mem_reversed
  unfold Reaches
  rw [hswap, Relation.reflTransGen_swap]

omit [DecidableEq α] in
/-- A set that is closed under the edges holds all that can be reached from it. -/
theorem Reaches.mem_of_closed {a b : α} {p : α → Prop} (h : edges.Reaches a b)
    (hclosed : ∀ v w, (v, w) ∈ edges → p v → p w) (ha : p a) : p b := by
  induction h with
  | refl => exact ha
  | tail _ hedge ih => exact hclosed _ _ hedge ih

section Search

theorem mem_search_of_seen {seen todo : List α} {v : α} (h : v ∈ seen) : v ∈ edges.search seen todo := by
  fun_induction search edges seen todo with
  | case1 => exact h
  | case2 seen u rest hu ih => exact ih h
  | case3 seen u rest hu ih => exact ih (List.mem_cons_of_mem _ h)

theorem mem_search_of_todo {seen todo : List α} {v : α} (h : v ∈ todo) : v ∈ edges.search seen todo := by
  fun_induction search edges seen todo with
  | case1 => cases h
  | case2 seen u rest hu ih =>
    rcases List.mem_cons.1 h with rfl | h
    · exact mem_search_of_seen hu
    · exact ih h
  | case3 seen u rest hu ih =>
    rcases List.mem_cons.1 h with rfl | h
    · exact mem_search_of_seen List.mem_cons_self
    · exact ih (List.mem_append_left _ h)

theorem search_closed {seen todo : List α}
    (h : ∀ v ∈ seen, ∀ w, (v, w) ∈ edges → w ∈ seen ∨ w ∈ todo) {v w : α} (hedge : (v, w) ∈ edges)
    (hv : v ∈ edges.search seen todo) : w ∈ edges.search seen todo := by
  fun_induction search edges seen todo with
  | case1 => simpa using h v hv w hedge
  | case2 seen u rest hu ih =>
    refine ih (fun a ha b hab => ?_) hv
    rcases h a ha b hab with hb | hb
    · exact .inl hb
    · rcases List.mem_cons.1 hb with rfl | hb
      · exact .inl hu
      · exact .inr hb
  | case3 seen u rest hu ih =>
    refine ih (fun a ha b hab => ?_) hv
    rw [List.mem_cons, List.mem_append, mem_successors]
    rcases List.mem_cons.1 ha with rfl | ha
    · exact .inr (.inr hab)
    · rcases h a ha b hab with hb | hb
      · exact .inl (.inr hb)
      · rcases List.mem_cons.1 hb with rfl | hb
        · exact .inl (.inl rfl)
        · exact .inr (.inl hb)

theorem reaches_of_mem_search {seen todo : List α} {v : α} (h : v ∈ edges.search seen todo) :
    v ∈ seen ∨ ∃ u ∈ todo, edges.Reaches u v := by
  fun_induction search edges seen todo with
  | case1 => exact .inl h
  | case2 seen u rest hu ih =>
    rcases ih h with hv | ⟨w, hw, hreach⟩
    · exact .inl hv
    · exact .inr ⟨w, List.mem_cons_of_mem _ hw, hreach⟩
  | case3 seen u rest hu ih =>
    rcases ih h with hv | ⟨w, hw, hreach⟩
    · rcases List.mem_cons.1 hv with rfl | hv
      · exact .inr ⟨v, List.mem_cons_self, .refl⟩
      · exact .inl hv
    · rcases List.mem_append.1 hw with hw | hw
      · exact .inr ⟨w, List.mem_cons_of_mem _ hw, hreach⟩
      · exact .inr ⟨u, List.mem_cons_self, .head (mem_successors.1 hw) hreach⟩

/-- The search from a vertex finds just what can be reached from it. -/
theorem mem_reachableFrom {root v : α} : v ∈ edges.reachableFrom root ↔ edges.Reaches root v := by
  constructor
  · intro h
    rcases reaches_of_mem_search h with hv | ⟨u, hu, hreach⟩
    · cases hv
    · obtain rfl := List.mem_singleton.1 hu
      exact hreach
  -- what has been seen is closed under the edges up to what is left to look at, of which there is none in the end
  · intro h
    have hroot : root ∈ edges.reachableFrom root := mem_search_of_todo List.mem_cons_self
    exact h.mem_of_closed (fun _ _ hedge => search_closed (by simp) hedge) hroot

end Search

section Walk

variable {walk : Walk α} {tasks : List (Task α)} {v : α}

omit [DecidableEq α] in
theorem enter_mem_leave {u : α} : .enter v ∈ Task.leave u :: tasks ↔ .enter v ∈ tasks := by simp

omit [DecidableEq α] in
theorem enter_mem_enter {u : α} : .enter v ∈ Task.enter u :: tasks ↔ v = u ∨ .enter v ∈ tasks := by simp

omit [DecidableEq α] in
theorem leave_mem_enter {u : α} : .leave v ∈ Task.enter u :: tasks ↔ .leave v ∈ tasks := by simp

omit [DecidableEq α] in
theorem leave_mem_leave {u : α} : .leave v ∈ Task.leave u :: tasks ↔ v = u ∨ .leave v ∈ tasks := by simp

theorem mem_entered_of_entered (h : v ∈ walk.entered) : v ∈ (edges.walkOn walk tasks).entered := by
  fun_induction walkOn edges walk tasks with
  | case1 => exact h
  | case2 walk u rest ih => exact ih h
  | case3 walk u rest hu ih => exact ih h
  | case4 walk u rest hu ih => exact ih (List.mem_cons_of_mem _ h)

theorem mem_entered_of_task (h : .enter v ∈ tasks) : v ∈ (edges.walkOn walk tasks).entered := by
  fun_induction walkOn edges walk tasks with
  | case1 => cases h
  | case2 walk u rest ih => exact ih (enter_mem_leave.1 h)
  | case3 walk u rest hu ih =>
    rcases enter_mem_enter.1 h with rfl | h
    · exact mem_entered_of_entered hu
    · exact ih h
  | case4 walk u rest hu ih =>
    rcases enter_mem_enter.1 h with rfl | h
    · exact mem_entered_of_entered List.mem_cons_self
    · exact ih (List.mem_append_right _ (List.mem_cons_of_mem _ h))

theorem entered_closed (h : ∀ v ∈ walk.entered, ∀ w, (v, w) ∈ edges →
      w ∈ walk.entered ∨ .enter w ∈ tasks) {w : α} (hedge : (v, w) ∈ edges)
    (hv : v ∈ (edges.walkOn walk tasks).entered) : w ∈ (edges.walkOn walk tasks).entered := by
  fun_induction walkOn edges walk tasks with
  | case1 => simpa using h v hv w hedge
  | case2 walk u rest ih => exact ih (fun a ha b hab => (h a ha b hab).imp_right enter_mem_leave.1) hv
  | case3 walk u rest hu ih =>
    refine ih (fun a ha b hab => ?_) hv
    rcases h a ha b hab with hb | hb
    · exact .inl hb
    · rcases enter_mem_enter.1 hb with rfl | hb
      · exact .inl hu
      · exact .inr hb
  | case4 walk u rest hu ih =>
    refine ih (fun a ha b hab => ?_) hv
    rcases List.mem_cons.1 ha with rfl | ha
    · exact .inr (List.mem_append_left _ (List.mem_map_of_mem (mem_successors.2 hab)))
    · rcases h a ha b hab with hb | hb
      · exact .inl (List.mem_cons_of_mem _ hb)
      · rcases enter_mem_enter.1 hb with rfl | hb
        · exact .inl List.mem_cons_self
        · exact .inr (List.mem_append_right _ (List.mem_cons_of_mem _ hb))

theorem reaches_of_mem_entered (h : v ∈ (edges.walkOn walk tasks).entered) :
    v ∈ walk.entered ∨ ∃ u, .enter u ∈ tasks ∧ edges.Reaches u v := by
  fun_induction walkOn edges walk tasks with
  | case1 => exact .inl h
  | case2 walk u rest ih | case3 walk u rest hu ih =>
    rcases ih h with hv | ⟨w, hw, hreach⟩
    · exact .inl hv
    · exact .inr ⟨w, List.mem_cons_of_mem _ hw, hreach⟩
  | case4 walk u rest hu ih =>
    rcases ih h with hv | ⟨w, hw, hreach⟩
    · rcases List.mem_cons.1 hv with rfl | hv
      · exact .inr ⟨v, List.mem_cons_self, .refl⟩
      · exact .inl hv
    · rcases List.mem_append.1 hw with hw | hw
      · obtain ⟨w', hw', heq⟩ := List.mem_map.1 hw
        cases heq
        exact .inr ⟨u, List.mem_cons_self, .head (mem_successors.1 hw') hreach⟩
      · exact .inr ⟨w, List.mem_cons_of_mem _ (enter_mem_leave.1 hw), hreach⟩

theorem mem_left_of_entered (h : ∀ v ∈ walk.entered, v ∈ walk.left ∨ .leave v ∈ tasks)
    (hv : v ∈ (edges.walkOn walk tasks).entered) : v ∈ (edges.walkOn walk tasks).left := by
  fun_induction walkOn edges walk tasks with
  | case1 => simpa using h v hv
  | case2 walk u rest ih =>
    refine ih (fun a ha => ?_) hv
    rcases h a ha with hleft | htask
    · exact .inl (List.mem_cons_of_mem _ hleft)
    · rcases leave_mem_leave.1 htask with rfl | htask
      · exact .inl List.mem_cons_self
      · exact .inr htask
  | case3 walk u rest hu ih => exact ih (fun a ha => (h a ha).imp_right leave_mem_enter.1) hv
  | case4 walk u rest hu ih =>
    refine ih (fun a ha => ?_) hv
    rw [List.mem_append, List.mem_cons]
    rcases List.mem_cons.1 ha with rfl | ha
    · exact .inr (.inr (.inl rfl))
    · exact (h a ha).imp_right fun htask => .inr (.inr (leave_mem_enter.1 htask))

variable {roots : List α}

/-- A walk enters just the vertices that can be reached from its roots. -/
theorem mem_walk_entered :
    v ∈ (edges.walk roots).entered ↔ ∃ root ∈ roots, edges.Reaches root v := by
  constructor
  · intro h
    rcases reaches_of_mem_entered h with hv | ⟨u, hu, hreach⟩
    · cases hv
    · obtain ⟨root, hroot, heq⟩ := List.mem_map.1 hu
      cases heq
      exact ⟨u, hroot, hreach⟩
  · rintro ⟨root, hroot, hreach⟩
    have hmem : root ∈ (edges.walk roots).entered := mem_entered_of_task (List.mem_map_of_mem hroot)
    exact hreach.mem_of_closed (fun _ _ hedge => entered_closed (by simp) hedge) hmem

theorem mem_walk_left_of_entered (h : v ∈ (edges.walk roots).entered) : v ∈ (edges.walk roots).left :=
  mem_left_of_entered (by simp) h

end Walk

end DialogueScript.Edges
