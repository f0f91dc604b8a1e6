import DialogueScript.Proofs.LowlinkWalk

namespace DialogueScript.Edges

variable {α : Type} [DecidableEq α] {edges : Edges α}

namespace Lowlinks

variable {s s' : Lowlinks α} {walk : Walk α} {v next : α} {followed : Nat} {frames : List (α × Nat)}

section Pending

/-- What the walk has still to do for the vertices that are being visited. -/
def pending (edges : Edges α) (frames : List (α × Nat)) : List (Task α) :=
  frames.flatMap fun f => ((edges.successors f.1).drop f.2).map .enter ++ [.leave f.1]

theorem pending_follow (hnext : (edges.successors v)[followed]? = some next) :
    pending edges ((v, followed) :: frames) = .enter next :: pending edges ((v, followed + 1) :: frames) := by
  obtain ⟨hlt, hvalue⟩ := List.getElem?_eq_some_iff.1 hnext
  unfold pending
  rw [List.flatMap_cons, List.flatMap_cons, List.drop_eq_getElem_cons hlt, hvalue]
  rfl

theorem pending_done (hdone : (edges.successors v)[followed]? = none) :
    pending edges ((v, followed) :: frames) = .leave v :: pending edges frames := by
  unfold pending
  rw [List.flatMap_cons, List.drop_eq_nil_of_le (List.getElem?_eq_none_iff.1 hdone)]
  rfl

theorem pending_enter (rest : List (Task α)) : pending edges ((v, 0) :: frames) ++ rest =
    (edges.successors v).map .enter ++ .leave v :: (pending edges frames ++ rest) := by
  simp [pending]

theorem walkOn_leave (rest : List (Task α)) :
    edges.walkOn walk (.leave v :: rest) = edges.walkOn { walk with left := v :: walk.left } rest := by
  rw [walkOn]

theorem walkOn_entered (hold : v ∈ walk.entered) (rest : List (Task α)) :
    edges.walkOn walk (.enter v :: rest) = edges.walkOn walk rest := by
  rw [walkOn, dif_pos hold]

theorem walkOn_enter (hnew : v ∉ walk.entered) (rest : List (Task α)) : edges.walkOn walk (.enter v :: rest) =
    edges.walkOn { walk with entered := v :: walk.entered } ((edges.successors v).map .enter ++ .leave v :: rest) := by
  rw [walkOn, dif_neg hnew]

end Pending

namespace Sound

theorem step (h : Sound edges s walk) (hstep : s.step edges = some s') (rest : List (Task α)) :
    ∃ walk', Sound edges s' walk' ∧
      edges.walkOn walk (pending edges s.frames ++ rest) = edges.walkOn walk' (pending edges s'.frames ++ rest) := by
  obtain ⟨v, followed, frames, hframes, hmoves⟩ := step_eq_some hstep
  have hframed := h.framed
  rw [hframes] at hframed ⊢
  cases hmoves with
  | @enter next hnext hnew =>
    have hkept : ∀ u ∈ s.stack, (s.enter next).indexOf u = s.indexOf u ∧ (s.enter next).lowOf u = s.lowOf u := by
      intro u hu
      have hne : u ≠ next := by
        rintro rfl
        exact hnew (h.stacked.subset hu)
      rw [indexOf_enter, lowOf_enter, if_neg hne, if_neg hne]
      exact ⟨rfl, rfl⟩
    have hfollowed : Framed edges (s.enter next) ((v, followed + 1) :: frames) s.stack := by
      refine (hframed.congr (List.subset_cons_self _ _) hkept).follow hnext List.mem_cons_self fun hstack => ?_
      exact absurd (h.stacked.subset hstack) hnew
    have hlink : ∀ f ∈ ((v, followed + 1) :: frames).head?, edges.Reaches f.1 next := by
      rintro f hf
      cases hf
      exact .single (mem_successors.1 (List.mem_of_getElem? hnext))
    refine ⟨_, h.enter hnew (by rw [hframes]; rfl) hfollowed hlink, ?_⟩
    rw [pending_follow hnext, List.cons_append, walkOn_enter (h.entered ▸ hnew)]
    exact congrArg _ (pending_enter rest).symm
  | @lower next hnext hold hstack =>
    have hedge : (v, next) ∈ edges := mem_successors.1 (List.mem_of_getElem? hnext)
    have hlowered := hframed.lower h.descending ((h.onStack next).1 hstack) (.single hedge)
    have hfollowed := hlowered.follow hnext hold fun _ => by
      rw [lowOf_lower, if_pos rfl]
      exact Nat.min_le_right _ _
    refine ⟨walk, h.relink rfl rfl rfl rfl (by rw [hframes]; rfl) ?_, ?_⟩
    · exact hfollowed.congr (List.Subset.refl _) fun _ _ => ⟨rfl, rfl⟩
    · rw [pending_follow hnext, List.cons_append, walkOn_entered (h.entered ▸ hold)]
      rfl
  | @pass next hnext hold hstack =>
    have hfollowed := hframed.follow hnext hold fun hmem => absurd ((h.onStack next).2 hmem) hstack
    refine ⟨walk, h.relink rfl rfl rfl rfl (by rw [hframes]; rfl) ?_, ?_⟩
    · exact hfollowed.congr (List.Subset.refl _) fun _ _ => ⟨rfl, rfl⟩
    · rw [pending_follow hnext, List.cons_append, walkOn_entered (h.entered ▸ hold)]
  | leave hdone =>
    refine ⟨_, h.leave hframes hdone, ?_⟩
    rw [pending_done hdone, frames_leave, List.cons_append, walkOn_leave]

theorem run (h : Sound edges s walk) (rest : List (Task α)) :
    ∃ walk', Sound edges (s.run edges) walk' ∧ (s.run edges).frames = [] ∧
      edges.walkOn walk (pending edges s.frames ++ rest) = edges.walkOn walk' rest := by
  fun_induction Lowlinks.run edges s generalizing walk with
  | case1 s hnone =>
    have hframes := step_eq_none.1 hnone
    exact ⟨walk, h, hframes, by rw [hframes]; rfl⟩
  | case2 s s' hsome ih =>
    obtain ⟨walk', hwalk', hsame⟩ := h.step hsome rest
    obtain ⟨walk'', hwalk'', hframes, hsame'⟩ := ih hwalk'
    exact ⟨walk'', hwalk'', hframes, hsame.trans hsame'⟩

theorem visit (h : Sound edges s walk) (hframes : s.frames = []) (root : α) (rest : List (Task α)) :
    ∃ walk', Sound edges (s.visit edges root) walk' ∧ (s.visit edges root).frames = [] ∧
      edges.walkOn walk (.enter root :: rest) = edges.walkOn walk' rest := by
  unfold Lowlinks.visit
  split
  · rename_i hold
    exact ⟨walk, h, hframes, walkOn_entered (h.entered ▸ hold) rest⟩
  · rename_i hnew
    have hframed : Framed edges (s.enter root) s.frames s.stack := by
      have hstack : s.stack = [] := (hframes ▸ h.framed).eq_nil
      rw [hframes, hstack]
      exact .nil
    have hentered := h.enter hnew rfl hframed (by simp [hframes])
    obtain ⟨walk', hwalk', hdone, hsame⟩ := hentered.run rest
    refine ⟨walk', hwalk', hdone, ?_⟩
    rw [walkOn_enter (h.entered ▸ hnew), ← hsame]
    change _ = edges.walkOn _ (pending edges ((root, 0) :: s.frames) ++ rest)
    rw [pending_enter, hframes]
    rfl

theorem visits (h : Sound edges s walk) (hframes : s.frames = []) (roots : List α) :
    Sound edges (roots.foldl (Lowlinks.visit edges) s) (edges.walkOn walk (roots.map .enter)) := by
  induction roots generalizing s walk with
  | nil =>
    rw [List.map_nil, walkOn]
    exact h
  | cons root roots ih =>
    obtain ⟨walk', hwalk', hdone, hsame⟩ := h.visit hframes root (roots.map .enter)
    rw [List.map_cons, hsame]
    exact ih hwalk' hdone

end Sound

end Lowlinks

section Components

variable {roots : List α} {component : List α}

theorem sound_lowlinks (edges : Edges α) (roots : List α) :
    Lowlinks.Sound edges (roots.foldl (Lowlinks.visit edges) .start) (edges.walk roots) :=
  Lowlinks.sound_start.visits rfl roots

theorem lowlinkComponents_eq (edges : Edges α) (roots : List α) :
    edges.lowlinkComponents roots = edges.cyclicComponents roots :=
  (sound_lowlinks edges roots).components

/-- All vertices that lead to each other with one of them, and a cycle among them. -/
structure IsComponent (edges : Edges α) (component : List α) : Prop where
  nodup : component.Nodup
  together : ∀ v ∈ component, ∀ u, u ∈ component ↔ edges.Reaches v u ∧ edges.Reaches u v
  cyclic : 1 < component.length ∨ ∃ v, component = [v] ∧ (v, v) ∈ edges

theorem exists_classOf_eq (h : component ∈ edges.cyclicComponents roots) :
    ∃ v, edges.classOf (edges.walk roots) v = component ∧ component.getLast? = some v ∧
      edges.holdsCycle v component = true := by
  rw [cyclicComponents_eq, List.mem_filterMap] at h
  obtain ⟨v, -, hcomponent⟩ := h
  exact ⟨v, componentAt_eq_some.1 hcomponent⟩

theorem isComponent_of_mem (h : component ∈ edges.cyclicComponents roots) : edges.IsComponent component := by
  obtain ⟨v, rfl, hlast, hholds⟩ := exists_classOf_eq h
  have hsound := sound_lowlinks edges roots
  refine ⟨?_, fun w hw u => ?_, ?_⟩
  · exact (hsound.entered ▸ hsound.numbered.nodup).filter _
  · obtain ⟨hentered, hto, hback⟩ := mem_classOf.1 hw
    obtain ⟨root, hroot, hreach⟩ := mem_walk_entered.1 hentered
    rw [classOf_congr hto hback, mem_classOf, and_iff_right_iff_imp]
    exact fun hu => mem_walk_entered.2 ⟨root, hroot, hreach.trans hu.1⟩
  · rcases of_decide_eq_true hholds with hlong | hself
    · exact .inl hlong
    · obtain ⟨front, hfront⟩ := List.getLast?_eq_some_iff.1 hlast
      rw [hfront]
      cases front with
      | nil => exact .inr ⟨v, rfl, hself⟩
      | cons u front => exact .inl (by simp)

theorem exists_root_of_mem_component {v : α} (h : component ∈ edges.cyclicComponents roots) (hv : v ∈ component) :
    ∃ root ∈ roots, edges.Reaches root v := by
  obtain ⟨w, rfl, -⟩ := exists_classOf_eq h
  exact mem_walk_entered.1 (mem_classOf.1 hv).1

omit [DecidableEq α] in
theorem IsComponent.leads (h : edges.IsComponent component) {v : α} (hv : v ∈ component) : edges.Leads v v := by
  rcases h.cyclic with hlong | ⟨w, rfl, hself⟩
  · have hnot : component ≠ [v] := by
      rintro rfl
      exact Nat.lt_irrefl _ hlong
    obtain ⟨u, hu, hne⟩ := (h.nodup.ne_singleton_iff v).1 hnot |>.resolve_left (List.ne_nil_of_mem hv)
    obtain ⟨hto, hback⟩ := (h.together v hv u).1 hu
    exact .trans_left ((Relation.reflTransGen_iff_eq_or_transGen.1 hto).resolve_left hne) hback
  · obtain rfl := List.mem_singleton.1 hv
    exact .single hself

/-- The components hold just the vertices that can be reached from a root and lead back to themselves. -/
theorem exists_mem_component_iff {v : α} : (∃ component ∈ edges.cyclicComponents roots, v ∈ component) ↔
    (∃ root ∈ roots, edges.Reaches root v) ∧ edges.Leads v v := by
  constructor
  · rintro ⟨component, hcomponent, hv⟩
    exact ⟨exists_root_of_mem_component hcomponent hv, (isComponent_of_mem hcomponent).leads hv⟩
  · rintro ⟨⟨root, hroot, hreach⟩, hcycle⟩
    obtain ⟨component, hcomponent, hmem⟩ := exists_component hroot hreach hcycle
    exact ⟨component, hcomponent, (hmem v).2 ⟨.refl, .refl⟩⟩

/-- No path leads from a component to one that is listed later. -/
theorem ordered_cyclicComponents (edges : Edges α) (roots : List α) : (edges.cyclicComponents roots).Pairwise
    fun earlier later => ∀ u ∈ earlier, ∀ w ∈ later, ¬ edges.Reaches u w := by
  rw [← lowlinkComponents_eq]
  exact (sound_lowlinks edges roots).ordered

theorem disjoint_cyclicComponents (edges : Edges α) (roots : List α) :
    (edges.cyclicComponents roots).Pairwise List.Disjoint :=
  (ordered_cyclicComponents edges roots).imp fun hlater v hu hw => hlater v hu v hw .refl

/-- The components are exactly those of the vertices that can be reached from a root and lead back to themselves.
They have no vertex in common, each comes before those that lead to it, and the search by low links lists the
same. -/
theorem cyclicComponents_exact (edges : Edges α) (roots : List α) :
    (∀ component ∈ edges.cyclicComponents roots, edges.IsComponent component) ∧
      (edges.cyclicComponents roots).Pairwise List.Disjoint ∧
      (∀ v, (∃ component ∈ edges.cyclicComponents roots, v ∈ component) ↔
        (∃ root ∈ roots, edges.Reaches root v) ∧ edges.Leads v v) ∧
      (edges.cyclicComponents roots).Pairwise
        (fun earlier later => ∀ u ∈ earlier, ∀ w ∈ later, ¬ edges.Reaches u w) ∧
      edges.lowlinkComponents roots = edges.cyclicComponents roots :=
  ⟨fun _ => isComponent_of_mem, disjoint_cyclicComponents edges roots, fun _ => exists_mem_component_iff,
    ordered_cyclicComponents edges roots, lowlinkComponents_eq edges roots⟩

end Components

end DialogueScript.Edges
