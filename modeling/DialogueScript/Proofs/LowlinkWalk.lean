import DialogueScript.Proofs.LowlinkFrames

namespace DialogueScript.Edges

variable {α : Type} [DecidableEq α] {edges : Edges α}

/-- The component of `v`, if `v` is the first of it to be entered and it holds a cycle. -/
def componentAt (edges : Edges α) (walk : Walk α) (v : α) : Option (List α) :=
  let members := edges.classOf walk v
  if members.getLast? = some v ∧ edges.holdsCycle v members then some members else none

theorem componentAt_eq_some {walk : Walk α} {v : α} {component : List α} :
    edges.componentAt walk v = some component ↔ edges.classOf walk v = component ∧
      component.getLast? = some v ∧ edges.holdsCycle v component = true := by
  unfold componentAt
  dsimp only
  constructor
  · intro h
    split at h
    · rename_i hfirst
      obtain rfl := Option.some.inj h
      exact ⟨rfl, hfirst⟩
    · cases h
  · rintro ⟨rfl, hfirst⟩
    exact if_pos hfirst

theorem cyclicComponents_eq (edges : Edges α) (roots : List α) :
    edges.cyclicComponents roots = (edges.walk roots).left.reverse.filterMap (edges.componentAt (edges.walk roots)) :=
  rfl

namespace Lowlinks

variable {s s' : Lowlinks α} {walk : Walk α} {u v w : α} {followed : Nat} {frames : List (α × Nat)}
  {above below : List α}

section Close

theorem close_eq (hstack : s.stack = above ++ v :: below) (habove : v ∉ above) :
    s.close edges v = { s with
      stack := below
      onStack := s.onStack.filter (· ∉ above ++ [v])
      components :=
        s.components ++ (if edges.holdsCycle v (above ++ [v]) then some (above ++ [v]) else none).toList } := by
  have hne : ∀ u ∈ above, decide (u ≠ v) = true := by
    rintro u hu
    rw [decide_eq_true_eq]
    rintro rfl
    exact habove hu
  have htake : s.stack.takeWhile (· ≠ v) = above := by
    rw [hstack, List.takeWhile_append_of_pos hne]
    simp
  have hdrop : s.stack.dropWhile (· ≠ v) = v :: below := by
    rw [hstack, List.dropWhile_append_of_pos hne]
    simp
  unfold close
  rw [htake, hdrop]
  change { s with
    stack := below
    onStack := s.onStack.filter (· ∉ above ++ [v])
    components := if edges.holdsCycle v (above ++ [v]) then s.components ++ [above ++ [v]] else s.components } = _
  split
  · rfl
  · simp

/-- Leaving `v` takes its component off the stack, or leaves it on the stack with an earlier vertex. -/
theorem leave_cases (outer : Framed edges s frames below) (hdescending : s.Descending (above ++ v :: below)) :
    ∃ lowlink, ({ s with frames } : Lowlinks α).lowerTop (s.lowOf v) = { s with frames, lowlink } ∧
      s.leave edges v frames = if s.lowOf v = s.indexOf v then
        ({ s with frames, lowlink } : Lowlinks α).close edges v else { s with frames, lowlink } := by
  obtain ⟨lowlink, hlower⟩ := lowerTop_eq ({ s with frames } : Lowlinks α) (s.lowOf v)
  refine ⟨lowlink, hlower, ?_⟩
  have hlow : (({ s with frames } : Lowlinks α).lowerTop (s.lowOf v)).lowOf v = s.lowOf v :=
    lowOf_lowerTop fun f hf hvf => absurd hvf.symm (hdescending.ne (outer.head_mem f hf))
  unfold leave
  dsimp only
  rw [hlow, indexOf_lowerTop, hlower]
  rfl

end Close

/-- What holds at each step, next to the walk that has come equally far. -/
structure Sound (edges : Edges α) (s : Lowlinks α) (walk : Walk α) : Prop where
  entered : walk.entered = s.entered
  numbered : s.Descending s.entered
  bounded : ∀ v ∈ s.entered, s.indexOf v < s.index.length
  stacked : s.stack.Sublist s.entered
  onStack : ∀ v, v ∈ s.onStack ↔ v ∈ s.stack
  framed : Framed edges s s.frames s.stack
  settled : ∀ v ∈ s.entered, v ∉ s.stack → ∀ w, (v, w) ∈ edges → w ∈ s.entered ∧ w ∉ s.stack
  left : ∀ v ∈ walk.left, v ∈ s.entered ∧ v ∉ s.frames.map Prod.fst
  components : s.components = walk.left.reverse.filterMap (edges.componentAt walk)
  taken : ∀ c ∈ s.components, ∀ v ∈ c, v ∈ s.entered ∧ v ∉ s.stack
  ordered : s.components.Pairwise fun earlier later => ∀ u ∈ earlier, ∀ w ∈ later, ¬ edges.Reaches u w

theorem sound_start : Sound edges .start ⟨[], []⟩ where
  entered := rfl
  numbered := .nil
  bounded := by simp [start, Lowlinks.entered]
  stacked := List.nil_sublist _
  onStack := fun _ => Iff.rfl
  framed := .nil
  settled := by simp [start, Lowlinks.entered]
  left := by simp
  components := rfl
  taken := by simp [start]
  ordered := .nil

namespace Sound

theorem descending (h : Sound edges s walk) : s.Descending s.stack := h.numbered.sublist h.stacked

theorem settled_of_reaches (h : Sound edges s walk) (hv : v ∈ s.entered) (hstack : v ∉ s.stack)
    (hreach : edges.Reaches v w) : w ∈ s.entered ∧ w ∉ s.stack := by
  have hclosed : ∀ a b, (a, b) ∈ edges → (a ∈ s.entered ∧ a ∉ s.stack) → b ∈ s.entered ∧ b ∉ s.stack :=
    fun a b hedge ha => h.settled a ha.1 ha.2 b hedge
  exact hreach.mem_of_closed hclosed ⟨hv, hstack⟩

theorem getLast?_classOf (h : Sound edges s walk) (hu : u ∈ s.entered) (hlt : s.indexOf u < s.indexOf v)
    (hvu : edges.Reaches v u) (huv : edges.Reaches u v) : (edges.classOf walk v).getLast? ≠ some v := by
  intro hlast
  obtain ⟨front, hfront⟩ := List.getLast?_eq_some_iff.1 hlast
  have hmem : u ∈ front ++ [v] := hfront ▸ mem_classOf.2 ⟨h.entered ▸ hu, hvu, huv⟩
  have hsub : (edges.classOf walk v).Sublist s.entered := h.entered ▸ List.filter_sublist
  have hsorted : s.Descending (front ++ [v]) := hfront ▸ h.numbered.sublist hsub
  rcases List.mem_append.1 hmem with hmem | hmem
  · exact Nat.lt_asymm hlt ((List.pairwise_append.1 hsorted).2.2 u hmem v List.mem_cons_self)
  · obtain rfl := List.mem_singleton.1 hmem
    exact Nat.lt_irrefl _ hlt

theorem classOf_enter_of_together (h : edges.Reaches v w ∧ edges.Reaches w v) :
    edges.classOf { walk with entered := w :: walk.entered } v = w :: edges.classOf walk v := by
  unfold classOf
  dsimp only
  rw [List.filter_cons_of_pos]
  rwa [decide_eq_true_eq, mem_reachableFrom, mem_reachableFrom, reaches_reversed]

theorem classOf_enter_of_not_together (h : ¬ (edges.Reaches v w ∧ edges.Reaches w v)) :
    edges.classOf { walk with entered := w :: walk.entered } v = edges.classOf walk v := by
  unfold classOf
  dsimp only
  rw [List.filter_cons_of_neg]
  rwa [decide_eq_true_eq, mem_reachableFrom, mem_reachableFrom, reaches_reversed]

theorem componentAt_enter (h : Sound edges s walk) (hnew : w ∉ s.entered) (hv : v ∈ walk.left) :
    edges.componentAt { walk with entered := w :: walk.entered } v = edges.componentAt walk v := by
  obtain ⟨hentered, hleft⟩ := h.left v hv
  by_cases htogether : edges.Reaches v w ∧ edges.Reaches w v
  · -- then `v` is still on the stack, above a vertex of its component
    have hstack : v ∈ s.stack := by
      by_contra hstack
      exact hnew (h.settled_of_reaches hentered hstack htogether.1).1
    obtain ⟨f, hf, hlt, hvf, hfv⟩ := h.framed.exists_earlier h.descending hstack hleft
    have hlast := h.getLast?_classOf (h.stacked.subset hf) hlt hvf hfv
    have hmem : v ∈ edges.classOf walk v := mem_classOf.2 ⟨h.entered ▸ hentered, .refl, .refl⟩
    have hlast' : (w :: edges.classOf walk v).getLast? ≠ some v := by
      rwa [List.getLast?_cons_of_ne_nil (List.ne_nil_of_mem hmem)]
    unfold componentAt
    rw [classOf_enter_of_together htogether]
    dsimp only
    rw [if_neg fun hboth => hlast' hboth.1, if_neg fun hboth => hlast hboth.1]
  · unfold componentAt
    rw [classOf_enter_of_not_together htogether]

theorem enter (h : Sound edges s walk) (hnew : v ∉ s.entered) (hframes : frames.map Prod.fst = s.frames.map Prod.fst)
    (hframed : Framed edges (s.enter v) frames s.stack) (hlink : ∀ f ∈ frames.head?, edges.Reaches f.1 v) :
    Sound edges (({ s with frames } : Lowlinks α).enter v) { walk with entered := v :: walk.entered } := by
  have hne : ∀ u ∈ s.entered, u ≠ v := by
    rintro u hu rfl
    exact hnew hu
  have hindex : ∀ u ∈ s.entered, (s.enter v).indexOf u = s.indexOf u := by
    intro u hu
    rw [indexOf_enter, if_neg (hne u hu)]
  have hself : (s.enter v).indexOf v = s.index.length := by rw [indexOf_enter, if_pos rfl]
  have hlow : (s.enter v).lowOf v = s.index.length := by rw [lowOf_enter, if_pos rfl]
  refine ⟨congrArg (v :: ·) h.entered, ?_, ?_, h.stacked.cons_cons v, ?_, ?_, ?_, ?_, ?_, ?_, h.ordered⟩
  · refine List.pairwise_cons.2 ⟨fun u hu => ?_, ?_⟩
    · change (s.enter v).indexOf u < (s.enter v).indexOf v
      rw [hindex u hu, hself]
      exact h.bounded u hu
    · refine List.Pairwise.imp_of_mem ?_ h.numbered
      intro a b ha hb hlt
      change (s.enter v).indexOf b < (s.enter v).indexOf a
      rwa [hindex a ha, hindex b hb]
  · refine List.forall_mem_cons.2 ⟨?_, fun u hu => ?_⟩
    · change (s.enter v).indexOf v < s.index.length + 1
      rw [hself]
      exact Nat.lt_succ_self _
    · change (s.enter v).indexOf u < s.index.length + 1
      rw [hindex u hu]
      exact Nat.lt_succ_of_lt (h.bounded u hu)
  · intro u
    change u ∈ v :: s.onStack ↔ u ∈ v :: s.stack
    rw [List.mem_cons, List.mem_cons, h.onStack]
  · change Framed edges _ ((v, 0) :: frames) ([] ++ v :: s.stack)
    refine .cons (hframed.congr (List.Subset.refl _) fun _ _ => ⟨rfl, rfl⟩) hlink ⟨by simp, by simp, by simp, ?_, ?_⟩
    · change (s.enter v).lowOf v ≤ (s.enter v).indexOf v
      rw [hlow, hself]
    · refine ⟨v, List.mem_cons_self, ?_, .refl⟩
      change (s.enter v).lowOf v = (s.enter v).indexOf v
      rw [hlow, hself]
  · -- nothing settled leads to a vertex that is entered only now
    intro u hu hstack w hw
    change u ∈ v :: s.entered at hu
    change u ∉ v :: s.stack at hstack
    change w ∈ v :: s.entered ∧ w ∉ v :: s.stack
    rw [List.mem_cons, not_or] at hstack
    obtain ⟨hw, hwstack⟩ := h.settled u ((List.mem_cons.1 hu).resolve_left hstack.1) hstack.2 w hw
    refine ⟨List.mem_cons_of_mem _ hw, ?_⟩
    rw [List.mem_cons, not_or]
    exact ⟨hne w hw, hwstack⟩
  · intro u hu
    obtain ⟨hentered, hleft⟩ := h.left u hu
    refine ⟨List.mem_cons_of_mem _ hentered, ?_⟩
    change u ∉ v :: frames.map Prod.fst
    rw [hframes, List.mem_cons, not_or]
    exact ⟨hne u hentered, hleft⟩
  · change s.components = _
    rw [h.components]
    refine List.filterMap_congr fun u hu => (h.componentAt_enter hnew ?_).symm
    exact List.mem_reverse.1 hu
  · intro c hc u hu
    obtain ⟨hentered, hstack⟩ := h.taken c hc u hu
    refine ⟨List.mem_cons_of_mem _ hentered, ?_⟩
    change u ∉ v :: s.stack
    rw [List.mem_cons, not_or]
    exact ⟨hne u hentered, hstack⟩

theorem relink (h : Sound edges s walk) (hentered : s'.index = s.index) (hstack : s'.stack = s.stack)
    (honStack : s'.onStack = s.onStack) (hcomponents : s'.components = s.components)
    (hframes : s'.frames.map Prod.fst = s.frames.map Prod.fst) (hframed : Framed edges s' s'.frames s'.stack) :
    Sound edges s' walk := by
  obtain ⟨index, lowlink, stack, onStack, frames', components⟩ := s'
  cases hentered
  cases hstack
  cases honStack
  cases hcomponents
  refine ⟨h.entered, h.numbered, h.bounded, h.stacked, h.onStack, hframed, h.settled, fun v hv => ?_,
    h.components, h.taken, h.ordered⟩
  exact ⟨(h.left v hv).1, hframes ▸ (h.left v hv).2⟩

/-- The segment of a vertex that does not lead to an earlier one is the class of the vertex. -/
theorem classOf_eq (h : Sound edges s walk) (hstack : s.stack = above ++ v :: below)
    (segment : Segment edges s v followed above below) (hdone : (edges.successors v)[followed]? = none)
    (hlow : s.lowOf v = s.indexOf v) : edges.classOf walk v = above ++ [v] := by
  have hdescending : s.Descending (above ++ v :: below) := hstack ▸ h.descending
  have hsub : (above ++ [v]).Sublist s.entered := by
    refine .trans ?_ (hstack ▸ h.stacked)
    exact (List.Sublist.refl _).append ((List.nil_sublist _).cons_cons v)
  -- what `v` leads to is in the segment or settled
  have hclosed : ∀ a b, (a, b) ∈ edges → (a ∈ above ++ [v] ∨ a ∈ s.entered ∧ a ∉ s.stack) →
      b ∈ above ++ [v] ∨ b ∈ s.entered ∧ b ∉ s.stack := by
    rintro a b hedge (ha | ha)
    · obtain ⟨hentered, hbelow⟩ := segment.leads_above hdone hdescending hlow a ha b hedge
      by_cases hb : b ∈ s.stack
      · rw [hstack, List.append_cons] at hb
        exact .inl ((List.mem_append.1 hb).resolve_right hbelow)
      · exact .inr ⟨hentered, hb⟩
    · exact .inr (h.settled a ha.1 ha.2 b hedge)
  have hmem : ∀ u, u ∈ edges.classOf walk v ↔ u ∈ above ++ [v] := by
    intro u
    rw [mem_classOf, h.entered]
    constructor
    · rintro ⟨-, hto, hback⟩
      refine (hto.mem_of_closed hclosed (.inl (List.mem_append_right _ List.mem_cons_self))).resolve_right ?_
      rintro ⟨hentered, hsettled⟩
      refine (h.settled_of_reaches hentered hsettled hback).2 ?_
      rw [hstack]
      exact List.mem_append_right _ List.mem_cons_self
    · intro hu
      refine ⟨hsub.subset hu, ?_⟩
      rcases List.mem_append.1 hu with hu | hu
      · exact segment.together u hu
      · obtain rfl := List.mem_singleton.1 hu
        exact ⟨.refl, .refl⟩
  have hclass : s.Descending (edges.classOf walk v) := h.numbered.sublist (h.entered ▸ List.filter_sublist)
  exact hclass.eq_of_mem_iff (h.numbered.sublist hsub) hmem

theorem components_leave (h : Sound edges s walk) (v : α) :
    (v :: walk.left).reverse.filterMap (edges.componentAt { walk with left := v :: walk.left }) =
      s.components ++ (edges.componentAt walk v).toList := by
  rw [h.components, List.reverse_cons, List.filterMap_append]
  refine congrArg₂ (· ++ ·) rfl ?_
  change [v].filterMap (edges.componentAt walk) = _
  cases hcomponent : edges.componentAt walk v <;> simp [hcomponent]

theorem left_leave (h : Sound edges s walk) (hframes : s.frames = (v, followed) :: frames)
    (outer : Framed edges s frames below) (hstack : s.stack = above ++ v :: below) :
    ∀ u ∈ v :: walk.left, u ∈ s.entered ∧ u ∉ frames.map Prod.fst := by
  have hdescending : s.Descending (above ++ v :: below) := hstack ▸ h.descending
  have hv : v ∈ s.stack := hstack ▸ List.mem_append_right _ List.mem_cons_self
  refine List.forall_mem_cons.2 ⟨⟨h.stacked.subset hv, fun hmem => ?_⟩, fun u hu => ?_⟩
  · exact hdescending.ne (outer.mem_stack hmem) rfl
  · obtain ⟨hentered, hleft⟩ := h.left u hu
    rw [hframes, List.map_cons, List.mem_cons, not_or] at hleft
    exact ⟨hentered, hleft.2⟩

theorem close (h : Sound edges s walk) (hframes : s.frames = (v, followed) :: frames)
    (outer : Framed edges s frames below) (segment : Segment edges s v followed above below)
    (hstack : s.stack = above ++ v :: below) (hdone : (edges.successors v)[followed]? = none)
    (hlow : s.lowOf v = s.indexOf v) {lowlink : List (α × Nat)}
    (hframed : Framed edges ({ s with frames, lowlink } : Lowlinks α) frames below) :
    Sound edges (({ s with frames, lowlink } : Lowlinks α).close edges v) { walk with left := v :: walk.left } := by
  have hdescending : s.Descending (above ++ v :: below) := hstack ▸ h.descending
  have hnodup : (above ++ v :: below).Nodup := hdescending.nodup
  have habove : v ∉ above := fun hv => Nat.lt_irrefl _ (hdescending.above_lt hv List.mem_cons_self)
  have hclass := h.classOf_eq hstack segment hdone hlow
  have hcomponent : edges.componentAt walk v =
      if edges.holdsCycle v (above ++ [v]) then some (above ++ [v]) else none := by
    unfold componentAt
    rw [hclass]
    simp
  have hmem : ∀ u, u ∈ s.stack ↔ u ∈ above ++ [v] ∨ u ∈ below := by
    intro u
    rw [hstack, List.append_cons, List.mem_append]
  have hapart : ∀ u ∈ above ++ [v], u ∉ below := by
    rw [List.append_cons] at hnodup
    exact fun u hu hbelow => List.disjoint_of_nodup_append hnodup hu hbelow
  have hnew : ∀ c ∈ (edges.componentAt walk v).toList, c = above ++ [v] := by
    intro c hc
    rw [Option.mem_toList] at hc
    exact (componentAt_eq_some.1 hc).1.symm.trans hclass
  have hclose : ({ s with frames, lowlink } : Lowlinks α).close edges v = _ := close_eq hstack habove
  rw [hclose, ← hcomponent]
  refine ⟨h.entered, h.numbered, h.bounded, ?_, ?_, ?_, ?_, h.left_leave hframes outer hstack, ?_, ?_, ?_⟩
  · refine .trans ?_ (hstack ▸ h.stacked)
    exact (List.sublist_cons_self v below).trans (List.sublist_append_right above _)
  · intro u
    change u ∈ s.onStack.filter (· ∉ above ++ [v]) ↔ u ∈ below
    rw [List.mem_filter, decide_eq_true_eq, h.onStack, hmem]
    have := hapart u
    tauto
  · exact hframed.congr (List.Subset.refl _) fun _ _ => ⟨rfl, rfl⟩
  · intro u hu hbelow w hedge
    change u ∉ below at hbelow
    change w ∈ s.entered ∧ w ∉ below
    by_cases hsegment : u ∈ above ++ [v]
    · exact segment.leads_above hdone hdescending hlow u hsegment w hedge
    · have hu' : u ∉ s.stack := fun hstack => ((hmem u).1 hstack).elim hsegment hbelow
      obtain ⟨hentered, hw⟩ := h.settled u hu hu' w hedge
      exact ⟨hentered, fun hbelow => hw ((hmem w).2 (.inr hbelow))⟩
  · exact (h.components_leave v).symm
  · refine List.forall_mem_append.2 ⟨fun c hc u hu => ?_, fun c hc u hu => ?_⟩
    · obtain ⟨hentered, hu⟩ := h.taken c hc u hu
      exact ⟨hentered, fun hbelow => hu ((hmem u).2 (.inr hbelow))⟩
    · rw [hnew c hc] at hu
      exact ⟨h.stacked.subset ((hmem u).2 (.inl hu)), hapart u hu⟩
  · -- what has been listed leads only to what is settled
    refine List.pairwise_append.2 ⟨h.ordered, ?_, fun c hc d hd u hu w hw hreach => ?_⟩
    · cases edges.componentAt walk v <;> simp
    · rw [hnew d hd] at hw
      obtain ⟨hentered, hsettled⟩ := h.taken c hc u hu
      exact (h.settled_of_reaches hentered hsettled hreach).2 ((hmem w).2 (.inl hw))

theorem merge (h : Sound edges s walk) (hframes : s.frames = (v, followed) :: frames)
    (outer : Framed edges s frames below) (segment : Segment edges s v followed above below)
    (hstack : s.stack = above ++ v :: below) (hlow : s.lowOf v < s.indexOf v) {lowlink : List (α × Nat)}
    (hframed : Framed edges ({ s with frames, lowlink } : Lowlinks α) frames s.stack) :
    Sound edges { s with frames, lowlink } { walk with left := v :: walk.left } := by
  obtain ⟨r, hr, hvalue, hto⟩ := segment.low_reached
  have hmem : r ∈ s.stack := hstack ▸ List.mem_append_right _ hr
  have hback : edges.Reaches r v := h.framed.reaches_top (v, followed) (by rw [hframes]; rfl) r hmem
  have hlast := h.getLast?_classOf (h.stacked.subset hmem) (hvalue ▸ hlow) hto hback
  refine ⟨h.entered, h.numbered, h.bounded, h.stacked, h.onStack, hframed, h.settled,
    h.left_leave hframes outer hstack, ?_, h.taken, h.ordered⟩
  have hnone : edges.componentAt walk v = none := if_neg fun hboth => hlast hboth.1
  rw [components_leave h, hnone]
  exact (List.append_nil _).symm

theorem leave (h : Sound edges s walk) (hframes : s.frames = (v, followed) :: frames)
    (hdone : (edges.successors v)[followed]? = none) :
    Sound edges (s.leave edges v frames) { walk with left := v :: walk.left } := by
  have hframed := h.framed
  rw [hframes] at hframed
  generalize hstack : s.stack = stack at hframed
  cases hframed with
  | @cons _ _ _ above below outer link segment =>
    have hdescending : s.Descending (above ++ v :: below) := hstack ▸ h.descending
    obtain ⟨lowlink, hlower, hleave⟩ := leave_cases outer hdescending
    rw [hleave]
    split
    · rename_i hlow
      exact h.close hframes outer segment hstack hdone hlow (hlower ▸ outer.pop hdescending hlow)
    · rename_i hlow
      have hlt : s.lowOf v < s.indexOf v := Nat.lt_of_le_of_ne segment.low_le hlow
      have hmerged := outer.merge link segment hdone hdescending hlt
      rw [hlower, ← hstack] at hmerged
      exact h.merge hframes outer segment hstack hlt hmerged

end Sound

end Lowlinks

end DialogueScript.Edges
