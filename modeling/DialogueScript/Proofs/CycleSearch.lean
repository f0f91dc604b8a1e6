import Mathlib.Data.List.Chain
import Mathlib.Data.List.Cycle
import DialogueScript.Cycles
import DialogueScript.Proofs.Reachability

namespace DialogueScript.Edges

variable {α : Type} [DecidableEq α] {edges : Edges α}

/-- A path of at least one edge leads from the first vertex to the second. -/
abbrev Leads (edges : Edges α) : α → α → Prop := Relation.TransGen fun a b => (a, b) ∈ edges

/-- A way along edges back to where it began, with no vertex on it twice. -/
structure IsCycle (edges : Edges α) (cycle : List α) : Prop where
  long : 2 ≤ cycle.length
  closed : cycle.head? = cycle.getLast?
  chain : cycle.IsChain fun a b => (a, b) ∈ edges
  simple : cycle.dropLast.Nodup

section IsCycle

omit [DecidableEq α]

theorem isCycle_append {v : α} {rest : List α} : edges.IsCycle (v :: rest ++ [v]) ↔
    (v :: rest ++ [v]).IsChain (fun a b => (a, b) ∈ edges) ∧ (v :: rest).Nodup := by
  constructor
  · intro h
    have hsimple := h.simple
    rw [List.dropLast_concat] at hsimple
    exact ⟨h.chain, hsimple⟩
  · rintro ⟨hchain, hsimple⟩
    refine ⟨by simp, by rw [List.getLast?_concat]; rfl, hchain, ?_⟩
    rwa [List.dropLast_concat]

theorem IsCycle.exists_eq {cycle : List α} (h : edges.IsCycle cycle) :
    ∃ v rest, cycle = v :: rest ++ [v] := by
  have hclosed := h.closed
  have hlong := h.long
  rcases List.eq_nil_or_concat' cycle with rfl | ⟨front, v, rfl⟩
  · simp at hlong
  · cases front with
    | nil => simp at hlong
    | cons u rest =>
      rw [List.getLast?_concat] at hclosed
      obtain rfl : u = v := Option.some.inj hclosed
      exact ⟨u, rest, rfl⟩

theorem leads_of_isChain {a b : α} {rest : List α}
    (h : (a :: rest ++ [b]).IsChain fun a b => (a, b) ∈ edges) : edges.Leads a b := by
  obtain ⟨hchain, -, hlast⟩ := List.isChain_append.1 h
  have hreach := List.relationReflTransGen_of_exists_isChain_cons rest hchain rfl
  exact .tail' hreach (hlast _ (List.getLast?_eq_some_getLast _) b rfl)

theorem IsCycle.leads {cycle : List α} (h : edges.IsCycle cycle) {u : α} (hu : u ∈ cycle) :
    edges.Leads u u := by
  obtain ⟨v, rest, rfl⟩ := h.exists_eq
  have hmem : u ∈ v :: rest := by simpa [or_comm] using hu
  obtain ⟨before, after, hsplit⟩ := List.append_of_mem hmem
  have hchain := h.chain
  -- the way goes from `v` by `u` back to `v`
  rw [hsplit, List.append_assoc, List.cons_append] at hchain
  have hback : edges.Leads u v := leads_of_isChain (List.isChain_append.1 hchain).2.1
  cases before with
  | nil =>
    obtain rfl : v = u := (List.cons.inj hsplit).1
    exact hback
  | cons w before =>
    obtain rfl : v = w := (List.cons.inj hsplit).1
    rw [List.append_cons] at hchain
    exact hback.trans (leads_of_isChain (List.isChain_append.1 hchain).1)

end IsCycle

section SearchBack

/-- An entry of the search from `v`: a vertex, with the way from it backwards to `v`. -/
structure Trail (edges : Edges α) (v : α) (within seen : List α) (entry : α × List α) : Prop where
  chain : (entry.1 :: entry.2).IsChain fun a b => (b, a) ∈ edges
  origin : (entry.1 :: entry.2).getLast? = some v
  simple : entry.2.Nodup
  seen : ∀ u ∈ entry.2, u ∈ seen
  inside : ∀ u ∈ entry.1 :: entry.2, u = v ∨ u ∈ within

variable {v current next : α} {within seen way : List α} {todo : List (α × List α)} {path : List α}

omit [DecidableEq α] in
theorem Trail.start : edges.Trail v within [] (v, []) :=
  ⟨.singleton v, rfl, .nil, by simp, by simp⟩

omit [DecidableEq α] in
theorem Trail.see {entry : α × List α} (h : edges.Trail v within seen entry) (u : α) :
    edges.Trail v within (u :: seen) entry :=
  ⟨h.chain, h.origin, h.simple, fun w hw => List.mem_cons_of_mem u (h.seen w hw), h.inside⟩

omit [DecidableEq α] in
theorem Trail.follow (h : edges.Trail v within seen (current, way)) (hnew : current ∉ seen)
    (hedge : (current, next) ∈ edges) (hnext : next ∈ within) :
    edges.Trail v within (current :: seen) (next, current :: way) where
  chain := h.chain.cons_cons hedge
  origin := by rw [List.getLast?_cons_cons]; exact h.origin
  simple := List.nodup_cons.2 ⟨fun hmem => hnew (h.seen current hmem), h.simple⟩
  seen := by
    intro u hu
    rcases List.mem_cons.1 hu with rfl | hu
    · exact List.mem_cons_self
    · exact List.mem_cons_of_mem _ (h.seen u hu)
  inside := by
    intro u hu
    rcases List.mem_cons.1 hu with rfl | hu
    · exact .inr hnext
    · exact h.inside u hu

theorem exists_trail_of_searchBack (h : edges.searchBack v within seen todo = some path)
    (htodo : ∀ entry ∈ todo, edges.Trail v within seen entry) :
    ∃ seen current way, edges.Trail v within seen (current, way) ∧ current ∉ seen ∧
      (current, v) ∈ edges ∧ path = v :: current :: way := by
  fun_induction searchBack edges v within seen todo with
  | case1 => cases h
  | case2 seen current way rest hseen ih =>
    exact ih h fun entry hentry => htodo entry (List.mem_cons_of_mem _ hentry)
  | case3 seen current way rest hnew hclose =>
    cases h
    exact ⟨seen, current, way, htodo _ List.mem_cons_self, hnew, mem_successors.1 hclose, rfl⟩
  | case4 seen current way rest hnew hclose found ih =>
    refine ih h fun entry hentry => ?_
    rcases List.mem_append.1 hentry with hentry | hentry
    · exact (htodo entry (List.mem_cons_of_mem _ hentry)).see current
    · obtain ⟨next, hnext, rfl⟩ := List.mem_map.1 hentry
      obtain ⟨hedge, hinside⟩ := List.mem_filter.1 hnext
      exact (htodo _ List.mem_cons_self).follow hnew (mem_successors.1 hedge) (by simpa using hinside)

/-- The edges that lead to the vertices that may be used. -/
def inside (edges : Edges α) (within : List α) : Edges α := edges.filter (·.2 ∈ within)

theorem mem_inside {a b : α} : (a, b) ∈ edges.inside within ↔ (a, b) ∈ edges ∧ b ∈ within := by
  simp [inside]

/-- When the search gives nothing, no way inside leads from what it knows back to `v`. -/
theorem not_edge_of_searchBack (h : edges.searchBack v within seen todo = none)
    (hseen : ∀ u ∈ seen, (u, v) ∉ edges ∧
      ∀ w, (u, w) ∈ edges.inside within → w ∈ seen ∨ w ∈ todo.map Prod.fst)
    {u w : α} (hu : u ∈ seen ∨ u ∈ todo.map Prod.fst) (hreach : (edges.inside within).Reaches u w) :
    (w, v) ∉ edges := by
  fun_induction searchBack edges v within seen todo with
  | case1 seen =>
    have hclosed : w ∈ seen :=
      hreach.mem_of_closed (fun a b hedge ha => by simpa using (hseen a ha).2 b hedge) (by simpa using hu)
    exact (hseen w hclosed).1
  | case2 seen current way rest hcurrent ih =>
    refine ih h (fun a ha => ⟨(hseen a ha).1, fun b hedge => ?_⟩) ?_
    · rcases (hseen a ha).2 b hedge with hb | hb
      · exact .inl hb
      · rcases List.mem_cons.1 hb with rfl | hb
        · exact .inl hcurrent
        · exact .inr hb
    · rcases hu with hu | hu
      · exact .inl hu
      · rcases List.mem_cons.1 hu with rfl | hu
        · exact .inl hcurrent
        · exact .inr hu
  | case3 => cases h
  | case4 seen current way rest hnew hclose found ih =>
    have hfound : ((rest ++ found.map fun next => (next, current :: way)).map Prod.fst) =
        rest.map Prod.fst ++ found := by
      simp [Function.comp_def]
    rw [hfound] at ih
    simp only [List.mem_cons, List.mem_append, List.map_cons] at ih hseen hu
    refine ih h (fun a ha => ?_) (by tauto)
    rcases ha with rfl | ha
    · refine ⟨fun hedge => hclose (mem_successors.2 hedge), fun b hedge => .inr (.inr ?_)⟩
      obtain ⟨hedge, hb⟩ := mem_inside.1 hedge
      exact List.mem_filter.2 ⟨mem_successors.2 hedge, by simpa using hb⟩
    · refine ⟨(hseen a ha).1, fun b hedge => ?_⟩
      have := (hseen a ha).2 b hedge
      tauto

/-- The cycle that is found goes from `v` to `v`, and by no vertex that may not be used. -/
theorem isCycle_cycleThrough {cycle : List α} (h : edges.cycleThrough v within = some cycle) :
    edges.IsCycle cycle ∧ cycle.head? = some v ∧ ∀ u ∈ cycle, u = v ∨ u ∈ within := by
  obtain ⟨path, hpath, rfl⟩ := Option.map_eq_some_iff.1 h
  obtain ⟨seen, current, way, htrail, hnew, hedge, rfl⟩ := exists_trail_of_searchBack hpath (by
    intro entry hentry
    obtain rfl := List.mem_singleton.1 hentry
    exact .start)
  have hlast : (current :: way).getLast? = some v := htrail.origin
  refine ⟨⟨by simp, ?_, ?_, ?_⟩, ?_, ?_⟩
  · rw [List.head?_reverse, List.getLast?_reverse, List.getLast?_cons_cons, hlast]
    rfl
  · rw [List.isChain_reverse]
    exact htrail.chain.cons_cons hedge
  · rw [List.dropLast_reverse, List.tail_cons, List.nodup_reverse, List.nodup_cons]
    exact ⟨fun hmem => hnew (htrail.seen current hmem), htrail.simple⟩
  · rw [List.head?_reverse, List.getLast?_cons_cons, hlast]
  · intro u hu
    rcases List.mem_cons.1 (List.mem_reverse.1 hu) with rfl | hu
    · exact .inl rfl
    · exact htrail.inside u hu

/-- A cycle is found if a way inside leads from `v` to a vertex with an edge back to `v`. -/
theorem exists_cycleThrough {u : α} (hreach : (edges.inside within).Reaches v u)
    (hedge : (u, v) ∈ edges) : ∃ cycle, edges.cycleThrough v within = some cycle := by
  cases h : edges.searchBack v within [] [(v, [])] with
  | some path => exact ⟨path.reverse, by rw [cycleThrough, h]; rfl⟩
  | none =>
    have hnone := not_edge_of_searchBack h (by simp) (.inr (by simp)) hreach
    exact absurd hedge hnone

omit [DecidableEq α] in
theorem Leads.exists_last {a b : α} (h : edges.Leads a b) : ∃ u, edges.Reaches a u ∧ (u, b) ∈ edges :=
  Relation.TransGen.tail'_iff.1 h

theorem reaches_inside {u : α} (hwithin : ∀ u, edges.Reaches v u → edges.Reaches u v → u ∈ within)
    (hreach : edges.Reaches v u) (hback : edges.Reaches u v) : (edges.inside within).Reaches v u := by
  induction hreach with
  | refl => exact .refl
  | tail hto hedge ih =>
    have hin := hwithin _ (hto.tail hedge) hback
    exact (ih (.head hedge hback)).tail (mem_inside.2 ⟨hedge, hin⟩)

end SearchBack

section Turned

theorem isCycle_turned {roots cycle : List α} (h : edges.IsCycle cycle) :
    edges.IsCycle (turned roots cycle) ∧ ∀ u, u ∈ turned roots cycle ↔ u ∈ cycle := by
  obtain ⟨v, rest, rfl⟩ := h.exists_eq
  unfold turned
  simp only [List.dropLast_concat]
  generalize hstart : (v :: rest).findIdx _ = start
  have hle : start ≤ (v :: rest).length := hstart ▸ List.findIdx_le_length
  rw [← List.rotate_eq_drop_append_take hle]
  have hrotated : (v :: rest).rotate start ~r v :: rest := (List.IsRotated.forall _ _)
  obtain ⟨w, rest', hturn⟩ := List.exists_cons_of_ne_nil
    (fun hnil : (v :: rest).rotate start = [] => by simp at hnil)
  rw [hturn] at hrotated ⊢
  obtain ⟨hchain, hsimple⟩ := isCycle_append.1 h
  have hsame : ((w :: rest' : List α) : Cycle α) = (v :: rest : List α) := Cycle.coe_eq_coe.2 hrotated
  refine ⟨isCycle_append.2 ⟨?_, hrotated.nodup_iff.2 hsimple⟩, ?_⟩
  · have hring : Cycle.Chain (fun a b => (a, b) ∈ edges) ((w :: rest' : List α) : Cycle α) := by
      rw [hsame]
      exact hchain
    exact hring
  · intro u
    have hmem : u ∈ w :: rest' ↔ u ∈ v :: rest := hrotated.mem_iff
    simp only [List.head?_cons, Option.toList_some, List.mem_append, List.mem_singleton]
    rw [hmem]
    have hw : w ∈ v :: rest := hrotated.mem_iff.1 List.mem_cons_self
    have hv : v ∈ v :: rest := List.mem_cons_self
    constructor
    · rintro (hu | rfl)
      · exact .inl hu
      · exact .inl hw
    · rintro (hu | rfl)
      · exact .inl hu
      · exact .inl hv

end Turned

end DialogueScript.Edges
