import DialogueScript.Proofs.CycleSearch

namespace DialogueScript.Edges

variable {α : Type} [DecidableEq α] {edges : Edges α}

/-- The vertices that have been found, each with the one that it was found from, the latest in front, and
those that are still to be looked at. -/
structure LinkSearch (α : Type) where
  parents : List (α × α)
  queue : List α

namespace LinkSearch

def found (s : LinkSearch α) : List α := s.parents.map Prod.fst

def note (within : List α) (current : α) (s : LinkSearch α) (next : α) : LinkSearch α :=
  if next ∈ within ∧ next ∉ s.found then ⟨(next, current) :: s.parents, s.queue ++ [next]⟩ else s

/-- The vertices on the links from `u`, as far as they go, but at most `limit` links. -/
def climb (parents : List (α × α)) : Nat → α → List α
  | 0, u => [u]
  | limit + 1, u =>
    match parents.lookup u with
    | none => [u]
    | some parent => u :: climb parents limit parent

def closed (v current : α) (parents : List (α × α)) : List α :=
  let way := climb parents parents.length current
  (if way.getLast? = some v then way else way ++ [v]).reverse ++ [v]

/-- Follows the edges from `current` in turn. An edge to `v` ends the search with a cycle. -/
def follow (v : α) (within : List α) (current : α) (s : LinkSearch α) : List α → LinkSearch α ⊕ List α
  | [] => .inl s
  | next :: rest =>
    if next = v then .inr (closed v current s.parents)
    else follow v within current (s.note within current next) rest

/-- How many of the vertices that may be used are not found yet, or are still to be looked at. -/
def remaining (within : List α) (s : LinkSearch α) : Nat :=
  (within.filter (· ∉ s.found)).length + s.queue.length

theorem remaining_note (within : List α) (current next : α) (s : LinkSearch α) :
    (s.note within current next).remaining within ≤ s.remaining within := by
  unfold note
  split
  · rename_i hnew
    have hless : (within.filter (· ∉ next :: s.found)).length < (within.filter (· ∉ s.found)).length := by
      have hsub : within.filter (· ∉ next :: s.found) = (within.filter (· ∉ s.found)).filter (· ≠ next) := by
        rw [List.filter_filter]
        apply List.filter_congr
        intro u _
        simp
      rw [hsub]
      exact List.length_filter_lt_length_iff_exists.2
        ⟨next, List.mem_filter.2 ⟨hnew.1, decide_eq_true hnew.2⟩, by simp⟩
    change (within.filter (· ∉ next :: s.found)).length + (s.queue ++ [next]).length ≤ _
    unfold remaining
    rw [List.length_append, List.length_singleton]
    omega
  · exact Nat.le_refl _

theorem remaining_follow {v : α} {within : List α} {current : α} {nexts : List α} {s s' : LinkSearch α}
    (h : s.follow v within current nexts = .inl s') : s'.remaining within ≤ s.remaining within := by
  induction nexts generalizing s with
  | nil =>
    cases h
    exact Nat.le_refl _
  | cons next nexts ih =>
    unfold follow at h
    split at h
    · cases h
    · exact (ih h).trans (remaining_note within current next s)

def run (edges : Edges α) (v : α) (within : List α) (s : LinkSearch α) : Option (List α) :=
  match _hqueue : s.queue with
  | [] => none
  | current :: rest =>
    match _hfollow : follow v within current ⟨s.parents, rest⟩ (edges.successors current) with
    | .inr cycle => some cycle
    | .inl s' => run edges v within s'
termination_by s.remaining within
decreasing_by
  have hle := remaining_follow _hfollow
  change _ ≤ (within.filter (· ∉ s.found)).length + rest.length at hle
  unfold remaining at hle ⊢
  rw [_hqueue, List.length_cons]
  omega

theorem run_of_nil {v : α} {within : List α} {s : LinkSearch α} (h : s.queue = []) :
    run edges v within s = none := by
  obtain ⟨parents, queue⟩ := s
  cases h
  rw [run]

theorem run_of_cons {v current : α} {within rest : List α} {s : LinkSearch α} (h : s.queue = current :: rest) :
    run edges v within s =
      match follow v within current ⟨s.parents, rest⟩ (edges.successors current) with
      | .inr cycle => some cycle
      | .inl s' => run edges v within s' := by
  obtain ⟨parents, queue⟩ := s
  cases h
  rw [run]
  split
  · rename_i hnil
    cases hnil
  · rename_i hcons
    cases hcons
    split <;> rename_i hfollow <;> simp only [hfollow]

/-- The links from `u`, followed one after another until one is missing. -/
inductive Climbs (parents : List (α × α)) : α → List α → Prop
  | root {u : α} (h : parents.lookup u = none) : Climbs parents u [u]
  | link {u parent : α} {way : List α} (h : parents.lookup u = some parent) (hway : Climbs parents parent way) :
    Climbs parents u (u :: way)

section Links

variable {parents : List (α × α)} {u v current next : α} {way within : List α} {s : LinkSearch α}

theorem Climbs.climb_eq (h : Climbs parents u way) {limit : Nat} (hlimit : way.length ≤ limit + 1) :
    climb parents limit u = way := by
  induction h generalizing limit with
  | root hnone =>
    cases limit with
    | zero => rfl
    | succ limit => simp only [climb, hnone]
  | link hsome hway ih =>
    cases limit with
    | zero =>
      cases hway <;> simp at hlimit
    | succ limit =>
      rw [List.length_cons] at hlimit
      simp only [climb, hsome, ih (Nat.le_of_succ_le_succ hlimit)]

theorem Climbs.cons (h : Climbs parents u way) (hnext : next ∉ way) :
    Climbs ((next, current) :: parents) u way := by
  have hlookup {w : α} (hw : w ≠ next) : ((next, current) :: parents).lookup w = parents.lookup w := by
    have hne : (w == next) = false := beq_eq_false_iff_ne.2 hw
    rw [List.lookup_cons, hne]
  induction h with
  | root hnone =>
    rw [List.mem_singleton] at hnext
    exact .root ((hlookup (Ne.symm hnext)).trans hnone)
  | link hsome hway ih =>
    rw [List.mem_cons, not_or] at hnext
    exact .link ((hlookup (Ne.symm hnext.1)).trans hsome) (ih hnext.2)

/-- The links of the search give the way of the entry. -/
structure Linked (v : α) (s : LinkSearch α) (entry : α × List α) : Prop where
  climbs : Climbs s.parents entry.1 (entry.1 :: entry.2)
  short : entry.2.length ≤ s.parents.length
  origin : (entry.1 :: entry.2).getLast? = some v
  known : ∀ u ∈ entry.1 :: entry.2, u = v ∨ u ∈ s.found

theorem found_note : u ∈ (s.note within current next).found ↔ u ∈ s.found ∨ u = next ∧ next ∈ within := by
  unfold note
  split
  · rename_i hnew
    change u ∈ next :: s.found ↔ _
    simp only [List.mem_cons, hnew.1, and_true]
    exact or_comm
  · rename_i hold
    constructor
    · exact .inl
    · rintro (hu | ⟨rfl, hin⟩)
      · exact hu
      · by_contra hu
        exact hold ⟨hin, hu⟩

theorem Linked.note {entry : α × List α} (h : Linked v s entry) (hnext : next ≠ v) :
    Linked v (s.note within current next) entry := by
  have hknown : ∀ u ∈ entry.1 :: entry.2, u = v ∨ u ∈ (s.note within current next).found :=
    fun u hu => (h.known u hu).imp_right fun hu => found_note.2 (.inl hu)
  revert hknown
  unfold LinkSearch.note
  split
  · rename_i hnew
    have hoff : next ∉ entry.1 :: entry.2 := fun hmem => (h.known next hmem).elim hnext hnew.2
    exact fun hknown => ⟨h.climbs.cons hoff, Nat.le_succ_of_le h.short, h.origin, hknown⟩
  · exact fun _ => h

theorem Linked.extend (h : Linked v s (current, way)) (hin : next ∈ within) (hnew : next ∉ s.found) (hnext : next ≠ v) :
    Linked v (s.note within current next) (next, current :: way) := by
  have hlink : Linked v (s.note within current next) (current, way) := h.note hnext
  have hknown : next ∈ (s.note within current next).found := found_note.2 (.inr ⟨rfl, hin⟩)
  have hnote : s.note within current next = ⟨(next, current) :: s.parents, s.queue ++ [next]⟩ :=
    if_pos ⟨hin, hnew⟩
  refine ⟨?_, ?_, ?_, ?_⟩
  · refine .link ?_ hlink.climbs
    rw [hnote]
    simp
  · rw [hnote]
    exact Nat.succ_le_succ h.short
  · rw [List.getLast?_cons_cons]
    exact h.origin
  · exact List.forall_mem_cons.2 ⟨.inr hknown, hlink.known⟩

theorem Linked.closed_eq (h : Linked v s (current, way)) :
    closed v current s.parents = (v :: current :: way).reverse := by
  have hclimb : climb s.parents s.parents.length current = current :: way :=
    h.climbs.climb_eq (Nat.succ_le_succ h.short)
  unfold closed
  rw [hclimb]
  dsimp only
  rw [if_pos h.origin, List.reverse_cons, List.reverse_cons, List.reverse_cons]

end Links

section Tracks

variable {v current : α} {way within seen : List α} {todo : List (α × List α)} {s : LinkSearch α}

/-- The entries that a search with ways will still look at: the first of each vertex that is not seen. -/
def fresh (seen : List α) : List (α × List α) → List (α × List α)
  | [] => []
  | entry :: rest => if entry.1 ∈ seen then fresh seen rest else entry :: fresh (entry.1 :: seen) rest

theorem fresh_concat (seen : List α) (todo : List (α × List α)) (entry : α × List α) :
    fresh seen (todo ++ [entry]) =
      fresh seen todo ++ if entry.1 ∈ seen ∨ entry.1 ∈ todo.map Prod.fst then [] else [entry] := by
  induction todo generalizing seen with
  | nil => simp [fresh]
  | cons e todo ih =>
    simp only [List.cons_append, fresh]
    by_cases he : e.1 ∈ seen
    · have hiff : (entry.1 ∈ seen ∨ entry.1 ∈ (e :: todo).map Prod.fst) ↔
          (entry.1 ∈ seen ∨ entry.1 ∈ todo.map Prod.fst) := by
        rw [List.map_cons, List.mem_cons]
        constructor
        · rintro (h | h | h)
          · exact .inl h
          · exact .inl (h ▸ he)
          · exact .inr h
        · rintro (h | h)
          · exact .inl h
          · exact .inr (.inr h)
      rw [if_pos he, if_pos he, ih]
      simp only [hiff]
    · have hiff : (entry.1 ∈ e.1 :: seen ∨ entry.1 ∈ todo.map Prod.fst) ↔
          (entry.1 ∈ seen ∨ entry.1 ∈ (e :: todo).map Prod.fst) := by
        rw [List.map_cons, List.mem_cons, List.mem_cons]
        tauto
      rw [if_neg he, if_neg he, ih, List.cons_append]
      simp only [hiff]

/-- The search by links stands where the search with ways does. -/
structure Tracks (v : α) (seen : List α) (todo : List (α × List α)) (s : LinkSearch α) : Prop where
  queue : s.queue = (fresh seen todo).map Prod.fst
  linked : ∀ entry ∈ fresh seen todo, Linked v s entry
  known : ∀ u, u = v ∨ u ∈ s.found ↔ u ∈ seen ∨ u ∈ todo.map Prod.fst

theorem Tracks.note {next : α} (h : Tracks v seen todo s) (hway : Linked v s (current, way)) (hnext : next ≠ v) :
    Tracks v seen (todo ++ ([next].filter (· ∈ within)).map fun next => (next, current :: way))
      (s.note within current next) := by
  by_cases hin : next ∈ within
  · have hone : ([next].filter (· ∈ within)).map (fun next => (next, current :: way)) = [(next, current :: way)] := by
      simp [hin]
    rw [hone]
    have hknown : ∀ u, u = v ∨ u ∈ (s.note within current next).found ↔
        u ∈ seen ∨ u ∈ (todo ++ [(next, current :: way)]).map Prod.fst := by
      intro u
      have := h.known u
      rw [found_note, List.map_append, List.mem_append, List.map_singleton, List.mem_singleton]
      tauto
    by_cases hfound : next ∈ s.found
    · -- an entry for a vertex that is known already is never looked at
      have hsame : s.note within current next = s := if_neg fun hnew => hnew.2 hfound
      have hold : next ∈ seen ∨ next ∈ todo.map Prod.fst := (h.known next).1 (.inr hfound)
      rw [hsame] at hknown ⊢
      refine ⟨?_, ?_, hknown⟩ <;> rw [fresh_concat, if_pos hold, List.append_nil]
      · exact h.queue
      · exact h.linked
    · have hnew : ¬ (next ∈ seen ∨ next ∈ todo.map Prod.fst) :=
        fun hold => ((h.known next).2 hold).elim hnext hfound
      have hnote : (s.note within current next).queue = s.queue ++ [next] := by
        rw [LinkSearch.note, if_pos ⟨hin, hfound⟩]
      refine ⟨?_, ?_, hknown⟩ <;> rw [fresh_concat, if_neg hnew]
      · rw [hnote, h.queue, List.map_append]
        rfl
      · rw [List.forall_mem_append, List.forall_mem_singleton]
        exact ⟨fun entry hentry => (h.linked entry hentry).note hnext, hway.extend hin hfound hnext⟩
  · have hnone : ([next].filter (· ∈ within)).map (fun next => (next, current :: way)) = [] := by
      simp [hin]
    have hsame : s.note within current next = s := if_neg fun hnew => hin hnew.1
    rw [hnone, hsame, List.append_nil]
    exact h

theorem follow_of_mem {nexts : List α} (hway : Linked v s (current, way)) (hv : v ∈ nexts) :
    s.follow v within current nexts = .inr (v :: current :: way).reverse := by
  induction nexts generalizing s with
  | nil => cases hv
  | cons next nexts ih =>
    unfold follow
    by_cases hnext : next = v
    · rw [if_pos hnext, hway.closed_eq]
    · rw [if_neg hnext]
      exact ih (hway.note hnext) ((List.mem_cons.1 hv).resolve_left (Ne.symm hnext))

theorem Tracks.follow {nexts : List α} (h : Tracks v seen todo s) (hway : Linked v s (current, way))
    (hv : v ∉ nexts) : ∃ s', s.follow v within current nexts = .inl s' ∧
      Tracks v seen (todo ++ (nexts.filter (· ∈ within)).map fun next => (next, current :: way)) s' := by
  induction nexts generalizing s todo with
  | nil => exact ⟨s, rfl, by simpa using h⟩
  | cons next nexts ih =>
    rw [List.mem_cons, not_or] at hv
    have hnext : next ≠ v := Ne.symm hv.1
    obtain ⟨s', hfollow, htracks⟩ := ih (h.note hway hnext) (hway.note hnext) hv.2
    refine ⟨s', ?_, ?_⟩
    · unfold LinkSearch.follow
      rw [if_neg hnext, hfollow]
    · rw [List.append_assoc, ← List.map_append, ← List.filter_append] at htracks
      exact htracks

theorem Tracks.enter {rest : List (α × List α)} (h : Tracks v seen ((current, way) :: rest) s)
    (hnew : current ∉ seen) :
    s.queue = current :: (fresh (current :: seen) rest).map Prod.fst ∧
      Linked v (⟨s.parents, (fresh (current :: seen) rest).map Prod.fst⟩ : LinkSearch α) (current, way) ∧
      Tracks v (current :: seen) rest ⟨s.parents, (fresh (current :: seen) rest).map Prod.fst⟩ := by
  have hfresh : fresh seen ((current, way) :: rest) = (current, way) :: fresh (current :: seen) rest :=
    if_neg hnew
  have hqueue := h.queue
  have hlinked := h.linked
  rw [hfresh] at hqueue hlinked
  -- a link does not depend on the queue
  have hmoved {entry : α × List α} (hentry : Linked v s entry) :
      Linked v (⟨s.parents, (fresh (current :: seen) rest).map Prod.fst⟩ : LinkSearch α) entry :=
    ⟨hentry.climbs, hentry.short, hentry.origin, hentry.known⟩
  refine ⟨hqueue, hmoved (hlinked _ List.mem_cons_self), rfl, fun entry hentry => ?_, fun u => ?_⟩
  · exact hmoved (hlinked entry (List.mem_cons_of_mem _ hentry))
  · refine (h.known u).trans ?_
    rw [List.map_cons, List.mem_cons, List.mem_cons]
    tauto

/-- From where it stands, the search by links finds what the search with ways finds. -/
theorem Tracks.run_eq (h : Tracks v seen todo s) :
    run edges v within s = (edges.searchBack v within seen todo).map List.reverse := by
  fun_induction searchBack edges v within seen todo generalizing s with
  | case1 => exact run_of_nil h.queue
  | case2 seen current way rest hseen ih =>
    have hfresh : fresh seen ((current, way) :: rest) = fresh seen rest := if_pos hseen
    have hqueue := h.queue
    have hlinked := h.linked
    rw [hfresh] at hqueue hlinked
    refine ih ⟨hqueue, hlinked, fun u => (h.known u).trans ?_⟩
    rw [List.map_cons, List.mem_cons]
    constructor
    · rintro (hu | rfl | hu)
      · exact .inl hu
      · exact .inl hseen
      · exact .inr hu
    · rintro (hu | hu)
      · exact .inl hu
      · exact .inr (.inr hu)
  | case3 seen current way rest hnew hclose =>
    obtain ⟨hqueue, hway, -⟩ := h.enter hnew
    rw [run_of_cons hqueue, follow_of_mem hway hclose]
    rfl
  | case4 seen current way rest hnew hclose found =>
    rename_i ih
    obtain ⟨hqueue, hway, hrest⟩ := h.enter hnew
    obtain ⟨s', hfollow, htracks⟩ := hrest.follow hway hclose
    rw [run_of_cons hqueue, hfollow]
    exact ih htracks

end Tracks

end LinkSearch

def linkedCycle (edges : Edges α) (v : α) (within : List α) : Option (List α) :=
  LinkSearch.run edges v within ⟨[], [v]⟩

theorem linkedCycle_eq (edges : Edges α) (v : α) (within : List α) :
    edges.linkedCycle v within = edges.cycleThrough v within := by
  refine LinkSearch.Tracks.run_eq ⟨rfl, fun entry hentry => ?_, fun u => ?_⟩
  · obtain rfl := List.mem_singleton.1 hentry
    exact ⟨.root rfl, Nat.le_refl _, rfl, fun u hu => .inl (List.mem_singleton.1 hu)⟩
  · simp [LinkSearch.found]

end DialogueScript.Edges
