import DialogueScript.Proofs.CyclePaths
import DialogueScript.Proofs.GotoCycles

namespace DialogueScript.Edges

variable {α : Type} [DecidableEq α] {edges : Edges α}

section Walk

theorem walkOn_append (walk : Walk α) (tasks rest : List (Task α)) :
    edges.walkOn walk (tasks ++ rest) = edges.walkOn (edges.walkOn walk tasks) rest := by
  fun_induction walkOn edges walk tasks with
  | case1 walk => rfl
  | case2 walk v tasks ih => rw [List.cons_append, Lowlinks.walkOn_leave, ih]
  | case3 walk v tasks hold ih => rw [List.cons_append, Lowlinks.walkOn_entered hold, ih]
  | case4 walk v tasks hnew ih =>
    rw [List.cons_append, Lowlinks.walkOn_enter hnew, ← List.cons_append, ← List.append_assoc, ih]

theorem walk_concat (roots : List α) (v : α) :
    edges.walk (roots ++ [v]) = edges.walkOn (edges.walk roots) [.enter v] := by
  unfold walk
  rw [List.map_append, walkOn_append, List.map_singleton]

theorem walk_eraseDups (edges : Edges α) (roots : List α) : edges.walk roots.eraseDups = edges.walk roots := by
  induction roots using List.reverseRecOn with
  | nil => rfl
  | append_singleton roots v ih =>
    rw [eraseDups_concat, walk_concat]
    split
    · rename_i hv
      have hentered : v ∈ (edges.walk roots).entered := mem_walk_entered.2 ⟨v, hv, .refl⟩
      rw [Lowlinks.walkOn_entered hentered, walkOn, ih]
    · rw [walk_concat, ih]

theorem cyclicComponents_eraseDups (edges : Edges α) (roots : List α) :
    edges.cyclicComponents roots.eraseDups = edges.cyclicComponents roots := by
  unfold cyclicComponents
  rw [walk_eraseDups]

end Walk

section SameOrder

variable {roots others : List α}

/-- The two lists of roots order those vertices alike. -/
def SameOrder (roots others : List α) (p : α → Prop) : Prop :=
  ∀ u v, p u → p v → (rank roots u ≤ rank roots v ↔ rank others u ≤ rank others v)

theorem SameOrder.mono {p q : α → Prop} (h : SameOrder roots others p) (hq : ∀ v, q v → p v) :
    SameOrder roots others q :=
  fun u v hu hv => h u v (hq u hu) (hq v hv)

omit [DecidableEq α] in
theorem sortedBy_congr {β : Type} {key key' : β → Nat} {items : List β}
    (h : ∀ a ∈ items, ∀ b ∈ items, (key a ≤ key b ↔ key' a ≤ key' b)) : sortedBy key items = sortedBy key' items := by
  have hsort := List.map_mergeSort (r := fun a b => decide (key a ≤ key b)) (s := fun a b => decide (key' a ≤ key' b))
    (f := id) fun a ha b hb => decide_eq_decide.2 (h a ha b hb)
  rwa [List.map_id, List.map_id] at hsort

theorem findIdx_congr {β : Type} {p q : β → Bool} {items : List β} (h : ∀ a ∈ items, p a = q a) :
    items.findIdx p = items.findIdx q := by
  induction items with
  | nil => rfl
  | cons a items ih =>
    rw [List.findIdx_cons, List.findIdx_cons, h a List.mem_cons_self,
      ih fun b hb => h b (List.mem_cons_of_mem _ hb)]

theorem turned_congr {cycle : List α} (h : SameOrder roots others (· ∈ cycle)) :
    turned roots cycle = turned others cycle := by
  have hstart : cycle.dropLast.findIdx (rank roots · = (cycle.dropLast.map (rank roots)).min?.getD 0) =
      cycle.dropLast.findIdx (rank others · = (cycle.dropLast.map (rank others)).min?.getD 0) := by
    refine findIdx_congr fun v hv => ?_
    rw [decide_eq_decide, rank_eq_min_iff hv, rank_eq_min_iff hv]
    exact forall₂_congr fun u hu => h v u (List.mem_of_mem_dropLast hv) (List.mem_of_mem_dropLast hu)
  unfold turned
  dsimp only
  rw [hstart]

theorem cover_congr {within covered vs : List α} (h : SameOrder roots others (· ∈ within))
    (hvs : ∀ v ∈ vs, v ∈ within) :
    edges.cover roots within covered vs = edges.cover others within covered vs := by
  induction vs generalizing covered with
  | nil => rfl
  | cons v vs ih =>
    rw [List.forall_mem_cons] at hvs
    unfold cover
    split
    · exact ih hvs.2
    · split
      · exact ih hvs.2
      · rename_i cycle hcycle
        obtain ⟨-, -, hinside⟩ := isCycle_cycleThrough hcycle
        have hcycle : ∀ u ∈ cycle, u ∈ within := by
          intro u hu
          rcases hinside u hu with rfl | hu
          · exact hvs.1
          · exact hu
        rw [ih hvs.2, turned_congr (h.mono hcycle)]

theorem sorted_component {key : α → Nat} {part : List α}
    (h : part ∈ (edges.cyclicComponents roots).map (sortedBy key)) : part ≠ [] ∧ ∀ v ∈ part, edges.Leads v v := by
  obtain ⟨component, hcomponent, rfl⟩ := List.mem_map.1 h
  obtain ⟨v, -, hlast, -⟩ := exists_classOf_eq hcomponent
  exact ⟨List.ne_nil_of_mem (mem_sortedBy.2 (List.mem_of_getLast? hlast)),
    fun v hv => (isComponent_of_mem hcomponent).leads (mem_sortedBy.1 hv)⟩

/-- Two lists of roots that find the same components and order the vertices on cycles alike find the same cycles. -/
theorem findCycles_congr (hcomponents : edges.cyclicComponents roots = edges.cyclicComponents others)
    (h : SameOrder roots others fun v => edges.Leads v v) : edges.findCycles roots = edges.findCycles others := by
  have hmembers : ∀ component ∈ edges.cyclicComponents roots,
      sortedBy (rank roots) component = sortedBy (rank others) component := by
    intro component hcomponent
    have hinside := h.mono fun v hv => (isComponent_of_mem hcomponent).leads hv
    exact sortedBy_congr fun u hu v hv => hinside u v hu hv
  unfold findCycles
  dsimp only
  rw [← hcomponents, List.map_congr_left hmembers]
  have hparts := fun part => @sorted_component _ _ edges roots (rank others) part
  generalize (edges.cyclicComponents roots).map (sortedBy (rank others)) = parts at hparts
  have hheads : ∀ a ∈ parts, ∀ b ∈ parts, ((a.head?.map (rank roots)).getD 0 ≤ (b.head?.map (rank roots)).getD 0 ↔
      (a.head?.map (rank others)).getD 0 ≤ (b.head?.map (rank others)).getD 0) := by
    intro a ha b hb
    obtain ⟨u, a, rfl⟩ := List.exists_cons_of_ne_nil (hparts a ha).1
    obtain ⟨v, b, rfl⟩ := List.exists_cons_of_ne_nil (hparts b hb).1
    exact h u v ((hparts _ ha).2 u List.mem_cons_self) ((hparts _ hb).2 v List.mem_cons_self)
  rw [sortedBy_congr hheads]
  refine List.flatMap_congr fun part hpart => ?_
  exact cover_congr (h.mono (hparts part (List.mem_mergeSort.1 hpart)).2) fun _ hv => hv

end SameOrder

section Listings

variable {roots : List α} {u v : α}

/-- The two are listed for the first time in the order in which they are listed for the last time. -/
def ListedAlike (roots : List α) (u v : α) : Prop :=
  roots.idxOf u ≤ roots.idxOf v ↔ rank roots u ≤ rank roots v

theorem rank_lt (hv : v ∈ roots) : rank roots v < roots.length := by
  unfold rank
  rw [if_pos hv]
  have := List.length_pos_of_mem hv
  omega

theorem rank_of_notMem (hv : v ∉ roots) : rank roots v = roots.length := if_neg hv

theorem listedAlike_of_roots (h : u ∈ roots → v ∈ roots → ListedAlike roots u v) : ListedAlike roots u v := by
  by_cases hu : u ∈ roots
  · by_cases hv : v ∈ roots
    · exact h hu hv
    · rw [ListedAlike, List.idxOf_of_notMem hv, rank_of_notMem hv]
      exact iff_of_true List.idxOf_le_length (rank_lt hu).le
  · rw [ListedAlike, List.idxOf_of_notMem hu, rank_of_notMem hu]
    by_cases hv : v ∈ roots
    · exact iff_of_false (List.idxOf_lt_length_of_mem hv).not_ge (rank_lt hv).not_ge
    · rw [List.idxOf_of_notMem hv, rank_of_notMem hv]

theorem rank_inj (hu : u ∈ roots) (hv : v ∈ roots) (h : rank roots u = rank roots v) : u = v := by
  have hbound : ∀ w ∈ roots, roots.reverse.idxOf w < roots.length := fun w hw =>
    (List.idxOf_lt_length_of_mem (List.mem_reverse.2 hw)).trans_eq List.length_reverse
  have hbackU := hbound u hu
  have hbackV := hbound v hv
  rw [rank, rank, if_pos hu, if_pos hv] at h
  exact (List.idxOf_inj (List.mem_reverse.2 hu)).1 (by omega)

theorem idxOf_filter_le {p : α → Bool} (hu : p u = true) (hv : p v = true) (vs : List α) :
    (vs.filter p).idxOf u ≤ (vs.filter p).idxOf v ↔ vs.idxOf u ≤ vs.idxOf v := by
  induction vs with
  | nil => rfl
  | cons w vs ih =>
    by_cases hw : p w = true
    · simp only [List.filter_cons_of_pos hw, List.idxOf_cons]
      cases w == u <;> cases w == v <;> simp [ih]
    · have hne : ∀ x, p x = true → (w == x) = false := fun x hx => beq_false_of_ne fun h => hw (h ▸ hx)
      simp only [List.filter_cons_of_neg hw, List.idxOf_cons, hne u hu, hne v hv, cond_false,
        Nat.add_le_add_iff_right, ih]

theorem idxOf_eraseDups_le (roots : List α) (u v : α) :
    roots.eraseDups.idxOf u ≤ roots.eraseDups.idxOf v ↔ roots.idxOf u ≤ roots.idxOf v := by
  match roots with
  | [] => rfl
  | w :: roots =>
    rw [List.eraseDups_cons, List.idxOf_cons, List.idxOf_cons, List.idxOf_cons, List.idxOf_cons]
    cases hu : w == u
    · cases hv : w == v
      · have hkept : ∀ x, (w == x) = false → (!x == w) = true := fun x hx => by rw [BEq.comm, hx]; rfl
        simp only [cond_false, Nat.add_le_add_iff_right]
        rw [idxOf_eraseDups_le, idxOf_filter_le (p := fun b => !b == w) (hkept u hu) (hkept v hv)]
      · simp
    · simp
termination_by roots.length
decreasing_by exact Nat.lt_succ_of_le (List.length_filter_le _ _)

end Listings

section Repeats

variable {roots path : List α} {u v : α}

/-- To keep the first listing of each root only finds the same cycles, and each of them begins with its vertex that
is listed first. -/
structure IgnoresRepeats (edges : Edges α) (roots : List α) : Prop where
  same : edges.findCycles roots = edges.findCycles roots.eraseDups
  first : ∀ path ∈ edges.findCycles roots,
    ∃ first, path.head? = some first ∧ ∀ u ∈ path, roots.idxOf first ≤ roots.idxOf u

theorem ignoresRepeats_of_listedAlike (h : ∀ u ∈ roots, ∀ v ∈ roots, edges.Leads u u → edges.Leads v v →
    ListedAlike roots u v) : IgnoresRepeats edges roots := by
  have hrank : ∀ u v, rank roots.eraseDups u ≤ rank roots.eraseDups v ↔ roots.idxOf u ≤ roots.idxOf v := by
    intro u v
    rw [rank_eq_idxOf (nodup_eraseDups roots), rank_eq_idxOf (nodup_eraseDups roots), idxOf_eraseDups_le]
  have hsame : edges.findCycles roots = edges.findCycles roots.eraseDups := by
    refine findCycles_congr (cyclicComponents_eraseDups edges roots).symm fun u v hu hv => ?_
    rw [hrank]
    exact (listedAlike_of_roots fun hu' hv' => h u hu' v hv' hu hv).symm
  refine ⟨hsame, fun path hpath => ?_⟩
  rw [hsame] at hpath
  obtain ⟨first, hfirst, hleast⟩ := exists_head?_of_mem_findCycles hpath
  exact ⟨first, hfirst, fun u hu => (hrank first u).1 (hleast u hu)⟩

def thereAndBack (u v : α) : Edges α := [(u, v), (v, u)]

omit [DecidableEq α] in
theorem IsCycle.exists_thereAndBack (h : (thereAndBack u v).IsCycle path) :
    ∃ rest, path = u :: v :: rest ∨ path = v :: u :: rest := by
  obtain ⟨w, rest, rfl⟩ := h.exists_eq
  obtain ⟨x, rest', hrest⟩ :=
    List.exists_cons_of_ne_nil (List.append_ne_nil_of_right_ne_nil rest (List.cons_ne_nil w []))
  rw [List.cons_append, hrest]
  have hchain := h.chain
  rw [List.cons_append, hrest, List.isChain_cons_cons] at hchain
  have hedge : w = u ∧ x = v ∨ w = v ∧ x = u := by simpa [thereAndBack] using hchain.1
  obtain ⟨rfl, rfl⟩ | ⟨rfl, rfl⟩ := hedge
  · exact ⟨rest', .inl rfl⟩
  · exact ⟨rest', .inr rfl⟩

/-- Two roots that lead to each other are on one cycle, which begins with the one whose last listing comes first. -/
theorem listedAlike_of_ignoresRepeats (hu : u ∈ roots) (hv : v ∈ roots) (h : IgnoresRepeats (thereAndBack u v) roots) :
    ListedAlike roots u v := by
  have hleads : (thereAndBack u v).Leads u u :=
    .tail (.single List.mem_cons_self) (List.mem_cons_of_mem _ List.mem_cons_self)
  obtain ⟨path, hpath, -⟩ := exists_mem_findCycles hu .refl hleads
  obtain ⟨first, hfirst, hplaces⟩ := h.first path hpath
  obtain ⟨first', hfirst', hranks⟩ := exists_head?_of_mem_findCycles hpath
  obtain rfl : first = first' := Option.some.inj (hfirst.symm.trans hfirst')
  obtain ⟨rest, rfl | rfl⟩ := (isCycle_of_mem_findCycles hpath).exists_thereAndBack
  · cases hfirst
    exact iff_of_true (hplaces v (by simp)) (hranks v (by simp))
  · cases hfirst
    constructor
    · intro hle
      obtain rfl : u = v := (List.idxOf_inj hu).1 (Nat.le_antisymm hle (hplaces u (by simp)))
      exact Nat.le_refl _
    · intro hle
      obtain rfl : u = v := rank_inj hu hv (Nat.le_antisymm hle (hranks u (by simp)))
      exact Nat.le_refl _

/-- To list roots again changes nothing for a graph if those on its cycles are listed for the first time in the order
in which they are listed for the last time. It changes nothing for any graph just if all are. -/
theorem repeated_roots_ignored_iff (roots : List α) :
    (∀ edges : Edges α, (∀ u ∈ roots, ∀ v ∈ roots, edges.Leads u u → edges.Leads v v → ListedAlike roots u v) →
      IgnoresRepeats edges roots) ∧
    ((∀ edges : Edges α, IgnoresRepeats edges roots) ↔ ∀ u ∈ roots, ∀ v ∈ roots, ListedAlike roots u v) := by
  refine ⟨fun edges => ignoresRepeats_of_listedAlike, fun h u hu v hv => ?_, fun h edges => ?_⟩
  · exact listedAlike_of_ignoresRepeats hu hv (h _)
  · exact ignoresRepeats_of_listedAlike fun u hu v hv _ _ => h u hu v hv

def led : Edges String := [("start", "a"), ("a", "b"), ("b", "a")]

theorem repeated_roots_ignored_iff_led : IgnoresRepeats led ["start", "a", "b", "start"] ∧
    led.findCycles ["start", "a", "b", "start"] = [["a", "b", "a"]] := by
  have hstart : ¬ led.Leads "start" "start" := by
    intro h
    obtain ⟨u, -, hedge⟩ := h.exists_last
    simp [led] at hedge
  refine ⟨(repeated_roots_ignored_iff _).1 led fun u hu v hv hloop hloop' => ?_, by cbv⟩
  have halike : ∀ u ∈ ["start", "a", "b", "start"], ∀ v ∈ ["start", "a", "b", "start"],
      u ≠ "start" → v ≠ "start" → ListedAlike ["start", "a", "b", "start"] u v := by
    unfold ListedAlike
    decide
  exact halike u hu v hv (fun h => hstart (h ▸ hloop)) fun h => hstart (h ▸ hloop')

/-- The cycle begins with `b`, although `a` is listed first. -/
theorem not_ignoresRepeats_thereAndBack :
    (thereAndBack "a" "b").findCycles ["a", "b", "a"] = [["b", "a", "b"]] ∧
    (thereAndBack "a" "b").findCycles ["a", "b", "a"].eraseDups = [["a", "b", "a"]] ∧
    ¬ ∀ (edges : Edges String) (roots : List String), IgnoresRepeats edges roots := by
  have hlast : (thereAndBack "a" "b").findCycles ["a", "b", "a"] = [["b", "a", "b"]] := by cbv
  have hfirst : (thereAndBack "a" "b").findCycles ["a", "b", "a"].eraseDups = [["a", "b", "a"]] := by cbv
  refine ⟨hlast, hfirst, fun h => ?_⟩
  have hsame := (h (thereAndBack "a" "b") ["a", "b", "a"]).same
  rw [hlast, hfirst] at hsame
  exact absurd hsame (by decide)

end Repeats

end DialogueScript.Edges
