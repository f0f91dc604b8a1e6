import Mathlib
import DialogueScript.Proofs.Components

namespace DialogueScript.Edges

variable {α : Type} [DecidableEq α] {edges : Edges α}

section Turned

variable {cycle : List α}

theorem rank_eq_idxOf {roots : List α} (hroots : roots.Nodup) (v : α) : rank roots v = roots.idxOf v := by
  unfold rank
  split
  · rename_i hv
    obtain ⟨i, hi, rfl⟩ := List.getElem_of_mem hv
    have hback : roots.length - 1 - i < roots.reverse.length := by
      rw [List.length_reverse]
      omega
    have hlast : roots[i] = roots.reverse[roots.length - 1 - i] := by
      rw [List.getElem_reverse]
      congr 1
      omega
    rw [hroots.idxOf_getElem i hi, hlast, (List.nodup_reverse.2 hroots).idxOf_getElem]
    omega
  · rename_i hv
    exact (List.idxOf_of_notMem hv).symm

theorem exists_rank_eq_min (roots : List α) {vs : List α} (h : vs ≠ []) :
    ∃ w ∈ vs, rank roots w = (vs.map (rank roots)).min?.getD 0 ∧ ∀ u ∈ vs, rank roots w ≤ rank roots u := by
  obtain ⟨least, hleast⟩ : ∃ least, (vs.map (rank roots)).min? = some least :=
    Option.isSome_iff_exists.1 (by simpa using h)
  obtain ⟨hmem, hle⟩ := List.min?_eq_some_iff.1 hleast
  obtain ⟨w, hw, rfl⟩ := List.mem_map.1 hmem
  exact ⟨w, hw, by rw [hleast, Option.getD_some], fun u hu => hle _ (List.mem_map_of_mem hu)⟩

theorem rank_eq_min_iff {roots vs : List α} {v : α} (hv : v ∈ vs) :
    rank roots v = (vs.map (rank roots)).min?.getD 0 ↔ ∀ u ∈ vs, rank roots v ≤ rank roots u := by
  obtain ⟨w, hw, hmin, hle⟩ := exists_rank_eq_min roots (List.ne_nil_of_mem hv)
  rw [← hmin]
  constructor
  · intro heq u hu
    exact heq ▸ hle u hu
  · exact fun h => Nat.le_antisymm (h w hw) (hle v hv)

theorem exists_head?_turned (roots : List α) (h : edges.IsCycle cycle) :
    ∃ first, (turned roots cycle).head? = some first ∧ ∀ u ∈ turned roots cycle, rank roots first ≤ rank roots u := by
  have hsame : ∀ u, u ∈ turned roots cycle ↔ u ∈ cycle := (isCycle_turned h).2
  obtain ⟨v, rest, rfl⟩ := h.exists_eq
  obtain ⟨w, hw, hrank, -⟩ := exists_rank_eq_min roots (List.cons_ne_nil v rest)
  have hfound : (v :: rest).findIdx (rank roots · = ((v :: rest).map (rank roots)).min?.getD 0) < (v :: rest).length :=
    List.findIdx_lt_length_of_exists ⟨w, hw, by simpa using hrank⟩
  refine ⟨(v :: rest)[(v :: rest).findIdx (rank roots · = ((v :: rest).map (rank roots)).min?.getD 0)], ?_,
    fun u hu => ?_⟩
  · unfold turned
    dsimp only
    rw [List.dropLast_concat, List.drop_eq_getElem_cons hfound]
    rfl
  · have hfirst := of_decide_eq_true (List.findIdx_getElem (w := hfound))
    have hu : u ∈ v :: rest := by
      have := (hsame u).1 hu
      simpa [or_comm] using this
    exact (rank_eq_min_iff (List.getElem_mem hfound)).1 hfirst u hu

end Turned

section New

variable {roots within covered vs path : List α} {earlier later : List (List α)}

theorem exists_new_of_cover_eq (h : edges.cover roots within covered vs = earlier ++ path :: later) :
    ∃ v ∈ vs, ∃ cycle, edges.cycleThrough v within = some cycle ∧ path = turned roots cycle ∧
      v ∉ covered ∧ ∀ other ∈ earlier, v ∉ other := by
  induction vs generalizing covered earlier with
  | nil => simp [cover] at h
  | cons u vs ih =>
    unfold cover at h
    split at h
    · exact (ih h).imp fun v hv => ⟨List.mem_cons_of_mem _ hv.1, hv.2⟩
    · rename_i hu
      split at h
      · exact (ih h).imp fun v hv => ⟨List.mem_cons_of_mem _ hv.1, hv.2⟩
      · rename_i cycle hcycle
        cases earlier with
        | nil =>
          obtain ⟨rfl, -⟩ := List.cons.inj h
          exact ⟨u, List.mem_cons_self, cycle, hcycle, rfl, hu, by simp⟩
        | cons first earlier =>
          obtain ⟨rfl, hrest⟩ := List.cons.inj h
          obtain ⟨v, hv, cycle', hcycle', hpath, hnew, hearlier⟩ := ih hrest
          rw [List.mem_append, not_or] at hnew
          refine ⟨v, List.mem_cons_of_mem _ hv, cycle', hcycle', hpath, hnew.1, ?_⟩
          refine List.forall_mem_cons.2 ⟨fun hmem => hnew.2 ?_, hearlier⟩
          exact ((isCycle_turned (isCycle_cycleThrough hcycle).1).2 v).1 hmem

/-- Each of the paths goes by a vertex that is on none of the earlier ones. -/
def EachNew (paths : List (List α)) : Prop :=
  ∀ earlier path later, paths = earlier ++ path :: later → ∃ v ∈ path, ∀ other ∈ earlier, v ∉ other

theorem eachNew_cover : EachNew (edges.cover roots within covered vs) := by
  intro earlier path later h
  obtain ⟨v, -, cycle, hcycle, rfl, -, hearlier⟩ := exists_new_of_cover_eq h
  obtain ⟨hloop, hhead, -⟩ := isCycle_cycleThrough hcycle
  exact ⟨v, ((isCycle_turned hloop).2 v).2 (List.mem_of_mem_head? hhead), hearlier⟩

theorem cover_inside (hvs : ∀ v ∈ vs, v ∈ within) (h : path ∈ edges.cover roots within covered vs) :
    ∀ u ∈ path, u ∈ within := by
  obtain ⟨earlier, later, hsplit⟩ := List.append_of_mem h
  obtain ⟨v, hv, cycle, hcycle, rfl, -⟩ := exists_new_of_cover_eq hsplit
  obtain ⟨hloop, -, hinside⟩ := isCycle_cycleThrough hcycle
  intro u hu
  rcases hinside u (((isCycle_turned hloop).2 u).1 hu) with rfl | hu
  · exact hvs u hv
  · exact hu

omit [DecidableEq α] in
theorem EachNew.append {paths others : List (List α)} (h : EachNew paths) (h' : EachNew others)
    (hapart : ∀ path ∈ paths, ∀ other ∈ others, path.Disjoint other) : EachNew (paths ++ others) := by
  intro earlier path later heq
  have hbehind (front : List (List α)) (hfront : paths ++ front = earlier) (hrest : others = front ++ path :: later) :
      ∃ v ∈ path, ∀ other ∈ earlier, v ∉ other := by
    obtain ⟨v, hv, hnew⟩ := h' front path later hrest
    have hpath : path ∈ others := hrest ▸ List.mem_append_right _ List.mem_cons_self
    rw [← hfront]
    exact ⟨v, hv, List.forall_mem_append.2 ⟨fun other hother hmem => hapart other hother path hpath hmem hv, hnew⟩⟩
  rcases List.append_eq_append_iff.1 heq with ⟨front, hfront, hrest⟩ | ⟨front, hfront, hrest⟩
  · exact hbehind front hfront.symm hrest
  · cases front with
    | nil =>
      rw [List.append_nil] at hfront
      exact hbehind [] ((List.append_nil _).trans hfront) hrest.symm
    | cons first front =>
      obtain ⟨rfl, -⟩ := List.cons.inj hrest
      exact h earlier path front hfront

omit [DecidableEq α] in
theorem eachNew_flatMap {parts : List (List α)} {paths : List α → List (List α)} (hparts : parts.Pairwise List.Disjoint)
    (hinside : ∀ part ∈ parts, ∀ path ∈ paths part, ∀ v ∈ path, v ∈ part) (hnew : ∀ part ∈ parts, EachNew (paths part)) :
    EachNew (parts.flatMap paths) := by
  induction parts with
  | nil => simp [EachNew]
  | cons part parts ih =>
    rw [List.pairwise_cons] at hparts
    rw [List.forall_mem_cons] at hinside hnew
    rw [List.flatMap_cons]
    refine hnew.1.append (ih hparts.2 hinside.2 hnew.2) fun path hpath other hother v hv hv' => ?_
    obtain ⟨part', hpart', hother⟩ := List.mem_flatMap.1 hother
    exact hparts.1 part' hpart' (hinside.1 path hpath v hv) (hinside.2 part' hpart' other hother v hv')

end New

section FindCycles

variable {roots path : List α}

/-- What is to be found: cycles that go by all vertices that can be reached from a root and lead back to
themselves, and by no other. Each begins with its vertex that is first among the roots, the others counting as
last, and each is needed when it is added to those before it. -/
structure CoversCycles (edges : Edges α) (roots : List α) (paths : List (List α)) : Prop where
  cycles : ∀ path ∈ paths, edges.IsCycle path
  covers : ∀ v, (∃ path ∈ paths, v ∈ path) ↔ (∃ root ∈ roots, edges.Reaches root v) ∧ edges.Leads v v
  first : ∀ path ∈ paths, ∃ first, path.head? = some first ∧ ∀ u ∈ path, roots.idxOf first ≤ roots.idxOf u
  new : EachNew paths

omit [DecidableEq α] in
theorem mem_sortedBy {key : α → Nat} {component : List α} {v : α} : v ∈ sortedBy key component ↔ v ∈ component :=
  List.mem_mergeSort

theorem eachNew_findCycles (edges : Edges α) (roots : List α) : EachNew (edges.findCycles roots) := by
  have hsorted : ((edges.cyclicComponents roots).map (sortedBy (rank roots))).Pairwise List.Disjoint := by
    refine List.pairwise_map.2 ((disjoint_cyclicComponents edges roots).imp fun hapart v hv hw => ?_)
    exact hapart (mem_sortedBy.1 hv) (mem_sortedBy.1 hw)
  unfold findCycles
  dsimp only
  refine eachNew_flatMap ?_ (fun part _ path hpath => ?_) fun part _ => eachNew_cover
  · exact ((List.mergeSort_perm _ _).pairwise_iff fun hapart => hapart.symm).2 hsorted
  · exact cover_inside (fun _ hv => hv) hpath

theorem leads_of_mem_findCycles {v : α} (hpath : path ∈ edges.findCycles roots) (hv : v ∈ path) :
    (∃ root ∈ roots, edges.Reaches root v) ∧ edges.Leads v v := by
  obtain ⟨component, hcomponent, hcover⟩ := mem_findCycles.1 hpath
  have hmem : v ∈ component := mem_sortedBy.1 (cover_inside (fun _ hu => hu) hcover v hv)
  exact exists_mem_component_iff.1 ⟨component, hcomponent, hmem⟩

theorem exists_head?_of_mem_findCycles (h : path ∈ edges.findCycles roots) :
    ∃ first, path.head? = some first ∧ ∀ u ∈ path, rank roots first ≤ rank roots u := by
  obtain ⟨component, -, hcover⟩ := mem_findCycles.1 h
  obtain ⟨v, cycle, hcycle, rfl⟩ := exists_cycle_of_mem_cover hcover
  exact exists_head?_turned roots (isCycle_cycleThrough hcycle).1

/-- The cycles that are found from roots without repeats are those that are to be found. -/
theorem findCycles_covers (edges : Edges α) {roots : List α} (hroots : roots.Nodup) :
    edges.CoversCycles roots (edges.findCycles roots) where
  cycles := fun _ => isCycle_of_mem_findCycles
  covers := by
    intro v
    constructor
    · rintro ⟨path, hpath, hv⟩
      exact leads_of_mem_findCycles hpath hv
    · rintro ⟨⟨root, hroot, hreach⟩, hcycle⟩
      exact exists_mem_findCycles hroot hreach hcycle
  first := by
    intro path hpath
    obtain ⟨first, hfirst, hleast⟩ := exists_head?_of_mem_findCycles hpath
    refine ⟨first, hfirst, fun u hu => ?_⟩
    rw [← rank_eq_idxOf hroots, ← rank_eq_idxOf hroots]
    exact hleast u hu
  new := eachNew_findCycles edges roots

def figureEight : Edges String := [("left", "hub"), ("hub", "left"), ("hub", "right"), ("right", "hub")]

theorem findCycles_covers_figureEight : ["hub", "right", "left"].Nodup ∧
    figureEight.findCycles ["hub", "right", "left"] = [["hub", "left", "hub"], ["hub", "right", "hub"]] ∧
    figureEight.CoversCycles ["hub", "right", "left"] (figureEight.findCycles ["hub", "right", "left"]) :=
  ⟨by decide, by cbv, findCycles_covers figureEight (by decide)⟩

end FindCycles

end DialogueScript.Edges
