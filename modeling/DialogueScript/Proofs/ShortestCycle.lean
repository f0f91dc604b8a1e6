import DialogueScript.Proofs.ParentLinks

namespace DialogueScript.Edges

variable {α : Type} [DecidableEq α] {edges : Edges α} {v : α} {within : List α}

def Steps (edges : Edges α) : Nat → α → α → Prop
  | 0, a, b => a = b
  | n + 1, a, b => ∃ c, Steps edges n a c ∧ (c, b) ∈ edges

/-- The vertices are those between the ends of a way from `v` back to `v`, and all of them may be used. -/
structure ClosesBy (edges : Edges α) (v : α) (within between : List α) : Prop where
  chain : (v :: between ++ [v]).IsChain fun a b => (a, b) ∈ edges
  inside : ∀ u ∈ between, u ∈ within

section Steps

omit [DecidableEq α]

theorem Steps.head {n : Nat} {a b c : α} (hedge : (a, b) ∈ edges) (h : edges.Steps n b c) :
    edges.Steps (n + 1) a c := by
  induction n generalizing c with
  | zero =>
    obtain rfl : b = c := h
    exact ⟨a, rfl, hedge⟩
  | succ n ih =>
    obtain ⟨d, hd, hlast⟩ := h
    exact ⟨d, ih hd, hlast⟩

theorem Steps.reaches {n : Nat} {a b : α} (h : edges.Steps n a b) : edges.Reaches a b := by
  induction n generalizing b with
  | zero => exact h ▸ .refl
  | succ n ih =>
    obtain ⟨c, hc, hedge⟩ := h
    exact (ih hc).tail hedge

end Steps

theorem exists_steps {a b : α} {between : List α} (hchain : (a :: between ++ [b]).IsChain fun a b => (a, b) ∈ edges)
    (hinside : ∀ u ∈ between, u ∈ within) :
    ∃ u, (edges.inside within).Steps between.length a u ∧ (u, b) ∈ edges := by
  induction between generalizing a with
  | nil => exact ⟨a, rfl, List.isChain_pair.1 hchain⟩
  | cons w between ih =>
    rw [List.cons_append, List.cons_append, List.isChain_cons_cons] at hchain
    rw [List.forall_mem_cons] at hinside
    obtain ⟨u, hsteps, hedge⟩ := ih hchain.2 hinside.2
    exact ⟨u, hsteps.head (mem_inside.2 ⟨hchain.1, hinside.1⟩), hedge⟩

section Layers

variable {seen : List α} {near far : List (α × List α)} {depth : Nat}

/-- Where the search from `v` stands when it looks at the vertices that are `depth` edges away. -/
structure Layers (edges : Edges α) (v : α) (within seen : List α) (depth : Nat) (near far : List (α × List α)) :
    Prop where
  near_depth : ∀ entry ∈ near, entry.2.length = depth
  far_depth : ∀ entry ∈ far, entry.2.length = depth + 1
  nearer : ∀ n < depth, ∀ u, (edges.inside within).Steps n v u → u ∈ seen
  layer : ∀ u, (edges.inside within).Steps depth v u → u ∈ seen ∨ u ∈ near.map Prod.fst
  open_ends : ∀ u ∈ seen, (u, v) ∉ edges
  followed : ∀ u ∈ seen, ∀ w, (u, w) ∈ edges.inside within → w ∈ seen ∨ w ∈ (near ++ far).map Prod.fst

/-- When a layer is done, the next one is complete. -/
theorem Layers.turn (h : edges.Layers v within seen depth [] far) :
    edges.Layers v within seen (depth + 1) far [] := by
  have hlayer : ∀ u, (edges.inside within).Steps depth v u → u ∈ seen :=
    fun u hu => (h.layer u hu).resolve_right List.not_mem_nil
  refine ⟨h.far_depth, by simp, fun n hn u hu => ?_, fun u hu => ?_, h.open_ends, fun u hu w hw => ?_⟩
  · rcases Nat.lt_or_eq_of_le (Nat.le_of_lt_succ hn) with hlt | rfl
    · exact h.nearer n hlt u hu
    · exact hlayer u hu
  · obtain ⟨c, hc, hedge⟩ := hu
    exact h.followed c (hlayer c hc) u hedge
  · rw [List.append_nil]
    exact h.followed u hu w hw

theorem Layers.exists_near {entry : α × List α} {rest : List (α × List α)}
    (h : edges.Layers v within seen depth near far) (hcons : near ++ far = entry :: rest) :
    ∃ depth near far, near ++ far = rest ∧ edges.Layers v within seen depth (entry :: near) far := by
  cases near with
  | cons first near =>
    cases hcons
    exact ⟨depth, near, far, rfl, h⟩
  | nil =>
    obtain rfl : far = entry :: rest := hcons
    exact ⟨depth + 1, rest, [], List.append_nil rest, h.turn⟩

theorem Layers.skip {current : α} {way : List α} (h : edges.Layers v within seen depth ((current, way) :: near) far)
    (hseen : current ∈ seen) : edges.Layers v within seen depth near far := by
  refine ⟨fun e he => h.near_depth e (List.mem_cons_of_mem _ he), h.far_depth, h.nearer, fun u hu => ?_,
    h.open_ends, fun u hu w hw => ?_⟩
  · rcases h.layer u hu with hu | hu
    · exact .inl hu
    · rcases List.mem_cons.1 hu with rfl | hu
      · exact .inl hseen
      · exact .inr hu
  · rcases h.followed u hu w hw with hw | hw
    · exact .inl hw
    · rcases List.mem_cons.1 hw with rfl | hw
      · exact .inl hseen
      · exact .inr hw

theorem Layers.look {current : α} {way : List α} (h : edges.Layers v within seen depth ((current, way) :: near) far)
    (hopen : v ∉ edges.successors current) :
    edges.Layers v within (current :: seen) depth near
      (far ++ ((edges.successors current).filter (· ∈ within)).map fun next => (next, current :: way)) := by
  have hdepth : way.length = depth := h.near_depth _ List.mem_cons_self
  refine ⟨fun e he => h.near_depth e (List.mem_cons_of_mem _ he), fun e he => ?_,
    fun n hn u hu => List.mem_cons_of_mem _ (h.nearer n hn u hu), fun u hu => ?_, fun u hu => ?_, fun u hu w hw => ?_⟩
  · rcases List.mem_append.1 he with he | he
    · exact h.far_depth e he
    · obtain ⟨next, -, rfl⟩ := List.mem_map.1 he
      exact congrArg Nat.succ hdepth
  · rcases h.layer u hu with hu | hu
    · exact .inl (List.mem_cons_of_mem _ hu)
    · rcases List.mem_cons.1 hu with rfl | hu
      · exact .inl List.mem_cons_self
      · exact .inr hu
  · rcases List.mem_cons.1 hu with rfl | hu
    · exact fun hedge => hopen (mem_successors.2 hedge)
    · exact h.open_ends u hu
  · rw [← List.append_assoc, List.map_append, List.mem_append, List.map_map]
    rcases List.mem_cons.1 hu with rfl | hu
    · obtain ⟨hedge, hin⟩ := mem_inside.1 hw
      refine .inr (.inr (List.mem_map.2 ⟨w, List.mem_filter.2 ⟨mem_successors.2 hedge, ?_⟩, rfl⟩))
      exact decide_eq_true hin
    · rcases h.followed u hu w hw with hw | hw
      · exact .inl (List.mem_cons_of_mem _ hw)
      · rcases List.mem_cons.1 hw with rfl | hw
        · exact .inl List.mem_cons_self
        · exact .inr (.inl hw)

/-- No way back is shorter than the one that is found. -/
theorem Layers.length_le {path : List α} (h : edges.Layers v within seen depth near far)
    (hfound : edges.searchBack v within seen (near ++ far) = some path) {n : Nat} {u : α}
    (hsteps : (edges.inside within).Steps n v u) (hedge : (u, v) ∈ edges) : path.length ≤ n + 2 := by
  generalize htodo : near ++ far = todo at hfound
  fun_induction searchBack edges v within seen todo generalizing depth near far with
  | case1 => cases hfound
  | case2 seen current way rest hseen ih =>
    obtain ⟨depth, near, far, rfl, hlayers⟩ := h.exists_near htodo
    exact ih (hlayers.skip hseen) rfl hfound
  | case3 seen current way rest hnew hclose =>
    obtain ⟨depth, near, far, rfl, hlayers⟩ := h.exists_near htodo
    have hdepth : way.length = depth := hlayers.near_depth _ List.mem_cons_self
    have hle : depth ≤ n := by
      by_contra hlt
      exact hlayers.open_ends u (hlayers.nearer n (Nat.lt_of_not_le hlt) u hsteps) hedge
    cases hfound
    rw [List.length_cons, List.length_cons, hdepth]
    exact Nat.add_le_add_right hle 2
  | case4 seen current way rest hnew hclose found =>
    rename_i ih
    obtain ⟨depth, near, far, rfl, hlayers⟩ := h.exists_near htodo
    exact ih (hlayers.look hclose) (List.append_assoc near far _).symm hfound

end Layers

/-- A cycle through `v` is found exactly if some way leads back to `v` by vertices that may be used. It begins
and ends with `v`, goes by no vertex twice, and no such way is shorter. The search by links finds the same. -/
theorem cycleThrough_shortest (edges : Edges α) (v : α) (within : List α) :
    (edges.cycleThrough v within = none ↔ ∀ between, ¬ edges.ClosesBy v within between) ∧
      (∀ path, edges.cycleThrough v within = some path → ∃ between, path = v :: between ++ [v] ∧
        edges.ClosesBy v within between ∧ (v :: between).Nodup ∧
        ∀ other, edges.ClosesBy v within other → between.length ≤ other.length) ∧
      edges.linkedCycle v within = edges.cycleThrough v within := by
  have hsome : ∀ path, edges.cycleThrough v within = some path → ∃ between, path = v :: between ++ [v] ∧
      edges.ClosesBy v within between ∧ (v :: between).Nodup := by
    intro path hpath
    obtain ⟨hcycle, hhead, hinside⟩ := isCycle_cycleThrough hpath
    obtain ⟨w, between, rfl⟩ := hcycle.exists_eq
    obtain rfl : w = v := Option.some.inj hhead
    obtain ⟨hchain, hnodup⟩ := isCycle_append.1 hcycle
    refine ⟨between, rfl, ⟨hchain, fun u hu => ?_⟩, hnodup⟩
    refine (hinside u (List.mem_append_left _ (List.mem_cons_of_mem _ hu))).resolve_left ?_
    rintro rfl
    exact (List.nodup_cons.1 hnodup).1 hu
  refine ⟨⟨fun hnone between hcloses => ?_, fun hno => ?_⟩, fun path hpath => ?_, linkedCycle_eq edges v within⟩
  · obtain ⟨u, hsteps, hedge⟩ := exists_steps hcloses.chain hcloses.inside
    obtain ⟨cycle, hfound⟩ := exists_cycleThrough hsteps.reaches hedge
    rw [hnone] at hfound
    cases hfound
  · cases hpath : edges.cycleThrough v within with
    | none => rfl
    | some path =>
      obtain ⟨between, -, hcloses, -⟩ := hsome path hpath
      exact absurd hcloses (hno between)
  · obtain ⟨between, rfl, hcloses, hnodup⟩ := hsome path hpath
    refine ⟨between, rfl, hcloses, hnodup, fun other hother => ?_⟩
    obtain ⟨u, hsteps, hedge⟩ := exists_steps hother.chain hother.inside
    obtain ⟨way, hway, hreverse⟩ := Option.map_eq_some_iff.1 hpath
    have hstart : edges.Layers v within [] 0 [(v, [])] [] := by
      refine ⟨by simp, by simp, by simp, fun u hu => ?_, by simp, by simp⟩
      exact .inr (List.mem_singleton.2 (show u = v from hu.symm))
    have hle := hstart.length_le hway hsteps hedge
    have hlength := congrArg List.length hreverse
    simp only [List.length_reverse, List.length_append, List.length_cons, List.length_nil] at hlength
    omega

end DialogueScript.Edges
