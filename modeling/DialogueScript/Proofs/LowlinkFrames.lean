import DialogueScript.Proofs.Lowlinks

namespace DialogueScript.Edges.Lowlinks

variable {α : Type} [DecidableEq α] {edges : Edges α} {s s' : Lowlinks α} {u v w : α} {followed : Nat}
  {frames : List (α × Nat)} {stack above below : List α}

/-- An edge to `w` has been followed in the segment of `v`. -/
def Known (s : Lowlinks α) (v : α) (below : List α) (w : α) : Prop :=
  w ∈ s.entered ∧ (w ∈ below → s.lowOf v ≤ s.indexOf w)

/-- The segment of `v`, with the vertices above `v` and those below. -/
structure Segment (edges : Edges α) (s : Lowlinks α) (v : α) (followed : Nat) (above below : List α) : Prop where
  together : ∀ u ∈ above, edges.Reaches v u ∧ edges.Reaches u v
  left : ∀ u ∈ above, ∀ w, (u, w) ∈ edges → s.Known v below w
  followed : ∀ w ∈ (edges.successors v).take followed, s.Known v below w
  low_le : s.lowOf v ≤ s.indexOf v
  low_reached : ∃ w ∈ v :: below, s.lowOf v = s.indexOf w ∧ edges.Reaches v w

/-- The stack as the segments of the vertices that are being visited. -/
inductive Framed (edges : Edges α) (s : Lowlinks α) : List (α × Nat) → List α → Prop
  | nil : Framed edges s [] []
  | cons {v : α} {followed : Nat} {frames : List (α × Nat)} {above below : List α}
      (outer : Framed edges s frames below) (link : ∀ f ∈ frames.head?, edges.Reaches f.1 v)
      (segment : Segment edges s v followed above below) :
    Framed edges s ((v, followed) :: frames) (above ++ v :: below)

/-- The stack is in the order of the numbers, the greatest on top. -/
abbrev Descending (s : Lowlinks α) (stack : List α) : Prop := stack.Pairwise fun a b => s.indexOf b < s.indexOf a

section Descending

theorem Descending.lt (h : s.Descending (above ++ v :: below)) (hw : w ∈ below) : s.indexOf w < s.indexOf v :=
  (List.pairwise_cons.1 (List.pairwise_append.1 h).2.1).1 w hw

theorem Descending.above_lt (h : s.Descending (above ++ v :: below)) (hu : u ∈ above) (hw : w ∈ v :: below) :
    s.indexOf w < s.indexOf u :=
  (List.pairwise_append.1 h).2.2 u hu w hw

theorem Descending.rest (h : s.Descending (above ++ v :: below)) : s.Descending below :=
  (List.pairwise_cons.1 (List.pairwise_append.1 h).2.1).2

theorem Descending.ne (h : s.Descending (above ++ v :: below)) (hw : w ∈ below) : w ≠ v := by
  rintro rfl
  exact Nat.lt_irrefl _ (h.lt hw)

theorem Descending.nodup (h : s.Descending stack) : stack.Nodup :=
  h.imp fun hlt => by
    rintro rfl
    exact Nat.lt_irrefl _ hlt

theorem Descending.eq_of_mem_iff {stack' : List α} (h : s.Descending stack) (h' : s.Descending stack')
    (hmem : ∀ u, u ∈ stack ↔ u ∈ stack') : stack = stack' :=
  List.Perm.eq_of_pairwise (fun _ _ _ _ hlt hlt' => absurd hlt (Nat.lt_asymm hlt')) h h'
    ((List.perm_ext_iff_of_nodup h.nodup h'.nodup).2 hmem)

end Descending

section Segment

theorem Known.mono (h : s.Known v below w) (hentered : s.entered ⊆ s'.entered) (hlow : s'.lowOf v ≤ s.lowOf v)
    (hindex : ∀ w ∈ below, s'.indexOf w = s.indexOf w) : s'.Known v below w := by
  refine ⟨hentered h.1, fun hw => ?_⟩
  rw [hindex w hw]
  exact hlow.trans (h.2 hw)

theorem Segment.congr (h : Segment edges s v followed above below) (hentered : s.entered ⊆ s'.entered)
    (hlow : s'.lowOf v = s.lowOf v) (hindex : ∀ w ∈ v :: below, s'.indexOf w = s.indexOf w) :
    Segment edges s' v followed above below := by
  have hbelow : ∀ w ∈ below, s'.indexOf w = s.indexOf w := fun w hw => hindex w (List.mem_cons_of_mem _ hw)
  obtain ⟨w, hw, hvalue, hreach⟩ := h.low_reached
  refine ⟨h.together, fun u hu w hw => (h.left u hu w hw).mono hentered hlow.le hbelow,
    fun w hw => (h.followed w hw).mono hentered hlow.le hbelow, ?_, w, hw, ?_, hreach⟩
  · rw [hlow, hindex v List.mem_cons_self]
    exact h.low_le
  · rw [hlow, hindex w hw, hvalue]

theorem Segment.follow (h : Segment edges s v followed above below)
    (hnext : (edges.successors v)[followed]? = some w) (hknown : s.Known v below w) :
    Segment edges s v (followed + 1) above below := by
  refine ⟨h.together, h.left, fun u hu => ?_, h.low_le, h.low_reached⟩
  rw [List.take_add_one, hnext] at hu
  rcases List.mem_append.1 hu with hu | hu
  · exact h.followed u hu
  · obtain rfl : u = w := List.mem_singleton.1 hu
    exact hknown

theorem Segment.lower (h : Segment edges s v followed above below) (hdescending : s.Descending (above ++ v :: below))
    (hw : w ∈ above ++ v :: below) (hreach : edges.Reaches v w) :
    Segment edges (s.lower v (s.indexOf w)) v followed above below := by
  have hlow : (s.lower v (s.indexOf w)).lowOf v = min (s.lowOf v) (s.indexOf w) := by
    rw [lowOf_lower, if_pos rfl]
  have hless : (s.lower v (s.indexOf w)).lowOf v ≤ s.lowOf v := hlow ▸ Nat.min_le_left _ _
  refine ⟨h.together, fun u hu x hx => (h.left u hu x hx).mono (List.Subset.refl _) hless fun _ _ => rfl,
    fun x hx => (h.followed x hx).mono (List.Subset.refl _) hless fun _ _ => rfl, hless.trans h.low_le, ?_⟩
  rw [hlow]
  rcases Nat.lt_or_ge (s.indexOf w) (s.lowOf v) with hlt | hle
  · rw [Nat.min_eq_right hlt.le]
    refine ⟨w, ?_, rfl, hreach⟩
    -- what is above `v` has a greater number than `v`
    refine (List.mem_append.1 hw).resolve_left fun habove => ?_
    have hgreater := hdescending.above_lt habove List.mem_cons_self
    have hle := h.low_le
    omega
  · rw [Nat.min_eq_left hle]
    exact h.low_reached

/-- What is together with `v`, and leads only to what is known, may be counted in. -/
theorem Segment.extend {more : List α} (h : Segment edges s v followed above below)
    (htogether : ∀ u ∈ more, edges.Reaches v u ∧ edges.Reaches u v)
    (hknown : ∀ u ∈ more, ∀ w, (u, w) ∈ edges → s.Known v below w) :
    Segment edges s v followed (more ++ above) below :=
  ⟨List.forall_mem_append.2 ⟨htogether, h.together⟩, List.forall_mem_append.2 ⟨hknown, h.left⟩, h.followed,
    h.low_le, h.low_reached⟩

theorem Segment.known (h : Segment edges s v followed above below) (hdone : (edges.successors v)[followed]? = none) :
    ∀ u ∈ above ++ [v], ∀ w, (u, w) ∈ edges → s.Known v below w := by
  rw [List.forall_mem_append, List.forall_mem_singleton]
  refine ⟨h.left, fun w hw => h.followed w ?_⟩
  rw [List.take_of_length_le (List.getElem?_eq_none_iff.1 hdone)]
  exact mem_successors.2 hw

/-- A segment with the number of `v` as low link leads to nothing below. -/
theorem Segment.leads_above (h : Segment edges s v followed above below)
    (hdone : (edges.successors v)[followed]? = none) (hdescending : s.Descending (above ++ v :: below))
    (hlow : s.lowOf v = s.indexOf v) :
    ∀ u ∈ above ++ [v], ∀ w, (u, w) ∈ edges → w ∈ s.entered ∧ w ∉ below := by
  intro u hu w hedge
  obtain ⟨hentered, hbelow⟩ := h.known hdone u hu w hedge
  refine ⟨hentered, fun hw => ?_⟩
  have hlt := hdescending.lt hw
  have hle := hbelow hw
  omega

end Segment

section Framed

theorem Framed.congr (h : Framed edges s frames stack) (hentered : s.entered ⊆ s'.entered)
    (hsame : ∀ u ∈ stack, s'.indexOf u = s.indexOf u ∧ s'.lowOf u = s.lowOf u) : Framed edges s' frames stack := by
  induction h with
  | nil => exact .nil
  | cons outer link segment ih =>
    rw [List.forall_mem_append] at hsame
    refine .cons (ih fun u hu => hsame.2 u (List.mem_cons_of_mem _ hu)) link ?_
    exact segment.congr hentered (hsame.2 _ List.mem_cons_self).2 fun u hu => (hsame.2 u hu).1

theorem Framed.eq_nil (h : Framed edges s [] stack) : stack = [] := by
  cases h
  rfl

theorem Framed.mem_stack (h : Framed edges s frames stack) (hu : u ∈ frames.map Prod.fst) : u ∈ stack := by
  induction h with
  | nil => cases hu
  | cons outer link segment ih =>
    refine List.mem_append_right _ ?_
    rcases List.mem_cons.1 hu with rfl | hu
    · exact List.mem_cons_self
    · exact List.mem_cons_of_mem _ (ih hu)

theorem Framed.reaches_top (h : Framed edges s frames stack) :
    ∀ f ∈ frames.head?, ∀ u ∈ stack, edges.Reaches u f.1 := by
  induction h with
  | nil => simp
  | @cons v followed frames above below outer link segment ih =>
    rintro f hf u hu
    obtain rfl : (v, followed) = f := Option.some.inj hf
    rcases List.mem_append.1 hu with hu | hu
    · exact (segment.together u hu).2
    · rcases List.mem_cons.1 hu with rfl | hu
      · exact .refl
      · cases frames with
        | nil =>
          rw [outer.eq_nil] at hu
          cases hu
        | cons f frames => exact (ih f rfl u hu).trans (link f rfl)

theorem Framed.exists_earlier (h : Framed edges s frames stack) (hdescending : s.Descending stack)
    (hu : u ∈ stack) (hleft : u ∉ frames.map Prod.fst) :
    ∃ f ∈ stack, s.indexOf f < s.indexOf u ∧ edges.Reaches u f ∧ edges.Reaches f u := by
  induction h with
  | nil => cases hu
  | @cons v followed frames above below outer link segment ih =>
    rw [List.map_cons, List.mem_cons, not_or] at hleft
    rcases List.mem_append.1 hu with hu | hu
    · have hv : v ∈ v :: below := List.mem_cons_self
      exact ⟨v, List.mem_append_right _ hv, hdescending.above_lt hu hv, (segment.together u hu).2,
        (segment.together u hu).1⟩
    · obtain ⟨f, hf, hearlier⟩ := ih hdescending.rest ((List.mem_cons.1 hu).resolve_left hleft.1) hleft.2
      exact ⟨f, List.mem_append_right _ (List.mem_cons_of_mem _ hf), hearlier⟩

theorem Framed.follow (h : Framed edges s ((v, followed) :: frames) stack)
    (hnext : (edges.successors v)[followed]? = some w) (hentered : w ∈ s.entered)
    (hlow : w ∈ stack → s.lowOf v ≤ s.indexOf w) : Framed edges s ((v, followed + 1) :: frames) stack := by
  cases h with
  | cons outer link segment =>
    refine .cons outer link (segment.follow hnext ⟨hentered, fun hw => hlow ?_⟩)
    exact List.mem_append_right _ (List.mem_cons_of_mem _ hw)

theorem Framed.lower (h : Framed edges s ((v, followed) :: frames) stack) (hdescending : s.Descending stack)
    (hw : w ∈ stack) (hreach : edges.Reaches v w) :
    Framed edges (s.lower v (s.indexOf w)) ((v, followed) :: frames) stack := by
  cases h with
  | cons outer link segment =>
    refine .cons (outer.congr (List.Subset.refl _) fun u hu => ⟨rfl, ?_⟩) link
      (segment.lower hdescending hw hreach)
    rw [lowOf_lower, if_neg (hdescending.ne hu)]

theorem Framed.extend {more : List α} (h : Framed edges s ((v, followed) :: frames) stack)
    (htogether : ∀ u ∈ more, edges.Reaches v u ∧ edges.Reaches u v)
    (hknown : ∀ u ∈ more, ∀ w, (u, w) ∈ edges → s.Known v stack w) :
    Framed edges s ((v, followed) :: frames) (more ++ stack) := by
  cases h with
  | cons outer link segment =>
    rw [← List.append_assoc]
    refine .cons outer link (segment.extend htogether fun u hu w hw => ?_)
    obtain ⟨hentered, hlow⟩ := hknown u hu w hw
    exact ⟨hentered, fun hbelow => hlow (List.mem_append_right _ (List.mem_cons_of_mem _ hbelow))⟩

theorem indexOf_lowerTop {n : Nat} : (s.lowerTop n).indexOf u = s.indexOf u := by
  obtain ⟨lowlink, h⟩ := lowerTop_eq s n
  rw [h]
  rfl

theorem lowOf_lowerTop {n : Nat} (hu : ∀ f ∈ s.frames.head?, u = f.1 → s.lowOf u ≤ n) :
    (s.lowerTop n).lowOf u = s.lowOf u := by
  unfold lowerTop
  split
  · rfl
  · rename_i p followed frames hframes
    rw [lowOf_lower]
    split
    · rename_i hup
      rw [← hup, Nat.min_eq_left (hu (p, followed) (by rw [hframes]; rfl) hup)]
    · rfl

theorem Framed.low_le (h : Framed edges s frames stack) : ∀ f ∈ frames.head?, s.lowOf f.1 ≤ s.indexOf f.1 := by
  rintro f hf
  cases h with
  | nil => cases hf
  | cons outer link segment =>
    cases hf
    exact segment.low_le

theorem Framed.head_mem (h : Framed edges s frames stack) : ∀ f ∈ frames.head?, f.1 ∈ stack :=
  fun _ hf => h.mem_stack (List.mem_map_of_mem (List.mem_of_mem_head? hf))

/-- A vertex with its own number as low link is left, and its segment is taken off the stack. -/
theorem Framed.pop (outer : Framed edges s frames below) (hdescending : s.Descending (above ++ v :: below))
    (hlow : s.lowOf v = s.indexOf v) :
    Framed edges (({ s with frames } : Lowlinks α).lowerTop (s.lowOf v)) frames below := by
  refine outer.congr (fun u hu => ?_) fun u hu => ⟨indexOf_lowerTop, lowOf_lowerTop fun f hf hfu => ?_⟩
  · rw [entered_lowerTop]
    exact hu
  · -- the vertex below has a lower number, and so a lower low link
    have hle := outer.low_le f hf
    have hlt := hdescending.lt (outer.head_mem f hf)
    subst hfu
    change s.lowOf f.1 ≤ s.lowOf v
    omega

/-- A vertex that leads back to an earlier one is left, and its segment goes to that of the vertex below. -/
theorem Framed.merge (outer : Framed edges s frames below) (link : ∀ f ∈ frames.head?, edges.Reaches f.1 v)
    (segment : Segment edges s v followed above below) (hdone : (edges.successors v)[followed]? = none)
    (hdescending : s.Descending (above ++ v :: below)) (hlow : s.lowOf v < s.indexOf v) :
    Framed edges (({ s with frames } : Lowlinks α).lowerTop (s.lowOf v)) frames (above ++ v :: below) := by
  obtain ⟨r, hr, hvalue, hreach⟩ := segment.low_reached
  have hr : r ∈ below := by
    refine (List.mem_cons.1 hr).resolve_left ?_
    rintro rfl
    omega
  cases frames with
  | nil =>
    rw [outer.eq_nil] at hr
    cases hr
  | cons f frames =>
    obtain ⟨p, followed'⟩ := f
    have hto : edges.Reaches p v := link (p, followed') rfl
    have hback : edges.Reaches v p := hreach.trans (outer.reaches_top (p, followed') rfl r hr)
    have hlowered := outer.lower hdescending.rest hr (hto.trans hreach)
    have hp : (s.lower p (s.indexOf r)).lowOf p ≤ s.lowOf v := by
      rw [lowOf_lower, if_pos rfl, hvalue]
      exact Nat.min_le_right _ _
    have htogether : ∀ u ∈ above ++ [v], edges.Reaches p u ∧ edges.Reaches u p := by
      rw [List.forall_mem_append, List.forall_mem_singleton]
      refine ⟨fun u hu => ?_, hto, hback⟩
      obtain ⟨hvu, huv⟩ := segment.together u hu
      exact ⟨hto.trans hvu, huv.trans hback⟩
    have hmerged := hlowered.extend htogether fun u hu w hw =>
      (segment.known hdone u hu w hw).imp_right fun hlow hbelow => hp.trans (hlow hbelow)
    rw [List.append_cons, hvalue]
    exact hmerged.congr (List.Subset.refl _) fun _ _ => ⟨rfl, rfl⟩

end Framed

end DialogueScript.Edges.Lowlinks
