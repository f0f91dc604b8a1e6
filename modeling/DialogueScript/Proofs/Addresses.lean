import Mathlib.Data.List.Induction
import DialogueScript.Proofs.SpanOrder

namespace DialogueScript

/-- Which child of the whole, which child of that one, and so on, counted from zero. -/
abbrev Address := List Nat

/-- The values are those that stand at the addresses of which `stands` tells, one for each, in the order of the
addresses: an address comes before those that go on from it, and these before any way down a later child. -/
def InAddressOrder {β : Type} (stands : Address → β → Prop) (values : List β) : Prop :=
  ∃ places : List (Address × β), places.map Prod.snd = values ∧ places.Pairwise (fun p q => p.1 < q.1) ∧
    ∀ address b, (address, b) ∈ places ↔ stands address b

/-- What stands somewhere below one of the children: `stands` tells it of the children. -/
def Below {α β : Type} (children : List α) (stands : α → Address → β → Prop) (address : Address) (b : β) : Prop :=
  ∃ i path child, address = i :: path ∧ children[i]? = some child ∧ stands child path b

namespace InAddressOrder

variable {α β γ : Type} {stands : Address → β → Prop} {values : List β}

theorem congr (h : InAddressOrder stands values) {stands' : Address → β → Prop}
    (hsame : ∀ address b, stands address b ↔ stands' address b) : InAddressOrder stands' values := by
  obtain ⟨places, hvalues, horder, hall⟩ := h
  exact ⟨places, hvalues, horder, fun address b => (hall address b).trans (hsame address b)⟩

theorem mem_iff (h : InAddressOrder stands values) {b : β} : b ∈ values ↔ ∃ address, stands address b := by
  obtain ⟨places, rfl, -, hall⟩ := h
  rw [List.mem_map]
  constructor
  · rintro ⟨⟨address, b⟩, hmem, rfl⟩
    exact ⟨address, (hall address b).1 hmem⟩
  · rintro ⟨address, hstands⟩
    exact ⟨(address, b), (hall address b).2 hstands, rfl⟩

theorem filterMap (h : InAddressOrder stands values) (f : β → Option γ) :
    InAddressOrder (fun address c => ∃ b, stands address b ∧ f b = some c) (values.filterMap f) := by
  obtain ⟨places, rfl, horder, hall⟩ := h
  refine ⟨places.filterMap fun p => (f p.2).map fun c => (p.1, c), ?_, ?_, fun address c => ?_⟩
  · rw [List.map_filterMap, List.filterMap_map]
    apply List.filterMap_congr
    intro p _
    rw [Option.map_map]
    exact Option.map_id' ..
  · refine List.Pairwise.filterMap _ (fun p q hpq p' hp q' hq => ?_) horder
    obtain ⟨c, -, rfl⟩ := Option.map_eq_some_iff.1 hp
    obtain ⟨c', -, rfl⟩ := Option.map_eq_some_iff.1 hq
    exact hpq
  · simp only [List.mem_filterMap, Option.map_eq_some_iff, Prod.mk.injEq]
    constructor
    · rintro ⟨⟨address, b⟩, hmem, c, hf, rfl, rfl⟩
      exact ⟨b, (hall _ _).1 hmem, hf⟩
    · rintro ⟨b, hstands, hf⟩
      exact ⟨(address, b), (hall _ _).2 hstands, c, hf, rfl, rfl⟩

theorem map (h : InAddressOrder stands values) (f : β → γ) :
    InAddressOrder (fun address c => ∃ b, stands address b ∧ f b = c) (values.map f) := by
  rw [← List.filterMap_eq_map]
  exact (h.filterMap _).congr fun address c => by simp

theorem filter (h : InAddressOrder stands values) (p : β → Bool) :
    InAddressOrder (fun address b => stands address b ∧ p b = true) (values.filter p) := by
  rw [← List.filterMap_eq_filter]
  exact (h.filterMap _).congr fun address b => by simp [Option.guard_eq_some_iff]

theorem flatMap {children : List α} {below : α → List β} {stands : α → Address → β → Prop}
    (h : ∀ child ∈ children, InAddressOrder (stands child) (below child)) :
    InAddressOrder (Below children stands) (children.flatMap below) := by
  -- from the back: another last child has an address behind those of all others
  induction children using List.reverseRecOn with
  | nil => exact ⟨[], rfl, .nil, fun address b => by simp [Below]⟩
  | append_singleton children last ih =>
    obtain ⟨places, hvalues, horder, hall⟩ := ih fun child hchild => h child (List.mem_append_left _ hchild)
    obtain ⟨more, hmore, horder', hall'⟩ := h last (by simp)
    refine ⟨places ++ more.map fun p => (children.length :: p.1, p.2), ?_, ?_, fun address b => ?_⟩
    · rw [List.map_append, List.map_map, List.flatMap_append, List.flatMap_singleton, hvalues, ← hmore]
      rfl
    · refine List.pairwise_append.2 ⟨horder, ?_, fun p hp q hq => ?_⟩
      · exact List.pairwise_map.2 (horder'.imp fun hpq => List.cons_lt_cons_iff.2 (.inr ⟨rfl, hpq⟩))
      · obtain ⟨i, path, child, hp, hchild, -⟩ := (hall p.1 p.2).1 hp
        obtain ⟨q, -, rfl⟩ := List.mem_map.1 hq
        rw [hp]
        exact List.cons_lt_cons_iff.2 (.inl (List.getElem?_eq_some_iff.1 hchild).1)
    · rw [List.mem_append, hall, List.mem_map]
      constructor
      · rintro (⟨i, path, child, rfl, hchild, hstands⟩ | ⟨⟨path, b⟩, hmem, hp⟩)
        · exact ⟨i, path, child, rfl, List.getElem?_append_left (List.getElem?_eq_some_iff.1 hchild).1 ▸ hchild, hstands⟩
        · cases hp
          exact ⟨_, path, last, rfl, List.getElem?_concat_length, (hall' _ _).1 hmem⟩
      · rintro ⟨i, path, child, rfl, hchild, hstands⟩
        by_cases hi : i < children.length
        · exact .inl ⟨i, path, child, rfl, List.getElem?_append_left hi ▸ hchild, hstands⟩
        · obtain rfl : i = children.length := by
            have := (List.getElem?_eq_some_iff.1 hchild).1
            simp only [List.length_append, List.length_singleton] at this
            omega
          obtain rfl : last = child := by simpa using hchild
          exact .inr ⟨(path, b), (hall' _ _).2 hstands, rfl⟩

theorem cons {children : List α} {below : α → List β} {stands : α → Address → β → Prop} (whole : β)
    (h : ∀ child ∈ children, InAddressOrder (stands child) (below child)) :
    InAddressOrder (fun address b => address = [] ∧ b = whole ∨ Below children stands address b)
      (whole :: children.flatMap below) := by
  obtain ⟨places, hvalues, horder, hall⟩ := flatMap h
  refine ⟨([], whole) :: places, ?_, ?_, fun address b => ?_⟩
  · rw [List.map_cons, hvalues]
  · refine List.pairwise_cons.2 ⟨fun p hp => ?_, horder⟩
    obtain ⟨i, path, child, hp, -⟩ := (hall p.1 p.2).1 hp
    rw [hp]
    exact List.nil_lt_cons i path
  · rw [List.mem_cons, hall, Prod.mk.injEq]

theorem self (children : List α) :
    InAddressOrder (fun address child => ∃ i, address = [i] ∧ children[i]? = some child) children := by
  have hone : ∀ child ∈ children, InAddressOrder (fun address b => address = [] ∧ b = child) [child] :=
    fun child _ => ⟨[([], child)], rfl, List.pairwise_singleton .., by simp⟩
  have hall := flatMap hone
  rw [List.flatMap_singleton'] at hall
  refine hall.congr fun address b => ?_
  simp [Below]

end InAddressOrder

namespace Expression

/-- The part at an address inside of an expression: operands and arguments are counted from the left. -/
inductive HoldsAt : Expression → Address → Expression → Prop
  | whole {e : Expression} : HoldsAt e [] e
  | left {left right p : Expression} {operator : BinaryOperator} {span : Span} {path : Address}
    (h : HoldsAt left path p) : HoldsAt (.binary operator left right span) (0 :: path) p
  | right {left right p : Expression} {operator : BinaryOperator} {span : Span} {path : Address}
    (h : HoldsAt right path p) : HoldsAt (.binary operator left right span) (1 :: path) p
  | operand {operand p : Expression} {operator : UnaryOperator} {span : Span} {path : Address}
    (h : HoldsAt operand path p) : HoldsAt (.unary operator operand span) (0 :: path) p
  | argument {name : String} {arguments : List Expression} {e p : Expression} {span : Span} {i : Nat} {path : Address}
    (he : arguments[i]? = some e) (h : HoldsAt e path p) : HoldsAt (.call name arguments span) (i :: path) p

theorem holdsAt_cons_iff {e p : Expression} {i : Nat} {path : Address} :
    e.HoldsAt (i :: path) p ↔ ∃ child, e.children[i]? = some child ∧ child.HoldsAt path p := by
  constructor
  · intro h
    cases h with
    | left h | right h | operand h => exact ⟨_, rfl, h⟩
    | argument he h => exact ⟨_, he, h⟩
  · rintro ⟨child, hchild, h⟩
    cases e with
    | literal | var => cases hchild
    | binary operator left right span =>
      match i, hchild with
      | 0, rfl => exact .left h
      | 1, rfl => exact .right h
    | unary operator operand span =>
      match i, hchild with
      | 0, rfl => exact .operand h
    | call name arguments span => exact .argument hchild h

theorem partsOfAll_eq (es : List Expression) : partsOfAll es = es.flatMap parts := by
  induction es with
  | nil => rfl
  | cons e es ih => rw [partsOfAll, ih, List.flatMap_cons]

theorem parts_eq (e : Expression) : e.parts = e :: e.children.flatMap parts := by
  cases e with
  | literal | var => rfl
  | binary operator left right span => simp [parts, children]
  | unary operator operand span => simp [parts, children]
  | call name arguments span => rw [parts, partsOfAll_eq, children]

theorem sizeOf_children {e child : Expression} (h : child ∈ e.children) : sizeOf child < sizeOf e := by
  cases e with
  | literal | var => cases h
  | binary operator left right span =>
    rcases List.mem_pair.1 h with rfl | rfl <;> simp only [binary.sizeOf_spec] <;> omega
  | unary operator operand span =>
    obtain rfl := List.mem_singleton.1 h
    simp only [unary.sizeOf_spec]
    omega
  | call name arguments span =>
    have hlt : sizeOf child < sizeOf arguments := List.sizeOf_lt_of_mem h
    simp only [call.sizeOf_spec]
    omega

/-- The parts of an expression are listed in the order of their addresses. -/
theorem parts_inAddressOrder (e : Expression) : InAddressOrder e.HoldsAt e.parts := by
  rw [parts_eq]
  refine (InAddressOrder.cons e fun child _ => parts_inAddressOrder child).congr fun address p => ?_
  constructor
  · rintro (⟨rfl, rfl⟩ | ⟨i, path, child, rfl, hpart⟩)
    · exact .whole
    · exact holdsAt_cons_iff.2 ⟨child, hpart⟩
  · intro h
    cases address with
    | nil =>
      cases h
      exact .inl ⟨rfl, rfl⟩
    | cons i path =>
      obtain ⟨child, hpart⟩ := holdsAt_cons_iff.1 h
      exact .inr ⟨i, path, child, rfl, hpart⟩
termination_by sizeOf e
decreasing_by exact sizeOf_children ‹_›

end Expression

end DialogueScript
