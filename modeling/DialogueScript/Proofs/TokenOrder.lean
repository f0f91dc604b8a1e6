import DialogueScript.Proofs.Layout
import DialogueScript.Proofs.TokenSpans

namespace DialogueScript

/-- What can come directly behind a token of this kind. -/
def TokenKind.Precedes (k next : TokenKind) : Prop :=
  match k with
  | .newline => next ≠ .newline
  | .indent => next.isContent = true
  | .dedent => next.isContent = true ∨ next = .dedent ∨ next = .endOfFile
  | .endOfFile => False
  | _ => next.isContent = true ∨ next = .newline

theorem TokenKind.precedes_of_isContent {k next : TokenKind} (h : k.isContent = true) :
    k.Precedes next ↔ next.isContent = true ∨ next = .newline := by
  cases k <;> first | exact .rfl | cases h

/-- What comes first, of the tokens that are at one place. -/
def TokenKind.turn : TokenKind → Nat
  | .newline => 0
  | .dedent => 1
  | .indent => 2
  | _ => 3

theorem TokenKind.turn_of_isContent {k : TokenKind} (h : k.isContent = true) : k.turn = 3 := by
  cases k <;> first | rfl | cases h

theorem TokenKind.turn_le (k : TokenKind) : k.turn ≤ 3 := by cases k <;> decide

theorem TokenKind.Precedes.turn_lt {k next : TokenKind} (h : k.Precedes next) (hk : k.isContent = false) :
    k.turn < next.turn ∨ k = .dedent ∧ next = .dedent := by
  have hcontent (hnext : next.isContent = true) (hlt : k.turn < 3) :
      k.turn < next.turn ∨ k = .dedent ∧ next = .dedent := .inl (turn_of_isContent hnext ▸ hlt)
  cases k <;> try cases hk
  case newline =>
    cases next <;> first | exact .inl (by decide) | exact absurd rfl h
  case indent => exact hcontent h (by decide)
  case dedent =>
    rcases h with hnext | rfl | rfl
    · exact hcontent hnext (by decide)
    · exact .inr ⟨rfl, rfl⟩
    · exact .inl (by decide)
  case endOfFile => exact h.elim

theorem IsMargin.isChain {margin : List TokenKind} (h : IsMargin margin) :
    (.newline :: margin).IsChain TokenKind.Precedes := by
  cases h with
  | level => exact .singleton _
  | deeper => exact .cons_cons nofun (.singleton _)
  | back n => exact .cons_cons nofun (List.isChain_replicate_of_rel (n + 1) (.inr (.inl rfl)))

theorem IsMargin.precedes {margin : List TokenKind} (h : IsMargin margin) {k next : TokenKind}
    (hk : k ∈ TokenKind.newline :: margin) (hnext : next.isContent = true) : k.Precedes next := by
  rcases List.mem_cons.1 hk with rfl | hk
  · rintro rfl
    cases hnext
  cases h with
  | level => cases hk
  | deeper =>
    rw [List.mem_singleton.1 hk]
    exact hnext
  | back n =>
    rw [List.eq_of_mem_replicate hk]
    exact .inl hnext

theorem KindLine.isChain (line : KindLine) {ks : List TokenKind}
    (h : (.newline :: ks).IsChain TokenKind.Precedes) :
    (.newline :: (line.kinds ++ ks)).IsChain TokenKind.Precedes := by
  have hcontent : (line.content ++ .newline :: ks).IsChain TokenKind.Precedes := by
    refine List.isChain_append.2 ⟨?_, h, fun k hk next hnext => ?_⟩
    · refine List.Pairwise.isChain (List.pairwise_of_forall_mem_list fun k hk next hnext => ?_)
      exact (TokenKind.precedes_of_isContent (line.isContent k hk)).2 (.inl (line.isContent next hnext))
    · have hline := line.isContent k (List.mem_of_getLast? hk)
      exact (TokenKind.precedes_of_isContent hline).2 (.inr (Option.some.inj hnext).symm)
  rw [kinds, List.append_assoc, List.append_assoc, List.singleton_append, ← List.cons_append]
  refine List.isChain_append.2 ⟨line.isMargin.isChain, hcontent, fun k hk next hnext => ?_⟩
  rw [List.head?_append_of_ne_nil _ line.content_ne_nil] at hnext
  exact line.isMargin.precedes (List.mem_of_getLast? hk) (line.isContent next (List.mem_of_head? hnext))

theorem LaidOut.isChain {ks : List TokenKind} (h : LaidOut ks) : ks.IsChain TokenKind.Precedes := by
  obtain ⟨⟨lines, n, rfl⟩, -⟩ := h
  rw [List.append_assoc]
  -- the first line is as it would be behind the end of another one
  suffices hlines : (.newline :: (lines.flatMap KindLine.kinds ++
      (List.replicate n .dedent ++ [.endOfFile]))).IsChain TokenKind.Precedes from hlines.tail
  induction lines with
  | nil =>
    refine List.isChain_append.2 ⟨(isMargin_dedents n).isChain, .singleton _, fun k hk next hnext => ?_⟩
    obtain rfl := Option.some.inj hnext
    rcases List.mem_cons.1 (List.mem_of_getLast? hk) with rfl | hk
    · nofun
    · rw [List.eq_of_mem_replicate hk]
      exact .inr (.inr rfl)
  | cons line lines ih =>
    rw [List.flatMap_cons, List.append_assoc]
    exact line.isChain ih

theorem Position.lt_of_le_of_ne {p q : Position} (h : p ≤ q) (hne : p ≠ q) : p < q := by
  refine lt_of_le_not_ge h fun hge => hne ?_
  have hle := Position.le_iff.1 h
  have hge := Position.le_iff.1 hge
  cases p
  cases q
  simp only [Position.mk.injEq] at *
  omega

theorem Cursor.Passes.lt {source : String} {c d : Cursor} {text : List Char} (h : c.Passes d text)
    (hc : c.Lies source) (hd : d.Lies source) (hne : text ≠ []) : c.position < d.position := by
  refine Position.lt_of_le_of_ne h.position fun hposition => ?_
  have hoffset : c.offset = d.offset :=
    Option.some.inj (hc.byteOffset_eq.symm.trans ((congrArg _ hposition).trans hd.byteOffset_eq))
  have hbytes : byteLength text = 0 := by
    have := h.offset
    omega
  exact hne (byteLength_eq_zero.1 hbytes)

def Token.TakesRoom (t : Token) : Prop := t.kind.isContent = true → t.span.start < t.span.stop

theorem Token.takesRoom_of_layout {t : Token} (h : t.kind.isContent = false) : t.TakesRoom :=
  fun hcontent => Bool.noConfusion (h.symm.trans hcontent)

namespace Scanner

open Cursor

variable {source : String} {tokens : List Token} {errors : List ScriptError} {s : Scanner}

theorem Move.takesRoom {step : Step} (hmove : Move s step) (hlies : s.cursor.Lies source)
    (hmodes : ∀ m ∈ s.modes, m.position ≤ s.cursor.position) : ∀ t ∈ step.tokens, t.TakesRoom := by
  have hone {t : Token} (h : t.span.start < t.span.stop) : ∀ u ∈ [t], u.TakesRoom :=
    List.forall_mem_singleton.2 fun _ => h
  have hstart {quote emitted modes} (hopen : s.modes = .text quote emitted :: modes) :
      (if emitted then s.cursor.position else quote) ≤ s.cursor.position := by
    split
    · exact le_rfl
    · exact hmodes _ (hopen ▸ List.mem_cons_self)
  have hlayout {t : Token} : t.kind.isContent = false → t.TakesRoom := t.takesRoom_of_layout
  have hnext := hmove.lies hlies
  obtain ⟨text, hstretch⟩ := s.passes_stretch
  cases hmove with
  | idle | blank | innerBreak | openText | pass | strange | endInText | endInPlaceholder =>
    exact List.forall_mem_nil _
  | margin _ _ _ _ _ _ hstep =>
    cases hstep with
    | refuse => exact List.forall_mem_nil _
    | deeper => exact List.forall_mem_singleton.2 (hlayout rfl)
    | back | between => exact List.forall_mem_map.2 fun _ _ => hlayout rfl
  | lineEnd =>
    split
    · exact List.forall_mem_singleton.2 (hlayout rfl)
    · exact List.forall_mem_nil _
  | closePlaceholder _ hrest => exact hone ((passes_bump_char rfl hrest).lt hlies hnext (List.cons_ne_nil _ _))
  | word _ hread =>
    refine hone ((passes_along (Lexeme.read?_plain hread).1).lt hlies hnext ?_)
    exact List.length_pos_iff.1 (Lexeme.read?_length_pos hread)
  | @closeText quote emitted modes hopen hstop =>
    obtain ⟨rest, hrest⟩ := TextRun.read_quote _ _ _ hstop
    have hpass := hstretch.trans (passes_bump_char rfl hrest)
    have hlt := hpass.lt hlies hnext (by simp)
    split
    · exact List.forall_mem_nil _
    · exact hone (lt_of_le_of_lt (hstart hopen) hlt)
  | @openPlaceholder quote emitted modes hopen hstop =>
    obtain ⟨rest, hrest⟩ := TextRun.read_placeholder _ _ _ hstop
    have hmark := (passes_placeholder hrest).lt (lies_stretch hlies) hnext (List.cons_ne_nil _ _)
    refine List.forall_mem_append.2 ⟨?_, hone hmark⟩
    split
    · exact List.forall_mem_nil _
    · rename_i htext
      refine hone (lt_of_le_of_lt (hstart hopen) (hstretch.lt hlies (lies_stretch hlies) ?_))
      rintro rfl
      -- where nothing is passed, the placeholder opens at once
      have hahead : s.cursor.rest = '#' :: '{' :: rest := hstretch.rest.trans hrest
      exact htext (by rw [stretch, hahead]; rfl)
  | finish =>
    simp only [List.forall_mem_append, List.forall_mem_map, List.forall_mem_singleton]
    refine ⟨⟨?_, fun _ _ => hlayout rfl⟩, hlayout rfl⟩
    split
    · exact List.forall_mem_singleton.2 (hlayout rfl)
    · exact List.forall_mem_nil _

theorem Scanned.takesRoom (h : Scanned source tokens errors s) : ∀ t ∈ tokens, t.TakesRoom := by
  induction h with
  | start => exact List.forall_mem_nil _
  | @step tokens errors s h hs ih =>
    exact List.forall_mem_append.2 ⟨ih, (move_step s).takesRoom h.lies h.marks_le.2⟩

end Scanner

/-- The token comes in front of the other: it starts before it, or at the same place, where its turn is first. Ends
of blocks have their turn together. -/
def Token.Before (t u : Token) : Prop :=
  t.span.start < u.span.start ∨
    t.span.start ≤ u.span.start ∧ (t.kind.turn < u.kind.turn ∨ t.kind = .dedent ∧ u.kind = .dedent)

namespace Token.Before

variable {t u v : Token}

theorem start_le (h : t.Before u) : t.span.start ≤ u.span.start := h.elim le_of_lt And.left

theorem trans (h : t.Before u) (h' : u.Before v) : t.Before v := by
  rcases h with h | ⟨hle, h⟩
  · exact .inl (lt_of_lt_of_le h h'.start_le)
  rcases h' with h' | ⟨hle', h'⟩
  · exact .inl (lt_of_le_of_lt hle h')
  refine .inr ⟨hle.trans hle', ?_⟩
  rcases h with h | ⟨ht, hu⟩ <;> rcases h' with h' | ⟨hu', hv⟩
  · exact .inl (h.trans h')
  · exact .inl (by rwa [hv, ← hu'])
  · exact .inl (by rwa [ht, ← hu])
  · exact .inr ⟨ht, hv⟩

theorem start_lt (h : t.Before u) (ht : t.kind.turn = 3) : t.span.start < u.span.start := by
  rcases h with h | ⟨-, h | ⟨h, -⟩⟩
  · exact h
  · have hle := u.kind.turn_le
    omega
  · rw [h] at ht
    cases ht

end Token.Before

theorem Token.before_of_precedes {t u : Token} (hkinds : t.kind.Precedes u.kind) (hroom : t.TakesRoom)
    (hspan : t.span.start ≤ t.span.stop) (hplace : t.span.stop ≤ u.span.start) : t.Before u := by
  cases hcontent : t.kind.isContent with
  | true => exact .inl (lt_of_lt_of_le (hroom hcontent) hplace)
  | false => exact .inr ⟨hspan.trans hplace, hkinds.turn_lt hcontent⟩

/-- Each token of a text comes in front of all that follow it. -/
theorem pairwise_before_of_lex {source : String} {tokens : List Token} (h : lex source = .ok tokens) :
    tokens.Pairwise Token.Before := by
  have : IsTrans Token Token.Before := ⟨fun _ _ _ => .trans⟩
  obtain ⟨c, htiles⟩ := Scanner.tiles_of_lex h
  obtain ⟨s, hscan, -⟩ := Scanner.scanned_of_lex h
  have hplaces := List.isChain_iff_getElem.1 htiles.isChain
  have hkinds := List.isChain_iff_getElem.1 ((List.isChain_map _).1 (laidOut_of_lex h).1.isChain)
  rw [← List.isChain_iff_pairwise, List.isChain_iff_getElem]
  intro i hi
  have hmem : tokens[i] ∈ tokens := List.getElem_mem _
  exact Token.before_of_precedes (hkinds i hi) (hscan.takesRoom _ hmem) (htiles.start_le_stop _ hmem) (hplaces i hi)

end DialogueScript
