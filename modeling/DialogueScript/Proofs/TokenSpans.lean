import DialogueScript.Proofs.ScanOrder

namespace DialogueScript

theorem byteLength_eq_zero {text : List Char} : byteLength text = 0 ↔ text = [] := by
  cases text with
  | nil => simp
  | cons x text =>
    have hsize := x.utf8Size_pos
    simp only [byteLength_cons, reduceCtorEq, iff_false]
    omega

theorem prefix_of_byteLength_le {a b text : List Char} (ha : a <+: text) (hb : b <+: text)
    (h : byteLength a ≤ byteLength b) : a <+: b := by
  rcases List.prefix_or_prefix_of_prefix ha hb with hab | ⟨more, rfl⟩
  · exact hab
  · rw [byteLength_append] at h
    rw [byteLength_eq_zero.1 (by omega : byteLength more = 0), List.append_nil]

/-- Whether the value of a token of this kind is the text that it stands for as it is written. -/
def TokenKind.isVerbatim : TokenKind → Bool
  | string | newline | indent | dedent | endOfFile => false
  | _ => true

namespace Scanner

/-- Some steps without an error lead the scan of `source` to `s`, where it stands behind `before`. -/
def StandsBehind (source : String) (before : List Char) (s : Scanner) : Prop :=
  ∃ tokens, Scanned source tokens [] s ∧ source.toList = before ++ s.cursor.rest

/-- Why a character that stands behind `before` is in no token. -/
inductive LeftOut (source : String) (before : List Char) : Char → Prop
  | blank {x : Char} (h : x = ' ' ∨ x = '\t') : LeftOut source before x
  | lineBreak {x : Char} (h : x = '\n' ∨ x = '\r') : LeftOut source before x
  /-- It is in a comment, which begins where words are read. -/
  | comment {x : Char} {s : Scanner} {passed inside : List Char} (hs : StandsBehind source passed s)
    (hplain : s.Plain) (hinside : before ++ [x] = passed ++ '#' :: inside)
    (hline : ∀ y ∈ inside, y ≠ '\n' ∧ y ≠ '\r') : LeftOut source before x
  /-- It opens a string, where words are read, and right behind it a placeholder opens. -/
  | openingQuote {s : Scanner} {rest : List Char} (hs : StandsBehind source before s) (hplain : s.Plain)
    (hrest : s.cursor.rest = '"' :: '#' :: '{' :: rest) : LeftOut source before '"'
  /-- It closes the string that is read, and right before it a placeholder closes. -/
  | closingQuote {s : Scanner} {inside rest : List Char} {quote : Position} {modes : List Mode}
    (hs : StandsBehind source before s) (hmodes : s.modes = .text quote true :: modes)
    (hinside : before = inside ++ ['}']) (hrest : s.cursor.rest = '"' :: rest) : LeftOut source before '"'

/-- The text up to a cursor as the spans of tokens with what is left out between them. -/
inductive Tiles (source : String) : List Token → Cursor → Prop
  | start : Tiles source [] (.ofText source)
  | token {tokens : List Token} {c d : Cursor} {t : Token} {text : List Char} (h : Tiles source tokens c)
    (hpass : c.Passes d text) (hlies : d.Lies source) (hspan : t.span = ⟨c.position, d.position⟩)
    (hvalue : t.kind.isVerbatim = true → t.value.toList = text) : Tiles source (tokens ++ [t]) d
  | gap {tokens : List Token} {c d : Cursor} {text : List Char} (h : Tiles source tokens c)
    (hpass : c.Passes d text) (hlies : d.Lies source)
    (hout : ∀ before, source.toList = before ++ c.rest → ∀ inside x more, text = inside ++ x :: more →
      LeftOut source (before ++ inside) x) : Tiles source tokens d

def Spells (source : String) (span : Span) (text : List Char) : Prop :=
  ∃ before after, source.toList = before ++ text ++ after ∧
    byteOffset source span.start = some (byteLength before) ∧
    byteOffset source span.stop = some (byteLength (before ++ text))

def Covers (source : String) (span : Span) (byte : Nat) : Prop :=
  ∃ first last, byteOffset source span.start = some first ∧ byteOffset source span.stop = some last ∧
    first ≤ byte ∧ byte < last

namespace Tiles

variable {source : String} {tokens more : List Token} {c d : Cursor} {text : List Char}

theorem lies (h : Tiles source tokens c) : c.Lies source := by
  cases h with
  | start => exact Cursor.lies_ofText source
  | token _ _ hlies => exact hlies
  | gap _ _ hlies => exact hlies

theorem blanks (h : Tiles source tokens c) (hpass : c.Passes d text) (hlies : d.Lies source)
    (hblank : ∀ x ∈ text, Lexeme.isIndentChar x = true ∨ isBreak x = true) : Tiles source tokens d := by
  refine h.gap hpass hlies fun before _ inside x more htext => ?_
  rcases hblank x (by simp [htext]) with hx | hx
  · exact .blank (by simpa [Lexeme.isIndentChar] using hx)
  · exact .lineBreak (isBreak_iff.1 hx)

theorem skip (h : Tiles source tokens c) {x : Char} {rest : List Char} (hx : isBreak x = false)
    (hrest : c.rest = x :: rest) (hout : ∀ before, source.toList = before ++ c.rest → LeftOut source before x) :
    Tiles source tokens c.bump := by
  refine h.gap (Cursor.passes_bump_char hx hrest) h.lies.bump fun before hbefore inside y more htext => ?_
  cases inside with
  | nil =>
    obtain ⟨rfl, -⟩ := List.cons.inj htext
    rw [List.append_nil]
    exact hout before hbefore
  | cons z inside => simp at htext

theorem points (h : Tiles source tokens c)
    (hmore : ∀ t ∈ more, t.span = .point c.position ∧ t.kind.isVerbatim = false) :
    Tiles source (tokens ++ more) c := by
  induction more generalizing tokens with
  | nil => rwa [List.append_nil]
  | cons t more ih =>
    obtain ⟨⟨hspan, hkind⟩, hmore⟩ := List.forall_mem_cons.1 hmore
    rw [List.append_cons]
    exact ih (h.token (.refl c) h.lies hspan fun hverbatim => by simp [hkind] at hverbatim) hmore

theorem stop_le (h : Tiles source tokens c) : ∀ t ∈ tokens, t.span.stop ≤ c.position := by
  induction h with
  | start => exact List.forall_mem_nil _
  | token h hpass _ hspan _ ih =>
    refine List.forall_mem_append.2 ⟨fun t ht => (ih t ht).trans hpass.position, ?_⟩
    rw [List.forall_mem_singleton, hspan]
  | gap h hpass _ _ ih => exact fun t ht => (ih t ht).trans hpass.position

theorem start_le_stop (h : Tiles source tokens c) : ∀ t ∈ tokens, t.span.start ≤ t.span.stop := by
  induction h with
  | start => exact List.forall_mem_nil _
  | token h hpass _ hspan _ ih =>
    refine List.forall_mem_append.2 ⟨ih, ?_⟩
    rw [List.forall_mem_singleton, hspan]
    exact hpass.position
  | gap _ _ _ _ ih => exact ih

theorem isChain (h : Tiles source tokens c) : tokens.IsChain fun t u => t.span.stop ≤ u.span.start := by
  induction h with
  | start => exact .nil
  | token h _ _ hspan _ ih =>
    refine List.isChain_append.2 ⟨ih, .singleton _, fun t ht u hu => ?_⟩
    obtain rfl := Option.some.inj hu
    rw [hspan]
    exact h.stop_le t (List.mem_of_getLast? ht)
  | gap _ _ _ _ ih => exact ih

theorem spells (h : Tiles source tokens c) :
    ∀ t ∈ tokens, t.kind.isVerbatim = true → Spells source t.span t.value.toList := by
  induction h with
  | start => exact List.forall_mem_nil _
  | @token tokens c d t text h hpass hlies hspan hvalue ih =>
    refine List.forall_mem_append.2 ⟨ih, List.forall_mem_singleton.2 fun hverbatim => ?_⟩
    obtain ⟨passed, shown, before, start, hplaced⟩ := h.lies
    refine ⟨passed, d.rest, ?_, ?_, ?_⟩
    · rw [hplaced.text, hpass.rest, hvalue hverbatim, List.append_assoc]
    · rw [hspan, h.lies.byteOffset_eq, hplaced.offset]
    · rw [hspan, hlies.byteOffset_eq, hpass.offset, hplaced.offset, hvalue hverbatim, byteLength_append]
  | gap _ _ _ _ ih => exact ih

theorem stop_offset_le (h : Tiles source tokens c) :
    ∀ t ∈ tokens, ∃ stop, byteOffset source t.span.stop = some stop ∧ stop ≤ c.offset := by
  induction h with
  | start => exact List.forall_mem_nil _
  | token h hpass hlies hspan _ ih =>
    refine List.forall_mem_append.2 ⟨fun t ht => ?_, List.forall_mem_singleton.2 ?_⟩
    · obtain ⟨stop, hstop, hle⟩ := ih t ht
      have hoffset := hpass.offset
      exact ⟨stop, hstop, by omega⟩
    · rw [hspan, hlies.byteOffset_eq]
      exact ⟨_, rfl, le_rfl⟩
  | gap h hpass _ _ ih =>
    intro t ht
    obtain ⟨stop, hstop, hle⟩ := ih t ht
    have hoffset := hpass.offset
    exact ⟨stop, hstop, by omega⟩

theorem isChain_offset (h : Tiles source tokens c) : tokens.IsChain fun t u => ∃ stop start,
    byteOffset source t.span.stop = some stop ∧ byteOffset source u.span.start = some start ∧
      stop ≤ start := by
  induction h with
  | start => exact .nil
  | token h _ _ hspan _ ih =>
    refine List.isChain_append.2 ⟨ih, .singleton _, fun t ht u hu => ?_⟩
    obtain rfl := Option.some.inj hu
    obtain ⟨stop, hstop, hle⟩ := h.stop_offset_le t (List.mem_of_getLast? ht)
    rw [hspan, h.lies.byteOffset_eq]
    exact ⟨stop, _, hstop, rfl, hle⟩
  | gap _ _ _ _ ih => exact ih

theorem spells_pair (h : Tiles source tokens c) {t u : Token} (hpair : [t, u] <:+: tokens)
    (ht : t.kind.isVerbatim = true) (hu : u.kind.isVerbatim = true) :
    ∃ inner, Spells source ⟨t.span.start, u.span.stop⟩ (t.value.toList ++ inner ++ u.value.toList) := by
  obtain ⟨before, after, hsource, hstart, hstop⟩ := h.spells t (hpair.mem List.mem_cons_self) ht
  obtain ⟨before', after', hsource', hstart', hstop'⟩ :=
    h.spells u (hpair.mem (List.mem_cons_of_mem _ List.mem_cons_self)) hu
  have hchain := List.IsChain.infix h.isChain_offset hpair
  obtain ⟨stop, start, hstop_eq, hstart_eq, hle⟩ := List.isChain_pair.1 hchain
  obtain rfl := Option.some.inj (hstop_eq.symm.trans hstop)
  obtain rfl := Option.some.inj (hstart_eq.symm.trans hstart')
  have hprefix : before ++ t.value.toList <+: source.toList := ⟨_, hsource.symm⟩
  have hprefix' : before' <+: source.toList := ⟨u.value.toList ++ after', by rw [hsource', List.append_assoc]⟩
  obtain ⟨inner, rfl⟩ := prefix_of_byteLength_le hprefix hprefix' hle
  refine ⟨inner, before, after', ?_, hstart, ?_⟩
  · rw [hsource']
    simp only [List.append_assoc]
  · rw [hstop']
    simp only [List.append_assoc]

/-- Of the text up to the cursor every character is in a token or left out. -/
theorem lossless (h : Tiles source tokens c) {before after : List Char} {x : Char}
    (hsource : source.toList = before ++ x :: after) (hbefore : byteLength before < c.offset) :
    (∃ t ∈ tokens, Covers source t.span (byteLength before)) ∨ LeftOut source before x := by
  induction h with
  | start => exact absurd hbefore (Nat.not_lt_zero _)
  | @token tokens c d t text h hpass hlies hspan _ ih =>
    by_cases hc : byteLength before < c.offset
    · refine (ih hc).imp_left fun ⟨u, hu, hcovers⟩ => ⟨u, List.mem_append_left _ hu, hcovers⟩
    · refine .inl ⟨t, List.mem_append_right _ (List.mem_singleton_self t), c.offset, d.offset, ?_, ?_, ?_⟩
      · rw [hspan, h.lies.byteOffset_eq]
      · rw [hspan, hlies.byteOffset_eq]
      · exact ⟨Nat.not_lt.1 hc, hbefore⟩
  | @gap tokens c d text h hpass _ hout ih =>
    by_cases hc : byteLength before < c.offset
    · exact ih hc
    · obtain ⟨passed, shown, earlier, start, hplaced⟩ := h.lies
      have htext := hplaced.text
      rw [hplaced.offset] at hc
      rw [hpass.offset, hplaced.offset] at hbefore
      obtain ⟨inside, rfl⟩ := prefix_of_byteLength_le ⟨_, htext.symm⟩ ⟨_, hsource.symm⟩ (Nat.not_lt.1 hc)
      have hrest : inside ++ x :: after = c.rest := by
        rw [hsource, List.append_assoc] at htext
        exact List.append_cancel_left htext
      rw [byteLength_append, Nat.add_lt_add_iff_left] at hbefore
      obtain ⟨more, hmore⟩ := prefix_of_byteLength_le ⟨_, hrest⟩ ⟨_, hpass.rest.symm⟩ hbefore.le
      rw [← hmore, byteLength_append] at hbefore
      cases more with
      | nil => exact absurd hbefore (by simp)
      | cons y more =>
        have hfirst := hrest.trans hpass.rest
        rw [← hmore, List.append_assoc] at hfirst
        obtain ⟨rfl, -⟩ := List.cons.inj (List.append_cancel_left hfirst)
        exact .inr (hout passed htext inside x more hmore.symm)

end Tiles

variable {source : String} {tokens : List Token} {errors : List ScriptError} {s : Scanner}

/-- How far the tiles go: up to where the scan stands, or, in the first stretch of a string, up to its
quote. -/
inductive Front (source : String) (s : Scanner) : Cursor → Prop
  | here (h : ∀ quote modes, s.modes ≠ .text quote false :: modes) : Front source s s.cursor
  | quote {t : Scanner} {tokens : List Token} {rest : List Char} (ht : Scanned source tokens [] t)
    (hplain : t.Plain) (hrest : t.cursor.rest = '"' :: rest)
    (hmodes : s.modes = .text t.cursor.position false :: t.modes) (hcursor : s.cursor = t.cursor.bump) :
    Front source s t.cursor

variable {front : Cursor}

theorem Front.eq_cursor (h : Front source s front)
    (hmodes : ∀ quote modes, s.modes ≠ .text quote false :: modes) : front = s.cursor := by
  cases h with
  | here => rfl
  | quote _ _ _ htext => exact absurd htext (hmodes _ _)

theorem Front.passes (h : Front source s front) {quote : Position} {emitted : Bool} {modes : List Mode}
    (hmodes : s.modes = .text quote emitted :: modes) :
    (if emitted then s.cursor.position else quote) = front.position ∧ ∃ text, front.Passes s.cursor text := by
  cases h with
  | here h =>
    cases emitted with
    | true => exact ⟨rfl, [], .refl _⟩
    | false => exact absurd hmodes (h _ _)
  | quote _ _ hrest htext hcursor =>
    rw [htext] at hmodes
    cases hmodes
    rw [hcursor]
    exact ⟨rfl, _, Cursor.passes_bump_char rfl hrest⟩

theorem Tiles.pass (h : Tiles source tokens s.cursor) (hscan : Scanned source tokens [] s) (hplain : s.Plain)
    {lexeme : Lexeme} (hread : Lexeme.read? s.cursor.rest = some lexeme) (hkind : lexeme.kind = none) :
    Tiles source tokens (s.cursor.along lexeme.text.length) := by
  obtain ⟨hfirst, hline⟩ := Lexeme.read?_plain hread
  have hpass := Cursor.passes_along hfirst
  have hlies := hscan.lies.along _ hfirst hline
  cases Lexeme.reads_of_read? hread with
  | word | numeral | mark => cases hkind
  | blanks => exact h.blanks hpass hlies fun x hx => .inl (List.mem_takeWhile_imp hx)
  | @comment rest hrest =>
    refine h.gap hpass hlies fun before hbefore inside x more htext => ?_
    -- up to the character there is the number sign, and other characters of the line
    obtain ⟨shown, hshown⟩ : ∃ shown, inside ++ [x] = '#' :: shown := by
      have hcons : inside ++ x :: more = '#' :: rest.takeWhile (!isBreak ·) := by
        rw [← htext, hrest, List.takeWhile_cons_of_pos rfl]
      cases inside with
      | nil => exact ⟨[], by rw [(List.cons.inj hcons).1, List.nil_append]⟩
      | cons y inside => exact ⟨inside ++ [x], by rw [(List.cons.inj hcons).1, List.cons_append]⟩
    refine .comment ⟨tokens, hscan, hbefore⟩ hplain (by rw [List.append_assoc, hshown]) fun y hy => ?_
    have hmem : y ∈ inside ++ [x] := hshown ▸ List.mem_cons_of_mem _ hy
    have hbreak := hline y (by rw [htext, List.append_cons]; exact List.mem_append_left _ hmem)
    simpa [isBreak] using hbreak

theorem Tiles.closeText (h : Tiles source tokens front) (hfront : Front source s front)
    (hscan : Scanned source tokens [] s) {quote : Position} {emitted : Bool} {modes : List Mode}
    (hmodes : s.modes = .text quote emitted :: modes) (hstop : s.stretch.stop = .quote) :
    Tiles source (tokens ++ if s.stretch.text.isEmpty && emitted then []
      else [⟨.string, String.ofList s.stretch.text,
        ⟨if emitted then s.cursor.position else quote, s.stretch.cursor.bump.position⟩⟩])
      s.stretch.cursor.bump := by
  obtain ⟨rest, hrest⟩ : ∃ rest, s.stretch.cursor.rest = '"' :: rest := TextRun.read_quote _ _ _ hstop
  split
  · rename_i hsilent
    obtain ⟨hempty, rfl⟩ : s.stretch.text = [] ∧ emitted = true := by simpa using hsilent
    have hcursor : s.stretch.cursor = s.cursor := TextRun.cursor_of_text_nil hempty
    rw [hfront.eq_cursor (by simp [hmodes])] at h
    rw [hcursor] at hrest ⊢
    rw [List.append_nil]
    refine h.skip rfl hrest fun before hbefore => ?_
    obtain ⟨passed, hpassed⟩ := hscan.sound.resumed _ _ hmodes
    rw [hbefore, List.append_cons] at hpassed
    exact .closingQuote ⟨tokens, hscan, hbefore⟩ hmodes (List.append_cancel_right hpassed) hrest
  · obtain ⟨hstart, text, hopen⟩ := hfront.passes hmodes
    obtain ⟨text', hstretch⟩ := s.passes_stretch
    rw [hstart]
    exact h.token ((hopen.trans hstretch).trans (Cursor.passes_bump_char rfl hrest))
      (lies_stretch hscan.lies).bump rfl nofun

theorem Tiles.stretch (h : Tiles source tokens front) (hfront : Front source s front)
    (hscan : Scanned source tokens [] s) {quote : Position} {emitted : Bool} {modes : List Mode}
    (hmodes : s.modes = .text quote emitted :: modes) (hstop : s.stretch.stop = .placeholder) :
    Tiles source (tokens ++ if s.stretch.text.isEmpty then []
      else [⟨.string, String.ofList s.stretch.text,
        ⟨if emitted then s.cursor.position else quote, s.stretch.cursor.position⟩⟩]) s.stretch.cursor := by
  obtain ⟨rest, hrest⟩ : ∃ rest, s.stretch.cursor.rest = '#' :: '{' :: rest :=
    TextRun.read_placeholder _ _ _ hstop
  split
  · rename_i hempty
    have hcursor : s.stretch.cursor = s.cursor := TextRun.cursor_of_text_nil (List.isEmpty_iff.1 hempty)
    rw [hcursor] at hrest ⊢
    rw [List.append_nil]
    cases hfront with
    | here => exact h
    | @quote t tokens' rest' ht hplain hquote _ hopen =>
      rw [hopen, Cursor.bump_char rfl hquote] at hrest
      rw [hopen]
      exact h.skip rfl hquote fun before hbefore =>
        .openingQuote ⟨tokens', ht, hbefore⟩ hplain (hquote.trans (congrArg ('"' :: ·) hrest))
  · obtain ⟨hstart, text, hopen⟩ := hfront.passes hmodes
    obtain ⟨text', hstretch⟩ := s.passes_stretch
    rw [hstart]
    exact h.token (hopen.trans hstretch) (lies_stretch hscan.lies) rfl nofun

/-- Every step without an error goes on with the tiles. -/
theorem Move.tiles {step : Step} (hmove : Move s step) (herror : step.error = none)
    (hscan : Scanned source tokens [] s) (hfront : Front source s front) (h : Tiles source tokens front) :
    ∃ front', Front source step.next front' ∧ Tiles source (tokens ++ step.tokens) front' := by
  have hnested := hscan.sound.nested
  -- outside of string text the tiles go up to where the scan stands
  have hhere : (∀ quote modes, s.modes ≠ .text quote false :: modes) → Tiles source tokens s.cursor :=
    fun hmodes => hfront.eq_cursor hmodes ▸ h
  have hplain' : s.Plain → ∀ quote modes, s.modes ≠ .text quote false :: modes :=
    fun hplain _ _ => hplain.not_text
  have hlies := hmove.lies hscan.lies
  have hmargin : s.modes = [] → Tiles source tokens s.behindMargin := fun hmodes =>
    (hhere (by simp [hmodes])).blanks s.passes_behindMargin (lies_behindMargin hscan.lies)
      fun x hx => .inl (List.mem_takeWhile_imp hx)
  cases hmove with
  | idle hmodes =>
    rw [List.append_nil]
    exact ⟨_, .here (by simp [indented, hmodes]), hmargin hmodes⟩
  | blank hmodes _ hrest hbreak =>
    obtain ⟨ends, hbump, hends⟩ := Cursor.passes_bump_break hbreak hrest
    rw [List.append_nil]
    exact ⟨_, .here (by simp [hmodes]), (hmargin hmodes).blanks hbump hlies fun x hx => .inr (hends x hx)⟩
  | margin hmodes _ _ _ _ _ hstep =>
    cases hstep with
    | refuse | between => cases herror
    | deeper =>
      exact ⟨_, .here (by simp [indented, hmodes]),
        (hhere (by simp [hmodes])).token s.passes_behindMargin hlies rfl nofun⟩
    | back =>
      refine ⟨_, .here (by simp [indented, hmodes]), (hmargin hmodes).points fun t ht => ?_⟩
      obtain ⟨_, -, rfl⟩ := List.mem_map.1 ht
      exact ⟨rfl, rfl⟩
  | lineEnd hmodes _ hrest hbreak =>
    obtain ⟨ends, hbump, hends⟩ := Cursor.passes_bump_break hbreak hrest
    refine ⟨_, .here (by simp [hmodes]), Tiles.blanks (c := s.cursor) (.points (hhere (by simp [hmodes])) ?_)
      hbump hlies fun x hx => .inr (hends x hx)⟩
    cases s.hasContent <;> simp [TokenKind.isVerbatim]
  | innerBreak hmodes hrest hbreak =>
    obtain ⟨ends, hbump, hends⟩ := Cursor.passes_bump_break hbreak hrest
    rw [List.append_nil]
    exact ⟨_, .here (by simp [hmodes]),
      (hhere (by simp [hmodes])).blanks hbump hlies fun x hx => .inr (hends x hx)⟩
  | openText hplain hrest =>
    rw [List.append_nil]
    exact ⟨_, .quote hscan hplain hrest rfl rfl, hhere (hplain' hplain)⟩
  | closePlaceholder hmodes hrest =>
    rw [hmodes] at hnested
    cases hnested with
    | placeholder =>
      exact ⟨_, .here (by simp),
        (hhere (by simp [hmodes])).token (Cursor.passes_bump_char rfl hrest) hlies rfl fun _ => by simp⟩
  | pass hplain hread hkind =>
    rw [List.append_nil]
    exact ⟨_, .here (hplain' hplain), (hhere (hplain' hplain)).pass hscan hplain hread hkind⟩
  | word hplain hread =>
    exact ⟨_, .here (hplain' hplain), (hhere (hplain' hplain)).token
      (Cursor.passes_along (Lexeme.read?_plain hread).1) hlies rfl fun _ => String.toList_ofList⟩
  | strange | endInText | endInPlaceholder => cases herror
  | closeText hmodes hstop =>
    rw [hmodes] at hnested
    cases hnested with
    | text _ houter => exact ⟨_, .here fun _ _ => houter _ _ _, h.closeText hfront hscan hmodes hstop⟩
  | openPlaceholder hmodes hstop =>
    obtain ⟨rest, hrest⟩ := TextRun.read_placeholder _ _ _ hstop
    have hstretch := h.stretch hfront hscan hmodes hstop
    rw [← List.append_assoc]
    exact ⟨_, .here (by simp), hstretch.token
      (Cursor.passes_placeholder hrest) hlies rfl fun _ => by simp⟩
  | finish hmodes =>
    refine ⟨_, .here (by simp [hmodes]), (hhere (by simp [hmodes])).points ?_⟩
    simp only [List.forall_mem_append]
    refine ⟨⟨?_, ?_⟩, ?_⟩
    · cases s.hasContent <;> simp [TokenKind.isVerbatim]
    · simp [TokenKind.isVerbatim]
    · simp [Token.endOfFile, TokenKind.isVerbatim]

theorem Scanned.tiles (h : Scanned source tokens errors s) (herrors : errors = []) :
    ∃ front, Front source s front ∧ Tiles source tokens front := by
  induction h with
  | start => exact ⟨_, .here (by simp [ofText]), .start⟩
  | step h hs ih =>
    obtain ⟨rfl, herror⟩ := List.append_eq_nil_iff.1 herrors
    obtain ⟨front, hfront, htiles⟩ := ih rfl
    exact (move_step _).tiles (by simpa using herror) h hfront htiles

theorem tiles_of_lex (h : lex source = .ok tokens) : ∃ c, Tiles source tokens c := by
  obtain ⟨s, hscan, -⟩ := scanned_of_lex h
  obtain ⟨front, -, htiles⟩ := hscan.tiles rfl
  exact ⟨front, htiles⟩

/-- The spans of the tokens of a text without lexical errors are in order, they spell the values of all
tokens but those of strings and of the layout, and outside of them there is nothing but blanks, line breaks,
comments and the quotes next to which a string has no text. -/
theorem spans_lossless {source : String} {tokens : List Token} (h : lex source = .ok tokens) :
    (∀ t ∈ tokens, t.span.start ≤ t.span.stop) ∧
    tokens.IsChain (fun t u => t.span.stop ≤ u.span.start) ∧
    (∀ t ∈ tokens, t.kind ∉ [.string, .newline, .indent, .dedent, .endOfFile] →
      Spells source t.span t.value.toList) ∧
    ∀ before x after, source.toList = before ++ x :: after →
      (∃ t ∈ tokens, Covers source t.span (byteLength before)) ∨ LeftOut source before x := by
  obtain ⟨s, hscan, hfinished⟩ := scanned_of_lex h
  obtain ⟨hrest, hmodes⟩ := hscan.sound.finished hfinished
  obtain ⟨front, hfront, htiles⟩ := hscan.tiles rfl
  obtain rfl := hfront.eq_cursor (by simp [hmodes])
  refine ⟨htiles.start_le_stop, htiles.isChain, fun t ht hkind => htiles.spells t ht ?_, ?_⟩
  · cases hvalue : t.kind <;> simp [TokenKind.isVerbatim, hvalue] at hkind ⊢
  · intro before x after hsource
    refine htiles.lossless hsource ?_
    -- the scan stands at the end of the text
    obtain ⟨passed, shown, earlier, start, hplaced⟩ := hscan.lies
    have hend := hplaced.text
    rw [hrest, List.append_nil] at hend
    have hsize := x.utf8Size_pos
    rw [hplaced.offset, ← hend, hsource, byteLength_append, byteLength_cons]
    omega

def quotedName : String := "say \"#\x7ba\x7d\" # b\n"

def quotedNameTokens : List Token :=
  [⟨.sayWord, "say", ⟨⟨1, 1⟩, ⟨1, 4⟩⟩⟩, ⟨.placeholderStart, "#\x7b", ⟨⟨1, 6⟩, ⟨1, 8⟩⟩⟩,
    ⟨.identifier, "a", ⟨⟨1, 8⟩, ⟨1, 9⟩⟩⟩, ⟨.placeholderEnd, "\x7d", ⟨⟨1, 9⟩, ⟨1, 10⟩⟩⟩,
    ⟨.newline, "\n", .point ⟨1, 15⟩⟩, .endOfFile ⟨2, 1⟩]

theorem spans_lossless_quotedName : lex quotedName = .ok quotedNameTokens ∧
    quotedNameTokens.IsChain (fun t u => t.span.stop ≤ u.span.start) ∧
    Spells quotedName ⟨⟨1, 8⟩, ⟨1, 9⟩⟩ ['a'] ∧ LeftOut quotedName ['s', 'a', 'y', ' '] '"' := by
  have hlex : lex quotedName = .ok quotedNameTokens := by cbv
  obtain ⟨-, hchain, hspells, hlossless⟩ := spans_lossless hlex
  refine ⟨hlex, hchain, ?_, ?_⟩
  · have hname := hspells ⟨.identifier, "a", ⟨⟨1, 8⟩, ⟨1, 9⟩⟩⟩ (by simp [quotedNameTokens]) (by decide)
    rwa [show "a".toList = ['a'] by decide] at hname
  · -- no token covers the first quote, which is byte 4
    have hapart : ∀ t ∈ quotedNameTokens, (byteOffset quotedName t.span.stop).all (· ≤ 4) ∨
        (byteOffset quotedName t.span.start).all (4 < ·) := by decide
    refine (hlossless ['s', 'a', 'y', ' '] '"' ['#', '{', 'a', '}', '"', ' ', '#', ' ', 'b', '\n']
      (by decide)).resolve_left ?_
    rintro ⟨t, ht, first, last, hfirst, hlast, hle, hlt⟩
    rw [show byteLength ['s', 'a', 'y', ' '] = 4 from rfl] at hle hlt
    rcases hapart t ht with h | h
    · simp only [hlast, Option.all_some, decide_eq_true_eq] at h
      omega
    · simp only [hfirst, Option.all_some, decide_eq_true_eq] at h
      omega

end Scanner

end DialogueScript
