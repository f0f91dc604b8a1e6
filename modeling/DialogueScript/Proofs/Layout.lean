import Mathlib
import DialogueScript.Proofs.ScanSteps

namespace DialogueScript

/-- Read from the left, `ks` never has more of `closing` than of `opening`, and at its end `depth` of
those that it opened are still open. -/
structure Nests (opening closing : TokenKind) (ks : List TokenKind) (depth : Nat) : Prop where
  never_below : ∀ p, p <+: ks → p.count closing ≤ p.count opening
  count_eq : ks.count opening = ks.count closing + depth

namespace Nests

variable {opening closing : TokenKind} {ks more : List TokenKind} {depth : Nat}

theorem nil (opening closing : TokenKind) : Nests opening closing [] 0 := by
  refine ⟨fun p hp => ?_, rfl⟩
  rw [List.prefix_nil.1 hp]
  exact Nat.le_refl 0

theorem append (h : Nests opening closing ks depth) {left : Nat} (hclosing : more.count closing ≤ depth)
    (hcount : depth + more.count opening = more.count closing + left) :
    Nests opening closing (ks ++ more) left := by
  have hopen := h.count_eq
  refine ⟨fun p hp => ?_, ?_⟩
  · rcases List.prefix_or_prefix_of_prefix hp (List.prefix_append ks more) with hshort | ⟨q, rfl⟩
    · exact h.never_below p hshort
    · have hq := ((List.prefix_append_right_inj ks).1 hp).sublist.count_le closing
      rw [List.count_append, List.count_append]
      omega
  · rw [List.count_append, List.count_append]
    omega

theorem append_others (h : Nests opening closing ks depth)
    (hmore : ∀ k ∈ more, k ≠ opening ∧ k ≠ closing) : Nests opening closing (ks ++ more) depth := by
  have hopening : more.count opening = 0 := List.count_eq_zero.2 fun hk => (hmore _ hk).1 rfl
  have hclosing : more.count closing = 0 := List.count_eq_zero.2 fun hk => (hmore _ hk).2 rfl
  exact h.append (by omega) (by omega)

theorem append_opening (h : Nests opening closing ks depth) (hne : opening ≠ closing) :
    Nests opening closing (ks ++ [opening]) (depth + 1) := by
  have hopening : [opening].count opening = 1 := List.count_singleton_self
  have hclosing : [opening].count closing = 0 := by simp [hne]
  exact h.append (by omega) (by omega)

theorem append_closing (h : Nests opening closing ks depth) (hne : opening ≠ closing) {n : Nat}
    (hn : n ≤ depth) : Nests opening closing (ks ++ List.replicate n closing) (depth - n) := by
  have hopening : (List.replicate n closing).count opening = 0 := by
    simp [List.count_replicate, Ne.symm hne]
  have hclosing : (List.replicate n closing).count closing = n := List.count_replicate_self
  exact h.append (by omega) (by omega)

end Nests

/-- What the margin of a line makes: nothing, or the start of one block, or the ends of some. -/
inductive IsMargin : List TokenKind → Prop
  | level : IsMargin []
  | deeper : IsMargin [.indent]
  | back (n : Nat) : IsMargin (List.replicate (n + 1) .dedent)

theorem isMargin_dedents : ∀ n : Nat, IsMargin (List.replicate n .dedent)
  | 0 => .level
  | n + 1 => .back n

theorem kinds_dedents (levels : List Nat) (p : Position) :
    (levels.map fun _ => Token.mk .dedent "" (.point p)).map Token.kind =
      List.replicate levels.length .dedent := by
  rw [List.map_map]
  exact List.map_const' ..

theorem length_closed_add_kept (levels : List Nat) (width : Nat) :
    (levels.takeWhile (width < ·)).length + (levels.dropWhile (width < ·)).length = levels.length := by
  rw [← List.length_append, List.takeWhile_append_dropWhile]

structure KindLine where
  margin : List TokenKind
  content : List TokenKind
  isMargin : IsMargin margin
  content_ne_nil : content ≠ []
  isContent : ∀ k ∈ content, k.isContent = true
  nests : Nests .placeholderStart .placeholderEnd content 0

def KindLine.kinds (line : KindLine) : List TokenKind := line.margin ++ line.content ++ [.newline]

/-- The kinds of tokens that a whole text has: lines, the ends of the blocks that are still open, and
the end of the file. Blocks nest. -/
structure LaidOut (ks : List TokenKind) : Prop where
  lines : ∃ (lines : List KindLine) (n : Nat),
    ks = lines.flatMap KindLine.kinds ++ List.replicate n .dedent ++ [.endOfFile]
  nests : Nests .indent .dedent ks 0

def openPlaceholders : List Mode → Nat
  | [] => 0
  | .text _ _ :: modes => openPlaceholders modes
  | .placeholder _ :: modes => openPlaceholders modes + 1

namespace Scanner

/-- What is ahead is no blank, no comment and no line break. -/
def WordAhead (s : Scanner) : Prop :=
  ∃ c rest, s.cursor.rest = c :: rest ∧ c ≠ '#' ∧ isBreak c = false ∧ Lexeme.isIndentChar c = false

/-- Nothing is made of the line behind its margin yet. What comes first is still ahead, or it is a string
of which the first stretch is still ahead; a margin is only made where something follows. -/
def Untouched (s : Scanner) (margin : List TokenKind) : Prop :=
  (s.modes = [] ∧ (margin ≠ [] → s.WordAhead)) ∨ ∃ quote, s.modes = [.text quote false]

/-- The scan has made `lines`, and of the next line the margin and the content so far. -/
structure Midway (s : Scanner) (ks : List TokenKind) (lines : List KindLine)
    (margin content : List TokenKind) : Prop where
  kinds : ks = lines.flatMap KindLine.kinds ++ margin ++ content
  isMargin : IsMargin margin
  isContent : ∀ k ∈ content, k.isContent = true
  nests : Nests .placeholderStart .placeholderEnd content (openPlaceholders s.modes)
  levels : Nests .indent .dedent ks s.levels.length
  hasContent : s.hasContent = true ↔ content ≠ []
  lineStart : s.atLineStart = true → margin = [] ∧ content = [] ∧ s.modes = []
  untouched : content = [] → s.Untouched margin

variable {s : Scanner} {ks : List TokenKind} {lines : List KindLine} {margin content : List TokenKind}

theorem untouched_of_modes (hmodes : s.modes = []) : s.Untouched [] :=
  .inl ⟨hmodes, fun hne => absurd rfl hne⟩

theorem midway_nil (hkinds : ks = lines.flatMap KindLine.kinds) (hmodes : s.modes = [])
    (hlevels : Nests .indent .dedent ks s.levels.length) (hcontent : s.hasContent = false) :
    s.Midway ks lines [] [] where
  kinds := by rw [List.append_nil, List.append_nil, hkinds]
  isMargin := .level
  isContent := List.forall_mem_nil _
  nests := hmodes ▸ .nil _ _
  levels := hlevels
  hasContent := by simp [hcontent]
  lineStart := fun _ => ⟨rfl, rfl, hmodes⟩
  untouched := fun _ => untouched_of_modes hmodes

namespace Midway

theorem atLineStart_of_modes (h : s.Midway ks lines margin content) (hmodes : s.modes ≠ []) :
    s.atLineStart = false := by
  by_contra hline
  exact hmodes (h.lineStart (by simpa using hline)).2.2

theorem atLineStart_of_plain (h : s.Midway ks lines margin content) (hplain : s.Plain) :
    s.atLineStart = false := by
  rcases hplain with ⟨-, hline⟩ | ⟨opening, modes, hmodes⟩
  · exact hline
  · exact h.atLineStart_of_modes (by simp [hmodes])

theorem content_ne_nil (h : s.Midway ks lines margin content) {opening : Position} {modes : List Mode}
    (hmodes : s.modes = .placeholder opening :: modes) : content ≠ [] := by
  intro hnil
  rcases h.untouched hnil with ⟨hempty, -⟩ | ⟨quote, htext⟩
  · simp [hempty] at hmodes
  · simp [htext] at hmodes

theorem untouched_of_plain (h : s.Midway ks lines margin content) (hplain : s.Plain) (hnil : content = []) :
    s.modes = [] ∧ (margin ≠ [] → s.WordAhead) := by
  rcases h.untouched hnil with hfirst | ⟨quote, htext⟩
  · exact hfirst
  · rcases hplain with ⟨hmodes, -⟩ | ⟨opening, modes, hmodes⟩
    · simp [hmodes] at htext
    · simp [hmodes] at htext

theorem emitted_of_nil (h : s.Midway ks lines margin content) {quote : Position} {emitted : Bool}
    {modes : List Mode} (hmodes : s.modes = .text quote emitted :: modes) (hnil : content = []) :
    emitted = false := by
  rcases h.untouched hnil with ⟨hempty, -⟩ | ⟨quote', htext⟩
  · simp [hempty] at hmodes
  · rw [hmodes] at htext
    cases htext
    rfl

theorem keep (h : s.Midway ks lines margin content) {s' : Scanner}
    (hdepth : openPlaceholders s'.modes = openPlaceholders s.modes) (hlevels : s'.levels = s.levels) (hcontent : s'.hasContent = s.hasContent)
    (hline : s'.atLineStart = true → margin = [] ∧ content = [] ∧ s'.modes = [])
    (huntouched : content = [] → s'.Untouched margin) : s'.Midway ks lines margin content where
  kinds := h.kinds
  isMargin := h.isMargin
  isContent := h.isContent
  nests := hdepth ▸ h.nests
  levels := hlevels ▸ h.levels
  hasContent := hcontent ▸ h.hasContent
  lineStart := hline
  untouched := huntouched

theorem begin (h : s.Midway ks lines [] []) (hmodes : s.modes = []) {s' : Scanner} {more : List TokenKind}
    (hmore : IsMargin more) (hmodes' : s'.modes = s.modes) (hcontent : s'.hasContent = s.hasContent)
    (hline : s'.atLineStart = false) (hlevels : Nests .indent .dedent (ks ++ more) s'.levels.length)
    (hfirst : s'.WordAhead) : s'.Midway (ks ++ more) lines more [] where
  kinds := by simp [h.kinds]
  isMargin := hmore
  isContent := h.isContent
  nests := hmodes' ▸ h.nests
  levels := hlevels
  hasContent := hcontent ▸ h.hasContent
  lineStart := fun h => absurd h (by simp [hline])
  untouched := fun _ => .inl ⟨hmodes'.trans hmodes, fun _ => hfirst⟩

theorem add (h : s.Midway ks lines margin content) {s' : Scanner} {more : List TokenKind}
    (hne : more ≠ []) (hmore : ∀ k ∈ more, k.isContent = true)
    (hnests : Nests .placeholderStart .placeholderEnd (content ++ more) (openPlaceholders s'.modes))
    (hlevels : s'.levels = s.levels) (hcontent : s'.hasContent = true) (hline : s'.atLineStart = false) :
    s'.Midway (ks ++ more) lines margin (content ++ more) where
  kinds := by rw [h.kinds, List.append_assoc _ content]
  isMargin := h.isMargin
  isContent := List.forall_mem_append.2 ⟨h.isContent, hmore⟩
  nests := hnests
  levels := by
    rw [hlevels]
    refine h.levels.append_others fun k hk => ?_
    have hk := hmore k hk
    constructor <;> rintro rfl <;> cases hk
  hasContent := by simp [hcontent, hne]
  lineStart := fun h => absurd h (by simp [hline])
  untouched := fun h => absurd h (by simp [hne])

theorem close (h : s.Midway ks lines margin content) (hmodes : s.modes = [])
    (hstop : ∀ c ∈ s.cursor.rest.head?, isBreak c = true) :
    ∃ lines' : List KindLine,
      ks ++ (if s.hasContent then [.newline] else []) = lines'.flatMap KindLine.kinds := by
  by_cases hcontent : content = []
  · have hhas : s.hasContent = false := by
      by_contra hhas
      exact h.hasContent.1 (by simpa using hhas) hcontent
    have hmargin : margin = [] := by
      by_contra hmargin
      rcases h.untouched hcontent with ⟨-, hfirst⟩ | ⟨quote, htext⟩
      · obtain ⟨c, rest, hrest, -, hbreak, -⟩ := hfirst hmargin
        exact Bool.false_ne_true (hbreak.symm.trans (hstop c (by simp [hrest])))
      · simp [htext] at hmodes
    refine ⟨lines, ?_⟩
    simp [h.kinds, hhas, hmargin, hcontent]
  · have hhas := h.hasContent.2 hcontent
    have hnests := h.nests
    rw [hmodes, openPlaceholders] at hnests
    refine ⟨lines ++ [⟨margin, content, h.isMargin, hcontent, h.isContent, hnests⟩], ?_⟩
    simp [h.kinds, hhas, KindLine.kinds]

theorem levels_close (h : s.Midway ks lines margin content) (more : Bool) :
    Nests .indent .dedent (ks ++ if more then [.newline] else []) s.levels.length := by
  refine h.levels.append_others fun k hk => ?_
  cases more with
  | false => cases hk
  | true =>
    obtain rfl := List.mem_singleton.1 hk
    decide

end Midway

theorem not_wordAhead_of_pass {lexeme : Lexeme} (hread : Lexeme.read? s.cursor.rest = some lexeme)
    (hkind : lexeme.kind = none) : ¬ s.WordAhead := by
  rintro ⟨c, rest, hrest, hcomment, -, hblank⟩
  cases Lexeme.reads_of_read? hread with
  | word | numeral | mark => cases hkind
  | blanks htext hc =>
    obtain ⟨rfl, -⟩ := List.cons.inj (hrest.symm.trans htext)
    exact Bool.false_ne_true (hblank.symm.trans hc)
  | comment htext => exact hcomment (List.cons.inj (hrest.symm.trans htext)).1

/-- A margin begins a line, with the blocks that it opens or closes. -/
theorem Indents.midway {start : Position} {width : Nat} {step : Step}
    (hstep : Indents s.indented start width step) (herror : step.error = none)
    (hfirst : s.indented.WordAhead) (hmodes : s.modes = []) (h : s.Midway ks lines [] []) :
    ∃ margin, step.next.Midway (ks ++ step.tokens.map Token.kind) lines margin [] := by
  cases hstep with
  | refuse | between => cases herror
  | deeper =>
    exact ⟨_, h.begin hmodes .deeper rfl rfl rfl (h.levels.append_opening (by decide)) hfirst⟩
  | back =>
    have hsplit := length_closed_add_kept s.levels width
    have hlevels := h.levels.append_closing (by decide) (Nat.le.intro hsplit)
    rw [← hsplit, Nat.add_sub_cancel_left] at hlevels
    rw [kinds_dedents]
    exact ⟨_, h.begin hmodes (isMargin_dedents _) rfl rfl rfl hlevels hfirst⟩

/-- Every step without an error but the last keeps to the layout. -/
theorem Move.midway {step : Step} (hmove : Move s step) (herror : step.error = none)
    (hfinished : step.next.finished = false) (h : s.Midway ks lines margin content) :
    ∃ lines margin content,
      step.next.Midway (ks ++ step.tokens.map Token.kind) lines margin content := by
  have hkeep : ∀ {s' : Scanner}, s'.Midway ks lines margin content →
      ∃ lines margin content, s'.Midway (ks ++ [].map Token.kind) lines margin content := by
    intro s' h
    exact ⟨lines, margin, content, by rwa [List.map_nil, List.append_nil]⟩
  cases hmove with
  | idle hmodes hline =>
    obtain ⟨rfl, rfl, -⟩ := h.lineStart hline
    exact hkeep (h.keep rfl rfl rfl (fun hline => Bool.noConfusion hline) fun _ => untouched_of_modes hmodes)
  | blank hmodes hline =>
    obtain ⟨rfl, rfl, -⟩ := h.lineStart hline
    exact hkeep (h.keep rfl rfl rfl (fun _ => ⟨rfl, rfl, hmodes⟩) fun _ => untouched_of_modes hmodes)
  | margin hmodes hline hrest hcomment hbreak hblank hstep =>
    obtain ⟨rfl, rfl, -⟩ := h.lineStart hline
    obtain ⟨margin, hnext⟩ := hstep.midway herror ⟨_, _, hrest, hcomment, hbreak, hblank⟩ hmodes h
    exact ⟨lines, margin, [], hnext⟩
  | lineEnd hmodes _ hrest hbreak =>
    obtain ⟨lines', hlines⟩ := h.close hmodes (by simpa [hrest] using hbreak)
    rw [apply_ite (List.map Token.kind)]
    exact ⟨lines', [], [], midway_nil hlines hmodes (h.levels_close s.hasContent) rfl⟩
  | innerBreak hmodes =>
    exact hkeep (h.keep rfl rfl rfl h.lineStart fun hnil => absurd hnil (h.content_ne_nil hmodes))
  | openText hplain =>
    refine hkeep (h.keep rfl rfl rfl ?_ fun hnil => ?_)
    · exact fun hline => absurd hline (by simp [h.atLineStart_of_plain hplain])
    · rw [(h.untouched_of_plain hplain hnil).1]
      exact .inr ⟨_, rfl⟩
  | closePlaceholder hmodes =>
    have hnests := h.nests
    rw [hmodes] at hnests
    exact ⟨lines, margin, _, h.add (List.cons_ne_nil _ _) (by simp [TokenKind.isContent])
      (hnests.append_closing (by decide) (Nat.le_add_left 1 _)) rfl rfl
      (h.atLineStart_of_modes (by simp [hmodes]))⟩
  | pass hplain hread hkind =>
    refine hkeep (h.keep rfl rfl rfl h.lineStart fun hnil => ?_)
    obtain ⟨hmodes, hfirst⟩ := h.untouched_of_plain hplain hnil
    exact .inl ⟨hmodes, fun hmargin => absurd (hfirst hmargin) (not_wordAhead_of_pass hread hkind)⟩
  | word hplain hread hkind =>
    obtain ⟨hcontent, hstart, hend⟩ := kind_of_read? hread hkind
    exact ⟨lines, margin, _, h.add (List.cons_ne_nil _ _) (by simpa using hcontent)
      (h.nests.append_others (by simpa using ⟨hstart, hend⟩)) rfl rfl (h.atLineStart_of_plain hplain)⟩
  | @closeText quote emitted modes hmodes =>
    have hline := h.atLineStart_of_modes (by simp [hmodes])
    cases hsilent : s.stretch.text.isEmpty && emitted with
    | true =>
      refine hkeep (h.keep (by rw [hmodes, openPlaceholders]) rfl (by simp) ?_ fun hnil => ?_)
      · exact fun hline' => absurd hline' (by simp [hline])
      · simp [h.emitted_of_nil hmodes hnil] at hsilent
    | false =>
      have hnests := h.nests
      rw [hmodes] at hnests
      exact ⟨lines, margin, _, h.add (List.cons_ne_nil _ _) (by simp [TokenKind.isContent])
        (hnests.append_others (by simp)) rfl (by simp) hline⟩
  | openPlaceholder hmodes =>
    have hnests := h.nests
    rw [hmodes] at hnests
    rw [List.map_append, apply_ite (List.map Token.kind)]
    refine ⟨lines, margin, _, h.add (by simp) ?_ ?_ rfl rfl (h.atLineStart_of_modes (by simp [hmodes]))⟩
    · cases s.stretch.text.isEmpty <;> simp [TokenKind.isContent]
    · rw [← List.append_assoc]
      refine (hnests.append_others ?_).append_opening (by decide)
      cases s.stretch.text.isEmpty <;> simp
  | strange | endInText | endInPlaceholder => cases herror
  | finish => cases hfinished

/-- The last step ends the open line and the open blocks. -/
theorem Move.laidOut {step : Step} (hmove : Move s step) (hs : s.finished = false)
    (hfinished : step.next.finished = true) (h : s.Midway ks lines margin content) :
    LaidOut (ks ++ step.tokens.map Token.kind) := by
  cases hmove with
  | finish hmodes _ hrest =>
    obtain ⟨lines', hlines⟩ := h.close hmodes (by simp [hrest])
    have hclosed := (h.levels_close s.hasContent).append_closing (by decide) (Nat.le_refl _)
    have hlevels := hclosed.append_others (List.forall_mem_singleton.2
      (by decide : TokenKind.endOfFile ≠ .indent ∧ TokenKind.endOfFile ≠ .dedent))
    rw [Nat.sub_self] at hlevels
    rw [List.map_append, List.map_append, apply_ite (List.map Token.kind), kinds_dedents, ← List.append_assoc,
      ← List.append_assoc]
    exact ⟨⟨lines', s.levels.length, by rw [← hlines]; rfl⟩, hlevels⟩
  | margin _ _ _ _ _ _ hstep => cases hstep <;> exact absurd (hs.symm.trans hfinished) Bool.false_ne_true
  | _ => exact absurd (hs.symm.trans hfinished) Bool.false_ne_true

theorem Scanned.midway {source : String} {tokens : List Token} {errors : List ScriptError}
    (h : Scanned source tokens errors s) (herrors : errors = []) :
    (s.finished = false → ∃ lines margin content, s.Midway (tokens.map Token.kind) lines margin content) ∧
      (s.finished = true → LaidOut (tokens.map Token.kind)) := by
  induction h with
  | start => exact ⟨fun _ => ⟨[], [], [], midway_nil rfl rfl (.nil _ _) rfl⟩, fun h => Bool.noConfusion h⟩
  | @step tokens errors s h hs ih =>
    obtain ⟨herrors, herror⟩ := List.append_eq_nil_iff.1 herrors
    obtain ⟨lines, margin, content, hmidway⟩ := (ih herrors).1 hs
    rw [List.map_append]
    exact ⟨fun hnext => (move_step s).midway (by simpa using herror) hnext hmidway,
      fun hnext => (move_step s).laidOut hs hnext hmidway⟩

end Scanner

/-- The tokens of every text without lexical errors are laid out in lines. -/
theorem laidOut_of_lex {source : String} {tokens : List Token} (h : lex source = .ok tokens) :
    LaidOut (tokens.map Token.kind) ∧ Terminated tokens := by
  obtain ⟨s, hs, hfinished⟩ := Scanner.scanned_of_lex h
  exact ⟨(hs.midway rfl).2 hfinished, terminated_of_lex h⟩

/-- A line, and in a deeper block a string with a placeholder that goes over two lines. -/
def brokenString : String := "say \"a\"\n  say \"#\x7bx\n\x7d\""

theorem laidOut_brokenString : ∃ tokens, lex brokenString = .ok tokens ∧
    tokens.map Token.kind = [.sayWord, .string, .newline, .indent, .sayWord, .placeholderStart, .identifier,
      .placeholderEnd, .newline, .dedent, .endOfFile] ∧
    LaidOut (tokens.map Token.kind) ∧ Terminated tokens := by
  have h : lex brokenString = .ok
      [⟨.sayWord, "say", ⟨⟨1, 1⟩, ⟨1, 4⟩⟩⟩, ⟨.string, "a", ⟨⟨1, 5⟩, ⟨1, 8⟩⟩⟩, ⟨.newline, "\n", .point ⟨1, 8⟩⟩,
        ⟨.indent, "2", ⟨⟨2, 1⟩, ⟨2, 3⟩⟩⟩, ⟨.sayWord, "say", ⟨⟨2, 3⟩, ⟨2, 6⟩⟩⟩,
        ⟨.placeholderStart, "#\x7b", ⟨⟨2, 8⟩, ⟨2, 10⟩⟩⟩, ⟨.identifier, "x", ⟨⟨2, 10⟩, ⟨2, 11⟩⟩⟩,
        ⟨.placeholderEnd, "\x7d", ⟨⟨3, 1⟩, ⟨3, 2⟩⟩⟩, ⟨.newline, "\n", .point ⟨3, 3⟩⟩,
        ⟨.dedent, "", .point ⟨3, 3⟩⟩, .endOfFile ⟨3, 3⟩] := by cbv
  exact ⟨_, h, rfl, laidOut_of_lex h⟩

end DialogueScript
