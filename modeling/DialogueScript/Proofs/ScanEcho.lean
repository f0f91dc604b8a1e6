import DialogueScript.Check
import DialogueScript.Proofs.SameLines

namespace DialogueScript

variable {more : List Char} {k : Nat}

/-- The same scanner at another place, with all that is open `k` lines further down. -/
def Scanner.echo (k : Nat) (c : Cursor) (s : Scanner) : Scanner :=
  { s with cursor := c, modes := s.modes.map (Mode.down k) }

namespace Scanner

variable (k : Nat) (c : Cursor) (s : Scanner)

@[simp] theorem echo_cursor : (s.echo k c).cursor = c := rfl

@[simp] theorem echo_atLineStart : (s.echo k c).atLineStart = s.atLineStart := rfl

@[simp] theorem echo_hasContent : (s.echo k c).hasContent = s.hasContent := rfl

@[simp] theorem echo_modes : (s.echo k c).modes = s.modes.map (Mode.down k) := rfl

end Scanner

/-- The second step has the outcome of the first, `k` lines further down. -/
structure Step.Echo (more : List Char) (k : Nat) (step step' : Step) : Prop where
  tokens : step'.tokens = step.tokens.map (Token.down k)
  error : step'.error = step.error.map (ScriptError.down k)
  next : ∃ c, step.next.cursor.Echo more k c ∧ step'.next = step.next.echo k c

section Steps

variable {s : Scanner} {c : Cursor}

theorem Step.echo_silent (h : s.cursor.Echo more k c) : Echo more k (silent s) (silent (s.echo k c)) :=
  ⟨rfl, rfl, c, h, rfl⟩

theorem any_isContent_down (k : Nat) (tokens : List Token) :
    (tokens.map (Token.down k)).any (·.kind.isContent) = tokens.any (·.kind.isContent) := by
  rw [List.any_map]
  rfl

theorem Step.echo_emit (h : s.cursor.Echo more k c) (tokens : List Token) :
    Echo more k (emit tokens s) (emit (tokens.map (Token.down k)) (s.echo k c)) := by
  rw [emit_eq, emit_eq, any_isContent_down]
  exact ⟨rfl, rfl, c, h, rfl⟩

theorem Step.echo_fail (h : s.cursor.Echo more k c) (tokens : List Token) (cause : ErrorCause) (p : Position) :
    Echo more k (fail tokens cause p s) (fail (tokens.map (Token.down k)) cause (p.down k) (s.echo k c)) := by
  rw [fail_eq, fail_eq, any_isContent_down]
  exact ⟨rfl, rfl, c, h, rfl⟩

theorem dedents_down (k : Nat) (p : Position) (levels : List Nat) :
    (levels.map fun _ => Token.mk .dedent "" (.point (p.down k))) =
      (levels.map fun _ => Token.mk .dedent "" (.point p)).map (Token.down k) := by
  rw [List.map_map]
  rfl

theorem lineEnd_down (k : Nat) (p : Position) (content : Bool) :
    (if content then [Token.mk .newline "\n" (.point (p.down k))] else []) =
      (if content then [Token.mk .newline "\n" (.point p)] else []).map (Token.down k) := by
  cases content <;> rfl

namespace Scanner

theorem changeLevel_echo (h : s.cursor.Echo more k c) (start : Position) (width : Nat) :
    Step.Echo more k (s.changeLevel start width) ((s.echo k c).changeLevel (start.down k) width) := by
  unfold echo changeLevel
  dsimp only
  rw [h.position, dedents_down]
  split
  · exact Step.echo_emit (s := { s with levels := width :: s.levels }) h _
  · split
    · exact Step.echo_emit (s := { s with levels := s.levels.dropWhile (width < ·) }) h _
    · exact Step.echo_fail (s := { s with levels := width :: s.levels.dropWhile (width < ·) }) h _ _ _

theorem indentTo_echo (h : s.cursor.Echo more k c) (start : Position) (run : List Char) :
    Step.Echo more k (s.indentTo start run) ((s.echo k c).indentTo (start.down k) run) := by
  unfold echo indentTo
  dsimp only
  split
  · exact Step.echo_fail h _ _ _
  · split
    · exact changeLevel_echo h start 0
    · split
      · exact changeLevel_echo (s := { s with style := some (.ofRun run) }) h start run.length
      · exact Step.echo_fail h _ _ _

theorem scanIndentation_eq (s : Scanner) : s.scanIndentation = match s.behindMargin.rest with
    | [] => .silent s.indented
    | c :: _ =>
      if c = '#' then .silent s.indented
      else if isBreak c then .silent { s with cursor := s.behindMargin.bump, atLineStart := true }
      else s.indented.indentTo s.cursor.position s.margin := rfl

theorem margin_echo (h : s.cursor.Echo more k c) (hwhole : Whole more s.cursor.rest) :
    (s.echo k c).margin = s.margin ∧ s.behindMargin.Echo more k (s.echo k c).behindMargin ∧
      (s.behindMargin.rest = [] → more = []) := by
  obtain ⟨line, a, b, ha, hb, -, hhead, hhead'⟩ := h.rest.exists_line hwhole
  have hblank : Lexeme.isIndentChar '\n' = false ∧ Lexeme.isIndentChar '\r' = false := by decide
  have hmargin : (s.echo k c).margin = s.margin := by
    rw [margin, margin, echo_cursor, ha, hb, (takeWhile_line hhead hblank).1, (takeWhile_line hhead' hblank).1]
  refine ⟨hmargin, ?_, fun hrest => hwhole.resolve_right fun hlast => ?_⟩
  · rw [behindMargin, behindMargin, hmargin]
    exact h.along (List.takeWhile_prefix _) fun _ hx => Lexeme.not_isBreak_of hblank (List.mem_takeWhile_imp hx)
  · have hall := s.passes_behindMargin.rest
    rw [hrest, List.append_nil] at hall
    rw [hall] at hlast
    exact Bool.noConfusion (hblank.1.symm.trans (List.mem_takeWhile_imp (List.mem_of_getLast? hlast)))

theorem scanIndentation_echo (h : s.cursor.Echo more k c) (hwhole : Whole more s.cursor.rest) :
    Step.Echo more k s.scanIndentation (s.echo k c).scanIndentation := by
  obtain ⟨hmargin, hbehind, hnil⟩ := margin_echo h hwhole
  rw [scanIndentation_eq, scanIndentation_eq, hmargin]
  cases hrest : s.behindMargin.rest with
  | nil =>
    obtain rfl := hnil hrest
    rw [hbehind.rest.eq_more hrest]
    exact Step.echo_silent (s := s.indented) hbehind
  | cons x rest =>
    have hlines := hbehind.rest
    rw [hrest] at hlines
    obtain ⟨y, rest', hrest', hxy⟩ := hlines.head
    rw [hrest']
    dsimp only
    rcases hxy with ⟨rfl, hplain⟩ | ⟨hx, hy⟩
    · rw [hplain]
      split
      · exact Step.echo_silent (s := s.indented) hbehind
      · rw [echo_cursor, h.position]
        exact indentTo_echo (s := s.indented) hbehind s.cursor.position s.margin
    · have hcomment : ∀ {z : Char}, isBreak z = true → z ≠ '#' := by
        rintro z hz rfl
        cases hz
      rw [if_neg (hcomment hx), if_neg (hcomment hy), if_pos hx, if_pos hy]
      exact Step.echo_silent (s := { s with cursor := s.behindMargin.bump, atLineStart := true })
        (hbehind.bump (by simp [hrest]))

theorem finish_echo (h : s.cursor.Echo more k c) : Step.Echo more k s.finish (s.echo k c).finish := by
  have hopening : (s.modes.map (Mode.down k)).reverse.findSome? Mode.opening? =
      (s.modes.reverse.findSome? Mode.opening?).map (Position.down k) := by
    rw [← List.map_reverse, List.findSome?_map, List.map_findSome?]
    congr 1
    funext mode
    cases mode <;> rfl
  have hend : [Token.endOfFile (s.cursor.position.down k)] =
      [Token.endOfFile s.cursor.position].map (Token.down k) := rfl
  unfold echo finish
  dsimp only
  rw [hopening]
  cases s.modes.reverse.findSome? Mode.opening? with
  | some opening => exact Step.echo_fail (s := { s with modes := [] }) h [] _ opening
  | none =>
    dsimp only [Option.map_none]
    rw [h.position, lineEnd_down, dedents_down, hend, ← List.map_append, ← List.map_append]
    exact Step.echo_emit (s := { s with hasContent := false, levels := [], finished := true }) h _

theorem inPlaceholder_echo (k : Nat) (c : Cursor) (s : Scanner) :
    (s.echo k c).inPlaceholder = s.inPlaceholder := by
  unfold echo inPlaceholder
  dsimp only
  cases s.modes with
  | nil => rfl
  | cons mode modes => cases mode <;> rfl

theorem scanLexeme_echo (h : s.cursor.Echo more k c) (hwhole : Whole more s.cursor.rest) {x : Char}
    {rest : List Char} (hrest : s.cursor.rest = x :: rest) (hx : isBreak x = false) :
    Step.Echo more k (s.scanLexeme x) ((s.echo k c).scanLexeme x) := by
  obtain ⟨line, a, b, ha, hb, -, hhead, hhead'⟩ := h.rest.exists_line hwhole
  have hline : line ≠ [] := by
    rintro rfl
    rw [List.nil_append] at ha
    exact Bool.noConfusion (hx.symm.trans (hhead x (by rw [← ha, hrest]; rfl)))
  have hread : Lexeme.read? c.rest = Lexeme.read? s.cursor.rest := by
    rw [ha, hb, Lexeme.read?_line hline hhead, Lexeme.read?_line hline hhead']
  unfold echo scanLexeme
  dsimp only
  rw [hread, h.position]
  cases hlexeme : Lexeme.read? s.cursor.rest with
  | none => exact Step.echo_fail (s := { s with cursor := s.cursor.bump }) (h.bump (by simp [hrest])) [] _ _
  | some lexeme =>
    obtain ⟨hfirst, hplain⟩ := Lexeme.read?_plain hlexeme
    have halong := h.along hfirst hplain
    dsimp only
    rw [halong.position]
    cases lexeme.kind with
    | none => exact Step.echo_silent (s := { s with cursor := s.cursor.along lexeme.text.length }) halong
    | some kind =>
      exact Step.echo_emit (s := { s with cursor := s.cursor.along lexeme.text.length }) halong
        [⟨kind, String.ofList lexeme.text, ⟨s.cursor.position, (s.cursor.along lexeme.text.length).position⟩⟩]

theorem scanPlain_echo (h : s.cursor.Echo more k c) (hwhole : Whole more s.cursor.rest) :
    Step.Echo more k s.scanPlain (s.echo k c).scanPlain := by
  cases hrest : s.cursor.rest with
  | nil =>
    obtain rfl := (hrest ▸ hwhole).eq_nil
    unfold scanPlain
    rw [hrest, echo_cursor, h.rest.eq_more hrest]
    exact finish_echo h
  | cons x rest =>
    have hlines := h.rest
    rw [hrest] at hlines
    obtain ⟨y, rest', hrest', hxy⟩ := hlines.head
    have hbump := h.bump (by simp [hrest])
    unfold scanPlain
    rw [hrest, echo_cursor, hrest', inPlaceholder_echo]
    dsimp only
    rcases hxy with ⟨rfl, hplain⟩ | ⟨hx, hy⟩
    · rw [hplain, if_neg Bool.false_ne_true, if_neg Bool.false_ne_true]
      split
      · rw [h.position]
        exact Step.echo_silent
          (s := { s with cursor := s.cursor.bump, modes := .text s.cursor.position false :: s.modes }) hbump
      · split
        · rw [hbump.position, h.position, echo_modes, ← List.map_tail]
          exact Step.echo_emit (s := { s with cursor := s.cursor.bump, modes := s.modes.tail }) hbump
            [⟨.placeholderEnd, "\x7d", ⟨s.cursor.position, s.cursor.bump.position⟩⟩]
        · exact scanLexeme_echo h hwhole hrest hplain
    · rw [if_pos hx, if_pos hy]
      split
      · exact Step.echo_silent (s := { s with cursor := s.cursor.bump }) hbump
      · rw [h.position, echo_hasContent, lineEnd_down]
        exact Step.echo_emit
          (s := { s with cursor := s.cursor.bump, hasContent := false, atLineStart := true }) hbump _

theorem scanText_echo (h : s.cursor.Echo more k c) (quote : Position) (emitted : Bool)
    (hwhole : more = [] ∨ (s.scanText quote emitted).error = none) :
    Step.Echo more k (s.scanText quote emitted) ((s.echo k c).scanText (quote.down k) emitted) := by
  have hstretch : TextRun.read s.cursor.offset s.cursor.position s.cursor.rest = s.stretch := rfl
  have hstop : more = [] ∨ s.stretch.stop ≠ .endOfFile := by
    refine hwhole.imp_right fun herror hstop => ?_
    unfold scanText at herror
    dsimp only at herror
    rw [hstretch, hstop] at herror
    cases herror
  have hread : s.stretch.Echo more k (TextRun.read c.offset (s.cursor.position.down k) c.rest) :=
    TextRun.read_echo h.rest hstop c.offset
  have hstart : (if emitted then c.position else quote.down k) =
      (if emitted then s.cursor.position else quote).down k := by
    cases emitted
    · rfl
    · exact h.position
  unfold echo scanText
  dsimp only
  rw [hstart, h.position, hstretch, hread.stop, hread.text, hread.cursor.position, ← List.map_tail]
  cases hkind : s.stretch.stop with
  | endOfFile =>
    exact Step.echo_fail (s := { s with cursor := s.stretch.cursor, modes := [] }) hread.cursor [] _ quote
  | quote =>
    obtain ⟨rest, hrest⟩ : ∃ rest, s.stretch.cursor.rest = '"' :: rest := TextRun.read_quote _ _ _ hkind
    have hbump := hread.cursor.bump (by simp [hrest])
    dsimp only
    rw [hbump.position]
    have hemit := Step.echo_emit (s := { s with cursor := s.stretch.cursor.bump, modes := s.modes.tail }) hbump
    cases s.stretch.text.isEmpty && emitted with
    | false => exact hemit [⟨.string, String.ofList s.stretch.text, ⟨_, s.stretch.cursor.bump.position⟩⟩]
    | true => exact hemit []
  | placeholder =>
    obtain ⟨rest, hrest⟩ : ∃ rest, s.stretch.cursor.rest = '#' :: '{' :: rest :=
      TextRun.read_placeholder _ _ _ hkind
    have hfirst : ['#', '{'] <+: s.stretch.cursor.rest := ⟨rest, hrest.symm⟩
    have halong : (s.stretch.cursor.along 2).Echo more k
        ((TextRun.read c.offset (s.cursor.position.down k) c.rest).cursor.along 2) :=
      hread.cursor.along hfirst (by simp [isBreak])
    have hopen : ∀ cursor : Cursor, [Token.mk .placeholderStart "#\x7b"
        ⟨s.stretch.cursor.position.down k, cursor.position.down k⟩] =
        [Token.mk .placeholderStart "#\x7b" ⟨s.stretch.cursor.position, cursor.position⟩].map (Token.down k) :=
      fun _ => rfl
    have htext : ∀ start : Position, (if s.stretch.text.isEmpty then [] else
        [Token.mk .string (String.ofList s.stretch.text) ⟨start.down k, s.stretch.cursor.position.down k⟩]) =
        (if s.stretch.text.isEmpty then [] else
          [Token.mk .string (String.ofList s.stretch.text) ⟨start, s.stretch.cursor.position⟩]).map
            (Token.down k) := by
      intro start
      cases s.stretch.text.isEmpty <;> rfl
    dsimp only
    rw [halong.position, hopen, htext, ← List.map_append]
    exact Step.echo_emit (s := { s with
      cursor := s.stretch.cursor.along 2
      modes := .placeholder s.stretch.cursor.position :: .text quote true :: s.modes.tail }) halong _

/-- What one step makes of a text it makes of every text with the same lines. -/
theorem step_echo (h : s.cursor.Echo more k c) (hwhole : Whole more s.cursor.rest)
    (herror : more = [] ∨ s.step.error = none) : Step.Echo more k s.step (s.echo k c).step := by
  have hmodes' := echo_modes k c s
  cases hmodes : s.modes with
  | nil =>
    rw [hmodes, List.map_nil] at hmodes'
    unfold step
    rw [hmodes, hmodes', echo_atLineStart]
    dsimp only
    split
    · exact scanIndentation_echo h hwhole
    · exact scanPlain_echo h hwhole
  | cons mode modes =>
    rw [hmodes, List.map_cons] at hmodes'
    cases mode with
    | text quote emitted =>
      unfold step at herror ⊢
      rw [hmodes] at herror ⊢
      rw [hmodes']
      exact scanText_echo h quote emitted herror
    | placeholder =>
      unfold step
      rw [hmodes, hmodes']
      exact scanPlain_echo h hwhole

theorem run_echo (h : s.cursor.Echo [] k c) : (s.echo k c).run =
    (s.run.1.map (Token.down k), s.run.2.map (ScriptError.down k)) := by
  fun_induction Scanner.run s generalizing c
  case case1 s hfinished => exact run_of_finished hfinished
  case case2 s hfinished after ih =>
    obtain ⟨htokens, herror, c', hc, hnext⟩ := step_echo h (.inl rfl) (.inl rfl)
    rw [run, dif_neg (by exact hfinished)]
    dsimp only
    rw [htokens, herror, hnext, ih hc, List.map_append, List.map_append, Option.toList_map]

end Scanner

end Steps

theorem lex_eq_of_sameLines {a b : String} (h : SameLines [] a.toList b.toList) : lex b = lex a := by
  have hrun : (Scanner.ofText b).run = (Scanner.ofText a).run := by
    refine (Scanner.run_echo (s := .ofText a) (k := 0) (c := .ofText b) ⟨h, rfl⟩).trans ?_
    rw [show Token.down 0 = id from rfl, show ScriptError.down 0 = id from rfl, List.map_id, List.map_id]
  unfold lex
  rw [hrun]

/-- The text with `ends` in the place of every line feed. -/
def withBreaks (ends : List Char) (source : String) : String :=
  String.ofList (source.toList.flatMap fun x => if x = '\n' then ends else [x])

theorem sameLines_flatMap {ends text : List Char} (htext : '\r' ∉ text)
    (hends : ∀ text : List Char, LineBreak ends (text.flatMap fun x => if x = '\n' then ends else [x])) :
    SameLines [] text (text.flatMap fun x => if x = '\n' then ends else [x]) := by
  induction text with
  | nil => exact .nil
  | cons x text ih =>
    rw [List.mem_cons, not_or] at htext
    rw [List.flatMap_cons]
    by_cases hx : x = '\n'
    · subst hx
      exact .ends (u := ['\n']) (.lineFeed text) (hends text) (ih htext.2)
    · rw [if_neg hx]
      exact .char (by simpa [isBreak] using ⟨hx, Ne.symm htext.1⟩) (ih htext.2)

theorem head?_flatMap_ne (text : List Char) :
    (text.flatMap fun x => if x = '\n' then ['\r'] else [x]).head? ≠ some '\n' := by
  cases text with
  | nil => simp
  | cons x text =>
    rw [List.flatMap_cons]
    split
    · simp
    · simpa

/-- A text without carriage returns is scanned and checked alike if its lines end with carriage returns and
line feeds, or with carriage returns. -/
theorem line_breaks_alike {source : String} (hsource : '\r' ∉ source.toList) :
    ∀ ends ∈ [['\r', '\n'], ['\r']], lex (withBreaks ends source) = lex source ∧
      checkScript (withBreaks ends source) = checkScript source := by
  intro ends hends
  have hlex : lex (withBreaks ends source) = lex source := by
    refine lex_eq_of_sameLines ?_
    rw [withBreaks, String.toList_ofList]
    refine sameLines_flatMap hsource fun text => ?_
    rcases List.mem_pair.1 hends with rfl | rfl
    · exact .both _
    · exact .carriageReturn (head?_flatMap_ne text)
  refine ⟨hlex, ?_⟩
  unfold checkScript
  rw [hlex]

def brokenLines : String := "a # b\n\n  \"c\\\nd\"\n"

theorem line_breaks_alike_brokenLines : '\r' ∉ brokenLines.toList ∧
    withBreaks ['\r'] brokenLines = "a # b\r\r  \"c\\\rd\"\r" ∧
    lex brokenLines = .ok [⟨.identifier, "a", ⟨⟨1, 1⟩, ⟨1, 2⟩⟩⟩, ⟨.newline, "\n", .point ⟨1, 6⟩⟩,
      ⟨.indent, "2", ⟨⟨3, 1⟩, ⟨3, 3⟩⟩⟩, ⟨.string, "c\\\nd", ⟨⟨3, 3⟩, ⟨4, 3⟩⟩⟩, ⟨.newline, "\n", .point ⟨4, 3⟩⟩,
      ⟨.dedent, "", .point ⟨5, 1⟩⟩, .endOfFile ⟨5, 1⟩] ∧
    lex (withBreaks ['\r', '\n'] brokenLines) = lex brokenLines ∧
    lex (withBreaks ['\r'] brokenLines) = lex brokenLines := by
  have hsource : '\r' ∉ brokenLines.toList := by decide
  refine ⟨hsource, by decide, by cbv, ?_, ?_⟩
  · exact (line_breaks_alike hsource _ (by simp)).1
  · exact (line_breaks_alike hsource _ (by simp)).1

end DialogueScript
