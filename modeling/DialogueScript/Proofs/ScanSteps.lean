import DialogueScript.Proofs.LexedTokens

namespace DialogueScript

theorem Scanner.foldl_note (tokens : List Token) (s : Scanner) :
    tokens.foldl note s =
      { s with hasContent := s.hasContent || tokens.any (·.kind.isContent) } := by
  induction tokens generalizing s with
  | nil => simp
  | cons t ts ih =>
    rw [List.foldl_cons, ih, note]
    cases h : t.kind.isContent <;> simp [h]

theorem Step.emit_eq (tokens : List Token) (s : Scanner) : Step.emit tokens s =
    ⟨tokens, none, { s with hasContent := s.hasContent || tokens.any (·.kind.isContent) }⟩ := by
  rw [emit, Scanner.foldl_note]

theorem Step.fail_eq (tokens : List Token) (cause : ErrorCause) (p : Position) (s : Scanner) :
    Step.fail tokens cause p s = ⟨tokens, some ⟨cause, p⟩,
      { s with hasContent := s.hasContent || tokens.any (·.kind.isContent) }⟩ := by
  rw [fail, Scanner.foldl_note]

namespace Lexeme

inductive Reads (text : List Char) : Lexeme → Prop
  | word (kind : TokenKind) : Reads text ⟨some kind, text.takeWhile isWordChar⟩
  | numeral : Reads text ⟨some .number, numeral text⟩
  | blanks {c : Char} {rest : List Char} (htext : text = c :: rest) (hc : isIndentChar c = true) :
    Reads text ⟨none, text.takeWhile isIndentChar⟩
  | comment {rest : List Char} (htext : text = '#' :: rest) : Reads text ⟨none, text.takeWhile (!isBreak ·)⟩
  | mark {m : String × TokenKind} (hm : m ∈ TokenKind.marks) (hfirst : m.1.toList <+: text) :
    Reads text ⟨some m.2, m.1.toList⟩

theorem reads_of_read? {text : List Char} {lexeme : Lexeme} (h : read? text = some lexeme) :
    Reads text lexeme := by
  unfold read? at h
  split at h
  · cases h
  · rename_i c rest
    split_ifs at h with hword hdigit hblank hcomment
    · cases h
      exact .word _
    · cases h
      exact .numeral
    · cases h
      exact .blanks rfl hblank
    · cases h
      subst hcomment
      exact .comment rfl
    · obtain ⟨m, hm, rfl⟩ := Option.map_eq_some_iff.1 h
      have hfirst : m.1.toList.isPrefixOf (c :: rest) = true := by simpa using List.find?_some hm
      exact .mark (List.mem_of_find?_eq_some hm) (List.isPrefixOf_iff_prefix.1 hfirst)

end Lexeme

namespace Scanner

def margin (s : Scanner) : List Char := s.cursor.rest.takeWhile Lexeme.isIndentChar

def behindMargin (s : Scanner) : Cursor := s.cursor.along s.margin.length

def stretch (s : Scanner) : TextRun := TextRun.read s.cursor.offset s.cursor.position s.cursor.rest

/-- Words and marks are read, and not string text or the margin of a line. -/
def Plain (s : Scanner) : Prop :=
  s.modes = [] ∧ s.atLineStart = false ∨ ∃ opening modes, s.modes = .placeholder opening :: modes

def indented (s : Scanner) : Scanner := { s with cursor := s.behindMargin, atLineStart := false }

/-- What the margin of a line with something on it does, when `s` stands behind the margin: `start` is
where the line begins, and `width` is how wide the margin is. -/
inductive Indents (s : Scanner) (start : Position) (width : Nat) : Step → Prop
  | refuse {cause : ErrorCause}
    (hcause : cause = .mixedIndentation ∨ ∃ expected found, cause = .inconsistentIndentation expected found) :
    Indents s start width ⟨[], some ⟨cause, start⟩, s⟩
  | deeper {style : Option IndentStyle} (hwidth : s.levels.headD 0 < width) :
    Indents s start width ⟨[⟨.indent, toString width, ⟨start, s.cursor.position⟩⟩], none,
      { s with style, levels := width :: s.levels }⟩
  | back {style : Option IndentStyle} (hwidth : ¬ s.levels.headD 0 < width)
    (hlevel : (s.levels.dropWhile (width < ·)).headD 0 = width) :
    Indents s start width
      ⟨(s.levels.takeWhile (width < ·)).map fun _ => ⟨.dedent, "", .point s.cursor.position⟩, none,
        { s with style, levels := s.levels.dropWhile (width < ·) }⟩
  | between {style : Option IndentStyle} (hwidth : ¬ s.levels.headD 0 < width)
    (hlevel : (s.levels.dropWhile (width < ·)).headD 0 ≠ width) :
    Indents s start width
      ⟨(s.levels.takeWhile (width < ·)).map fun _ => ⟨.dedent, "", .point s.cursor.position⟩,
        some ⟨.invalidDedent width, start⟩,
        { s with style, levels := width :: s.levels.dropWhile (width < ·) }⟩

inductive Move (s : Scanner) : Step → Prop
  /-- A comment, or the end of the text, behind the margin of a line. -/
  | idle (hmodes : s.modes = []) (hline : s.atLineStart = true)
    (hrest : ∀ c ∈ s.behindMargin.rest.head?, c = '#') : Move s ⟨[], none, s.indented⟩
  /-- A line with nothing but blanks. -/
  | blank {c : Char} {rest : List Char} (hmodes : s.modes = []) (hline : s.atLineStart = true)
    (hrest : s.behindMargin.rest = c :: rest) (hbreak : isBreak c = true) :
    Move s ⟨[], none, { s with cursor := s.behindMargin.bump, atLineStart := true }⟩
  /-- The margin of a line with something on it. -/
  | margin {c : Char} {rest : List Char} {step : Step} (hmodes : s.modes = [])
    (hline : s.atLineStart = true) (hrest : s.behindMargin.rest = c :: rest) (hcomment : c ≠ '#')
    (hbreak : isBreak c = false) (hblank : Lexeme.isIndentChar c = false)
    (hstep : Indents s.indented s.cursor.position s.margin.length step) : Move s step
  | lineEnd {c : Char} {rest : List Char} (hmodes : s.modes = []) (hline : s.atLineStart = false)
    (hrest : s.cursor.rest = c :: rest) (hbreak : isBreak c = true) :
    Move s ⟨if s.hasContent then [⟨.newline, "\n", .point s.cursor.position⟩] else [], none,
      { s with cursor := s.cursor.bump, hasContent := false, atLineStart := true }⟩
  /-- A line break within a placeholder. -/
  | innerBreak {opening : Position} {modes : List Mode} {c : Char} {rest : List Char}
    (hmodes : s.modes = .placeholder opening :: modes) (hrest : s.cursor.rest = c :: rest)
    (hbreak : isBreak c = true) : Move s ⟨[], none, { s with cursor := s.cursor.bump }⟩
  | openText {rest : List Char} (hplain : s.Plain) (hrest : s.cursor.rest = '"' :: rest) :
    Move s ⟨[], none,
      { s with cursor := s.cursor.bump, modes := .text s.cursor.position false :: s.modes }⟩
  | closePlaceholder {opening : Position} {modes : List Mode} {rest : List Char}
    (hmodes : s.modes = .placeholder opening :: modes) (hrest : s.cursor.rest = '}' :: rest) :
    Move s ⟨[⟨.placeholderEnd, "\x7d", ⟨s.cursor.position, s.cursor.bump.position⟩⟩], none,
      { s with cursor := s.cursor.bump, modes, hasContent := true }⟩
  /-- Blanks between words, or a comment. -/
  | pass {lexeme : Lexeme} (hplain : s.Plain) (hread : Lexeme.read? s.cursor.rest = some lexeme)
    (hkind : lexeme.kind = none) :
    Move s ⟨[], none, { s with cursor := s.cursor.along lexeme.text.length }⟩
  | word {lexeme : Lexeme} {kind : TokenKind} (hplain : s.Plain)
    (hread : Lexeme.read? s.cursor.rest = some lexeme) (hkind : lexeme.kind = some kind) :
    Move s ⟨[⟨kind, String.ofList lexeme.text,
        ⟨s.cursor.position, (s.cursor.along lexeme.text.length).position⟩⟩], none,
      { s with cursor := s.cursor.along lexeme.text.length, hasContent := true }⟩
  | strange {c : Char} {rest : List Char} (hplain : s.Plain) (hrest : s.cursor.rest = c :: rest)
    (hread : Lexeme.read? s.cursor.rest = none) :
    Move s ⟨[], some ⟨.unexpectedCharacter c, s.cursor.position⟩, { s with cursor := s.cursor.bump }⟩
  | endInText {quote : Position} {emitted : Bool} {modes : List Mode}
    (hmodes : s.modes = .text quote emitted :: modes) (hstop : s.stretch.stop = .endOfFile) :
    Move s ⟨[], some ⟨.unterminatedString, quote⟩, { s with cursor := s.stretch.cursor, modes := [] }⟩
  /-- The closing quote. A last stretch with no text makes no token unless it is the only one. -/
  | closeText {quote : Position} {emitted : Bool} {modes : List Mode}
    (hmodes : s.modes = .text quote emitted :: modes) (hstop : s.stretch.stop = .quote) :
    Move s ⟨if s.stretch.text.isEmpty && emitted then []
        else [⟨.string, String.ofList s.stretch.text,
          ⟨if emitted then s.cursor.position else quote, s.stretch.cursor.bump.position⟩⟩], none,
      { s with
        cursor := s.stretch.cursor.bump, modes
        hasContent := s.hasContent || !(s.stretch.text.isEmpty && emitted) }⟩
  | openPlaceholder {quote : Position} {emitted : Bool} {modes : List Mode}
    (hmodes : s.modes = .text quote emitted :: modes) (hstop : s.stretch.stop = .placeholder) :
    Move s ⟨(if s.stretch.text.isEmpty then []
        else [⟨.string, String.ofList s.stretch.text,
          ⟨if emitted then s.cursor.position else quote, s.stretch.cursor.position⟩⟩]) ++
          [⟨.placeholderStart, "#\x7b",
            ⟨s.stretch.cursor.position, (s.stretch.cursor.along 2).position⟩⟩], none,
      { s with
        cursor := s.stretch.cursor.along 2
        modes := .placeholder s.stretch.cursor.position :: .text quote true :: modes
        hasContent := true }⟩
  | endInPlaceholder {opening : Position} (hplain : s.Plain) (hrest : s.cursor.rest = [])
    (hopening : .placeholder opening ∈ s.modes) :
    Move s ⟨[], some ⟨.unterminatedPlaceholder, opening⟩, { s with modes := [] }⟩
  | finish (hmodes : s.modes = []) (hline : s.atLineStart = false) (hrest : s.cursor.rest = []) :
    Move s ⟨(if s.hasContent then [⟨.newline, "\n", .point s.cursor.position⟩] else []) ++
        s.levels.map (fun _ => ⟨.dedent, "", .point s.cursor.position⟩) ++
          [.endOfFile s.cursor.position], none,
      { s with hasContent := false, levels := [], finished := true }⟩

theorem behindMargin_rest (s : Scanner) :
    s.behindMargin.rest = s.cursor.rest.dropWhile Lexeme.isIndentChar := by
  have hsplit := congrArg (List.drop s.margin.length)
    (List.takeWhile_append_dropWhile (p := Lexeme.isIndentChar) (l := s.cursor.rest))
  rw [← margin, List.drop_left] at hsplit
  exact hsplit.symm

theorem kind_of_read? {text : List Char} {lexeme : Lexeme} {kind : TokenKind}
    (h : Lexeme.read? text = some lexeme) (hkind : lexeme.kind = some kind) :
    kind.isContent = true ∧ kind ≠ .placeholderStart ∧ kind ≠ .placeholderEnd := by
  have hmark : ∀ m ∈ TokenKind.keywords ++ TokenKind.marks,
      m.2.isContent = true ∧ m.2 ≠ .placeholderStart ∧ m.2 ≠ .placeholderEnd := by decide
  rcases Lexeme.read?_cases h with hnone | ⟨hname, -⟩ | ⟨hnumber, -⟩ | ⟨m, hm, rfl⟩
  · rw [hnone] at hkind
    cases hkind
  · obtain rfl := Option.some.inj (hname.symm.trans hkind)
    decide
  · obtain rfl := Option.some.inj (hnumber.symm.trans hkind)
    decide
  · obtain rfl := Option.some.inj hkind
    exact hmark m hm

theorem indents_changeLevel (s : Scanner) (style : Option IndentStyle) (start : Position) (width : Nat) :
    Indents s start width ({ s with style }.changeLevel start width) := by
  have hclosed : ((s.levels.takeWhile (width < ·)).map fun _ =>
      Token.mk .dedent "" (.point s.cursor.position)).any (·.kind.isContent) = false := by
    simp [TokenKind.isContent]
  unfold changeLevel
  dsimp only
  split
  · rename_i hwidth
    rw [Step.emit_eq]
    simp only [List.any_cons, List.any_nil, TokenKind.isContent, Bool.or_false]
    exact .deeper hwidth
  · rename_i hwidth
    split
    · rename_i hlevel
      rw [Step.emit_eq, hclosed, Bool.or_false]
      exact .back hwidth hlevel
    · rename_i hlevel
      rw [Step.fail_eq, hclosed, Bool.or_false]
      exact .between hwidth hlevel

theorem indents_indentTo (s : Scanner) (start : Position) (run : List Char) :
    Indents s start run.length (s.indentTo start run) := by
  unfold indentTo
  dsimp only
  split
  · rw [Step.fail_eq, List.any_nil, Bool.or_false]
    exact .refuse (.inl rfl)
  · split
    · rename_i hwidth
      rw [hwidth]
      exact indents_changeLevel s s.style start 0
    · split
      · exact indents_changeLevel s _ start _
      · rw [Step.fail_eq, List.any_nil, Bool.or_false]
        exact .refuse (.inr ⟨_, _, rfl⟩)

theorem move_scanIndentation {s : Scanner} (hmodes : s.modes = []) (hline : s.atLineStart = true) :
    Move s s.scanIndentation := by
  unfold scanIndentation
  dsimp only
  split
  · rename_i hrest
    exact .idle hmodes hline (by rw [behindMargin, margin, hrest]; simp)
  · rename_i c rest hrest
    have hrest' : s.behindMargin.rest = c :: rest := hrest
    split
    · rename_i hc
      exact .idle hmodes hline (by simp [hrest', hc])
    · rename_i hc
      split
      · rename_i hbreak
        exact .blank hmodes hline hrest' hbreak
      · rename_i hbreak
        refine .margin hmodes hline hrest' hc (by simpa using hbreak) ?_ (indents_indentTo ..)
        -- the margin takes all blanks, so what stands behind it is none
        have hhead := List.head?_dropWhile_not Lexeme.isIndentChar s.cursor.rest
        rw [← behindMargin_rest, hrest'] at hhead
        exact hhead

theorem move_finish {s : Scanner} (hplain : s.Plain) (hrest : s.cursor.rest = []) : Move s s.finish := by
  unfold finish
  split
  · rename_i opening hopening
    rw [Step.fail_eq, List.any_nil, Bool.or_false]
    refine .endInPlaceholder hplain hrest ?_
    obtain ⟨mode, hmode, hopen⟩ := List.exists_of_findSome?_eq_some hopening
    cases mode with
    | text => cases hopen
    | placeholder => cases hopen; exact List.mem_reverse.1 hmode
  · rename_i hnone
    rcases hplain with ⟨hmodes, hline⟩ | ⟨opening, modes, hmodes⟩
    · have hcontent : ((if s.hasContent then [Token.mk .newline "\n" (.point s.cursor.position)] else []) ++
          s.levels.map (fun _ => Token.mk .dedent "" (.point s.cursor.position)) ++
            [Token.endOfFile s.cursor.position]).any (·.kind.isContent) = false := by
        cases s.hasContent <;> simp [TokenKind.isContent, Token.endOfFile]
      dsimp only
      rw [Step.emit_eq, hcontent, Bool.or_false]
      exact .finish hmodes hline hrest
    · rw [hmodes] at hnone
      simp [Mode.opening?] at hnone

theorem move_scanLexeme {s : Scanner} {c : Char} {rest : List Char} (hplain : s.Plain)
    (hrest : s.cursor.rest = c :: rest) : Move s (s.scanLexeme c) := by
  unfold scanLexeme
  dsimp only
  split
  · rename_i hread
    rw [Step.fail_eq, List.any_nil, Bool.or_false]
    exact .strange hplain hrest hread
  · rename_i lexeme hread
    split
    · rename_i hkind
      exact .pass hplain hread hkind
    · rename_i kind hkind
      have hcontent := (kind_of_read? hread hkind).1
      rw [Step.emit_eq]
      simp only [List.any_cons, List.any_nil, hcontent, Bool.or_false, Bool.or_true]
      exact .word hplain hread hkind

theorem move_scanPlain {s : Scanner} (hplain : s.Plain) : Move s s.scanPlain := by
  unfold scanPlain
  split
  · rename_i hrest
    exact move_finish hplain hrest
  · rename_i c rest hrest
    dsimp only
    split
    · rename_i hbreak
      rcases hplain with ⟨hmodes, hline⟩ | ⟨opening, modes, hmodes⟩
      · have hcontent : (if s.hasContent then [Token.mk .newline "\n" (.point s.cursor.position)]
            else []).any (·.kind.isContent) = false := by
          cases s.hasContent <;> simp [TokenKind.isContent]
        rw [if_neg (by simp [inPlaceholder, hmodes]), Step.emit_eq, hcontent, Bool.or_false]
        exact .lineEnd hmodes hline hrest hbreak
      · rw [if_pos (by simp [inPlaceholder, hmodes])]
        exact .innerBreak hmodes hrest hbreak
    · split
      · rename_i hquote
        subst hquote
        exact .openText hplain hrest
      · split
        · rename_i hclose
          obtain ⟨hc, hinside⟩ : c = '}' ∧ s.inPlaceholder = true := by simpa using hclose
          subst hc
          obtain ⟨opening, modes, hmodes⟩ : ∃ opening modes, s.modes = .placeholder opening :: modes := by
            unfold inPlaceholder at hinside
            split at hinside
            · exact ⟨_, _, ‹_›⟩
            · cases hinside
          rw [Step.emit_eq]
          simp only [List.any_cons, List.any_nil, TokenKind.isContent, Bool.or_false, Bool.or_true, hmodes,
            List.tail_cons]
          exact .closePlaceholder hmodes hrest
        · exact move_scanLexeme hplain hrest

theorem move_scanText {s : Scanner} {quote : Position} {emitted : Bool} {modes : List Mode}
    (hmodes : s.modes = .text quote emitted :: modes) : Move s (s.scanText quote emitted) := by
  have hstretch : TextRun.read s.cursor.offset s.cursor.position s.cursor.rest = s.stretch := rfl
  unfold scanText
  dsimp only
  rw [hstretch]
  split
  · rename_i hstop
    rw [Step.fail_eq, List.any_nil, Bool.or_false]
    exact .endInText hmodes hstop
  · rename_i hstop
    rw [Step.emit_eq, hmodes, List.tail_cons]
    have hcontent : ∀ span, (if s.stretch.text.isEmpty && emitted then []
        else [Token.mk .string (String.ofList s.stretch.text) span]).any (·.kind.isContent) =
          !(s.stretch.text.isEmpty && emitted) := by
      intro span
      cases s.stretch.text.isEmpty && emitted <;> simp [TokenKind.isContent]
    rw [hcontent]
    exact .closeText hmodes hstop
  · rename_i hstop
    rw [Step.emit_eq, hmodes, List.tail_cons]
    simp only [List.any_append, List.any_cons, TokenKind.isContent, Bool.true_or, Bool.or_true]
    exact .openPlaceholder hmodes hstop

/-- Every step is of one of these kinds. -/
theorem move_step (s : Scanner) : Move s s.step := by
  unfold step
  split
  · rename_i hmodes
    split
    · rename_i hline
      exact move_scanIndentation hmodes hline
    · rename_i hline
      exact move_scanPlain (.inl ⟨hmodes, by simpa using hline⟩)
  · rename_i hmodes
    exact move_scanText hmodes
  · rename_i hmodes
    exact move_scanPlain (.inr ⟨_, _, hmodes⟩)

/-- The scan of a text after some steps, and the tokens and errors that they made. -/
inductive Scanned (source : String) : List Token → List ScriptError → Scanner → Prop
  | start : Scanned source [] [] (.ofText source)
  | step {tokens : List Token} {errors : List ScriptError} {s : Scanner}
    (h : Scanned source tokens errors s) (hs : s.finished = false) :
    Scanned source (tokens ++ s.step.tokens) (errors ++ s.step.error.toList) s.step.next

theorem Scanned.run {source : String} {tokens : List Token} {errors : List ScriptError} {s : Scanner}
    (h : Scanned source tokens errors s) :
    ∃ s', Scanned source (tokens ++ s.run.1) (errors ++ s.run.2) s' ∧ s'.finished = true := by
  induction s using Scanner.run.induct generalizing tokens errors with
  | case1 s hfinished =>
    rw [run_of_finished hfinished, List.append_nil, List.append_nil]
    exact ⟨s, h, hfinished⟩
  | case2 s hfinished ih =>
    rw [Scanner.run, dif_neg hfinished, ← List.append_assoc, ← List.append_assoc]
    exact ih (h.step (by simpa using hfinished))

theorem scanned_of_lex {source : String} {tokens : List Token} (h : lex source = .ok tokens) :
    ∃ s, Scanned source tokens [] s ∧ s.finished = true := by
  obtain ⟨s, hs, hfinished⟩ := (@Scanned.start source).run
  rw [lex_eq_ok.1 h] at hs
  exact ⟨s, hs, hfinished⟩

theorem scanned_of_lex_error {source : String} {errors : List ScriptError}
    (h : lex source = .error errors) :
    ∃ tokens s, Scanned source tokens errors s ∧ s.finished = true := by
  obtain ⟨s, hs, hfinished⟩ := (@Scanned.start source).run
  have herrors : (ofText source).run.2 = errors := by
    unfold lex at h
    dsimp only at h
    split at h
    · cases h
    · exact Except.error.inj h
  rw [herrors] at hs
  exact ⟨_, s, hs, hfinished⟩

end Scanner

end DialogueScript
