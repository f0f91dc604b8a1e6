import DialogueScript.Proofs.Layout
import DialogueScript.Proofs.ScanEcho

namespace DialogueScript

namespace Scanner

variable {source : String} {tokens ts : List Token} {s t : Scanner}

theorem Scans.scanned (h : Scans s ts t) {errors : List ScriptError} (hscan : Scanned source tokens errors s) :
    Scanned source (tokens ++ ts) errors t := by
  induction h generalizing tokens with
  | refl => rwa [List.append_nil]
  | step hfinished herror _ ih =>
    have hnext := hscan.step hfinished
    rw [herror, Option.toList_none, List.append_nil] at hnext
    rw [← List.append_assoc]
    exact ih hnext

/-- The scan has made `tokens` and stands at the start of a line, where nothing is open but blocks. -/
structure Fresh (tokens : List Token) (s : Scanner) : Prop where
  unfinished : s.finished = false
  modes : s.modes = []
  line : s.atLineStart = true
  content : s.hasContent = false
  column : s.cursor.position.column = 1
  above : ∀ t ∈ tokens, t.span.start.line < s.cursor.position.line ∧ t.span.stop.line < s.cursor.position.line

theorem Fresh.at_cursor (h : Fresh tokens s) {c : Cursor} (hc : c.position = s.cursor.position) :
    Fresh tokens { s with cursor := c } :=
  ⟨h.unfinished, h.modes, h.line, h.content, hc ▸ h.column, hc ▸ h.above⟩

theorem Fresh.echo_eq (h : Fresh tokens s) (k : Nat) (c : Cursor) : s.echo k c = { s with cursor := c } := by
  unfold echo
  rw [h.modes]
  rfl

theorem rest_ne_nil {c d : Cursor} {text rest : List Char} (hlast : rest.getLast? = some '\n')
    (hsuffix : c.rest <:+ rest) (hne : c.rest ≠ []) (hpass : c.Passes d text)
    (hplain : ∀ x ∈ text, isBreak x = false) : d.rest ≠ [] := by
  intro hnil
  obtain ⟨front, rfl⟩ := hsuffix
  rw [List.getLast?_append_of_ne_nil _ hne, hpass.rest, hnil, List.append_nil] at hlast
  exact Bool.noConfusion (hplain '\n' (List.mem_of_getLast? hlast))

theorem Move.fresh {step : Step} (hmove : Move s step) (herror : step.error = none)
    (hscan : Scanned source tokens [] s) (hs : s.finished = false)
    (hlast : s.cursor.rest.getLast? = some '\n') (hnext : step.next.cursor.rest = []) :
    (∃ opening modes, step.next.modes = .placeholder opening :: modes) ∨
      Fresh (tokens ++ step.tokens) step.next := by
  have hne : s.cursor.rest ≠ [] := by
    intro hnil
    simp [hnil] at hlast
  have habove : ∀ t ∈ tokens, t.span.start.line ≤ s.cursor.position.line ∧
      t.span.stop.line ≤ s.cursor.position.line := fun t ht =>
    ⟨Position.line_le (hscan.marks_le.1 t ht).1, Position.line_le (hscan.marks_le.1 t ht).2⟩
  cases hmove with
  | idle =>
    refine absurd hnext (rest_ne_nil hlast List.suffix_rfl hne s.passes_behindMargin fun x hx => ?_)
    exact Lexeme.not_isBreak_of (by decide) (List.mem_takeWhile_imp hx)
  | blank hmodes hline hrest hbreak =>
    have hposition := Cursor.position_bump hbreak hrest
    obtain ⟨lines, margin, content, hmidway⟩ := (hscan.midway rfl).1 hs
    right
    rw [List.append_nil]
    refine ⟨hs, hmodes, rfl, ?_, by rw [hposition]; rfl, fun t ht => ?_⟩
    · by_contra hcontent
      exact (hmidway.hasContent.1 (by simpa using hcontent)) (hmidway.lineStart hline).2.1
    · have ht := habove t ht
      rw [hposition]
      exact ⟨Nat.lt_succ_of_le ht.1, Nat.lt_succ_of_le ht.2⟩
  | margin _ _ hrest _ _ _ hstep =>
    cases hstep <;> exact absurd hnext (by simp [indented, hrest])
  | lineEnd hmodes _ hrest hbreak =>
    have hposition := Cursor.position_bump hbreak hrest
    refine .inr ⟨hs, hmodes, rfl, rfl, by rw [hposition]; rfl, ?_⟩
    rw [hposition]
    refine List.forall_mem_append.2 ⟨fun t ht => ?_, fun t ht => ?_⟩
    · exact ⟨Nat.lt_succ_of_le (habove t ht).1, Nat.lt_succ_of_le (habove t ht).2⟩
    · exact spans_lineEnd (P := fun p => p.line < s.cursor.position.nextLine.line) (Nat.lt_succ_self _) _ t ht
  | innerBreak hmodes => exact .inl ⟨_, _, hmodes⟩
  | openText _ hrest | closePlaceholder _ hrest =>
    exact absurd hnext
      (rest_ne_nil hlast List.suffix_rfl hne (Cursor.passes_bump_char rfl hrest) (by simp [isBreak]))
  | pass _ hread | word _ hread =>
    obtain ⟨hfirst, hplain⟩ := Lexeme.read?_plain hread
    exact absurd hnext (rest_ne_nil hlast List.suffix_rfl hne (Cursor.passes_along hfirst) hplain)
  | closeText _ hstop =>
    obtain ⟨rest, hrest⟩ : ∃ rest, s.stretch.cursor.rest = '"' :: rest := TextRun.read_quote _ _ _ hstop
    obtain ⟨text, hstretch⟩ := s.passes_stretch
    exact absurd hnext (rest_ne_nil hlast hstretch.suffix (by simp [hrest])
      (Cursor.passes_bump_char rfl hrest) (by simp [isBreak]))
  | openPlaceholder _ hstop =>
    obtain ⟨rest, hrest⟩ : ∃ rest, s.stretch.cursor.rest = '#' :: '{' :: rest :=
      TextRun.read_placeholder _ _ _ hstop
    obtain ⟨text, hstretch⟩ := s.passes_stretch
    exact absurd hnext (rest_ne_nil hlast hstretch.suffix (by simp [hrest])
      (Cursor.passes_placeholder hrest) (by simp [isBreak]))
  | strange | endInText | endInPlaceholder => cases herror
  | finish _ _ hrest => exact absurd hrest hne

theorem run_ne_nil {opening : Position} {modes : List Mode} (hs : s.finished = false)
    (hmodes : s.modes = .placeholder opening :: modes) (hrest : s.cursor.rest = []) : s.run.2 ≠ [] := by
  have hopening : s.modes.reverse.findSome? Mode.opening? ≠ none := by
    rw [hmodes]
    simp [Mode.opening?]
  have hstep : s.step = s.finish := by
    unfold step scanPlain
    rw [hmodes, hrest]
  have herror : s.step.error ≠ none := by
    rw [hstep]
    unfold finish
    split
    · simp [Step.fail]
    · exact absurd ‹_› hopening
  rw [run, dif_neg (by simp [hs])]
  simpa using fun h => absurd h herror

theorem scans_echo (hs : s.finished = false) (hlast : s.cursor.rest.getLast? = some '\n')
    (herror : s.step.error = none) {more : List Char} {k : Nat} {c : Cursor} (h : s.cursor.Echo more k c) :
    ∃ d, s.step.next.cursor.Echo more k d ∧
      Scans (s.echo k c) (s.step.tokens.map (Token.down k)) (s.step.next.echo k d) := by
  obtain ⟨htokens, herror', d, hd, hnext⟩ := step_echo h (.inr hlast) (.inr herror)
  rw [herror, Option.map_none] at herror'
  refine ⟨d, hd, .of_step hs ?_⟩
  rw [← htokens, ← hnext, ← herror']

/-- A text that ends with a line break is scanned up to the start of a line, if there is no error to come.
Of texts that begin with it the scan is the same so far. -/
theorem Scanned.exists_fresh (hscan : Scanned source tokens [] s) (hs : s.finished = false)
    (hlast : s.cursor.rest.getLast? = some '\n') (hrun : s.run.2 = []) :
    ∃ ts t, Scanned source (tokens ++ ts) [] t ∧ Fresh (tokens ++ ts) t ∧ t.cursor.rest = [] ∧
      ∀ {more k c}, s.cursor.Echo more k c →
        ∃ d, t.cursor.Echo more k d ∧ Scans (s.echo k c) (ts.map (Token.down k)) (t.echo k d) := by
  fun_induction Scanner.run s generalizing tokens
  case case1 s hfinished => exact absurd (hs.symm.trans hfinished) Bool.false_ne_true
  case case2 s hfinished after ih =>
    obtain ⟨herror, hafter⟩ := List.append_eq_nil_iff.1 hrun
    replace herror : s.step.error = none := by simpa using herror
    have hnext := hscan.step hs
    rw [herror, Option.toList_none, List.append_nil] at hnext
    by_cases hrest : s.step.next.cursor.rest = []
    · rcases (move_step s).fresh herror hscan hs hlast hrest with ⟨opening, modes, hmodes⟩ | hfresh
      · have hopen := hnext.sound.unfinished (.inr (by simp [hmodes]))
        exact absurd hafter (run_ne_nil hopen hmodes hrest)
      · exact ⟨_, _, hnext, hfresh, hrest, scans_echo hs hlast herror⟩
    · obtain ⟨text, hpass⟩ := (move_step s).passes
      have hlast' : s.step.next.cursor.rest.getLast? = some '\n' := by
        rwa [hpass.rest, List.getLast?_append_of_ne_nil _ hrest] at hlast
      obtain ⟨ts, t, hscan', hfresh, hend, hecho⟩ := ih hnext (hnext.sound.unfinished (.inl hrest)) hlast' hafter
      rw [List.append_assoc] at hscan' hfresh
      refine ⟨_, t, hscan', hfresh, hend, fun h => ?_⟩
      obtain ⟨d, hd, hscans⟩ := scans_echo hs hlast herror h
      obtain ⟨e, he, hscans'⟩ := hecho hd
      rw [List.map_append]
      exact ⟨e, he, hscans.trans hscans'⟩

theorem Ready.scans_comment (h : s.Ready) {text rest : List Char} (htext : ∀ x ∈ text, isBreak x = false)
    (hrest : s.cursor.rest = '#' :: text ++ rest) (hbreak : ∀ x ∈ rest.head?, isBreak x = true) :
    Scans s [] { s with cursor := s.cursor.along (text.length + 1) } := by
  have hcomment : (('#' :: text) ++ rest).takeWhile (!isBreak ·) = '#' :: text :=
    (takeWhile_stretch _ (by simpa [isBreak] using htext) (by simpa using hbreak)).1
  have hread : Lexeme.read? (('#' :: text) ++ rest) =
      some ⟨none, (('#' :: text) ++ rest).takeWhile (!isBreak ·)⟩ := rfl
  rw [hcomment] at hread
  have hlexeme : s.scanPlain = s.scanLexeme '#' := by
    unfold scanPlain
    simp [hrest, isBreak]
  refine .of_step h.unfinished ?_
  rw [h.step_eq, hlexeme]
  unfold scanLexeme
  rw [hrest, hread]
  rfl

theorem Ready.scans_break (h : s.Ready) (hmodes : s.modes = []) (hcontent : s.hasContent = false)
    {x : Char} {rest : List Char} (hrest : s.cursor.rest = x :: rest) (hbreak : isBreak x = true) :
    Scans s [] { s with cursor := s.cursor.bump, atLineStart := true } := by
  have hplaceholder : s.inPlaceholder = false := by simp [inPlaceholder, hmodes]
  refine .of_step h.unfinished ?_
  rw [h.step_eq]
  unfold scanPlain
  simp [hrest, hbreak, hplaceholder, hcontent, Step.emit]

/-- A line with nothing on it but a comment makes no token and changes nothing. -/
theorem Fresh.scans_line (h : Fresh tokens s) {margin comment rest : List Char}
    (hmargin : ∀ x ∈ margin, Lexeme.isIndentChar x = true)
    (hcomment : comment = [] ∨ ∃ text, comment = '#' :: text ∧ ∀ x ∈ text, isBreak x = false)
    (hrest : s.cursor.rest = margin ++ comment ++ '\n' :: rest) :
    ∃ c, c.rest = rest ∧ c.position = s.cursor.position.nextLine ∧ Scans s [] { s with cursor := c } := by
  have hstop : ∀ x ∈ (comment ++ '\n' :: rest).head?, Lexeme.isIndentChar x = false := by
    rcases hcomment with rfl | ⟨text, rfl, -⟩ <;> simp [Lexeme.isIndentChar]
  have hbehind : s.behindMargin.rest = comment ++ '\n' :: rest := by
    rw [behindMargin_rest, hrest, List.append_assoc]
    exact (takeWhile_stretch _ hmargin hstop).2
  have hstep : s.step = s.scanIndentation := by
    unfold step
    rw [h.modes]
    exact if_pos h.line
  have hline : ∀ c : Cursor, { s with cursor := c, atLineStart := true } = { s with cursor := c } :=
    fun _ => by rw [h.line]
  rcases hcomment with rfl | ⟨text, rfl, htext⟩
  · refine ⟨s.behindMargin.bump, bump_rest hbehind (by decide), Cursor.position_bump (by decide) hbehind, ?_⟩
    refine .of_step h.unfinished ?_
    rw [hstep, scanIndentation_eq, hbehind, ← hline]
    rfl
  · -- the scan stands in front of the comment, then behind it, and then on the next line
    have hmargin' : Scans s [] s.indented := .of_step h.unfinished (by
      rw [hstep, scanIndentation_eq, hbehind]
      rfl)
    have hready : s.indented.Ready := ⟨h.unfinished, .inl ⟨h.modes, rfl⟩⟩
    have hpass := hready.scans_comment htext hbehind (by simp [isBreak])
    have hend : (s.behindMargin.along (text.length + 1)).rest = '\n' :: rest := by
      rw [Cursor.along, hbehind, ← List.length_cons]
      exact List.drop_left
    refine ⟨_, bump_rest hend (by decide), Cursor.position_bump (by decide) hend, ?_⟩
    rw [← hline]
    exact hmargin'.trans (hpass.trans (Ready.scans_break ⟨h.unfinished, .inl ⟨h.modes, rfl⟩⟩
      h.modes h.content hend (by decide)))

theorem exists_fresh_of_lex {first : String} {tokens : List Token} (h : lex first = .ok tokens)
    (hfirst : first.toList = [] ∨ first.toList.getLast? = some '\n') (rest rest' : String) :
    ∃ ts t d, Fresh ts t ∧ t.cursor.rest = rest.toList ∧ t.cursor.position = ⟨(lines first).length, 1⟩ ∧
      Scans (ofText (first ++ rest)) ts t ∧ d.rest = rest'.toList ∧ d.position = t.cursor.position ∧
      Scans (ofText (first ++ rest')) ts { t with cursor := d } := by
  -- where the scan of `first` alone stands at its end
  suffices h : ∃ ts t, Scanned first ts [] t ∧ Fresh ts t ∧ t.cursor.rest = [] ∧ ∀ rest : String,
      ∃ d : Cursor, d.rest = rest.toList ∧ d.position = t.cursor.position ∧
        Scans (ofText (first ++ rest)) ts { t with cursor := d } by
    obtain ⟨ts, t, hscan, hfresh, hend, hgo⟩ := h
    obtain ⟨passed, shown, before, start, hplaced⟩ := hscan.lies
    have hlines := hplaced.lines
    rw [hend] at hlines
    have hposition : t.cursor.position = ⟨(lines first).length, 1⟩ := by
      have hcolumn := hfresh.column
      rw [hplaced.position] at hcolumn ⊢
      rw [hlines, List.length_append, Position.mk.injEq]
      exact ⟨rfl, hcolumn⟩
    obtain ⟨c, hc, hcp, hscans⟩ := hgo rest
    obtain ⟨d, hd, hdp, hscans'⟩ := hgo rest'
    exact ⟨ts, _, d, hfresh.at_cursor hcp, hc, hcp.trans hposition, hscans, hd, hdp.trans hcp.symm, hscans'⟩
  rcases hfirst with hnil | hlast
  · refine ⟨[], _, .start, ⟨rfl, rfl, rfl, rfl, rfl, List.forall_mem_nil _⟩, hnil, fun rest => ?_⟩
    refine ⟨.ofText (first ++ rest), ?_, rfl, .refl _⟩
    rw [Cursor.ofText, String.toList_append, hnil, List.nil_append]
  · have hrun : (ofText first).run.2 = [] := by rw [lex_eq_ok.1 h]
    have hstart : Scanned first [] [] (ofText first) := .start
    obtain ⟨ts, t, hscan, hfresh, hend, hecho⟩ := hstart.exists_fresh rfl hlast hrun
    rw [List.nil_append] at hscan hfresh
    refine ⟨ts, t, hscan, hfresh, hend, fun rest => ?_⟩
    have hlines : SameLines rest.toList first.toList (first ++ rest).toList := by
      rw [String.toList_append]
      exact sameLines_append (.inr (by simp [hlast]))
    obtain ⟨d, hd, hscans⟩ := hecho (k := 0) (c := .ofText (first ++ rest)) ⟨hlines, rfl⟩
    rw [hfresh.echo_eq] at hscans
    refine ⟨d, hd.rest.eq_more hend, hd.position, ?_⟩
    rwa [show Token.down 0 = id from rfl, List.map_id] at hscans

/-- With a line of blanks and perhaps a comment between `first` and `rest`, the run goes on in the same way
one line further down. -/
theorem exists_runs {first : String} {tokens : List Token} (hlex : lex first = .ok tokens)
    (hfirst : first.toList = [] ∨ first.toList.getLast? = some '\n') {margin comment : List Char}
    (hmargin : ∀ x ∈ margin, Lexeme.isIndentChar x = true)
    (hcomment : comment = [] ∨ ∃ text, comment = '#' :: text ∧ ∀ x ∈ text, isBreak x = false) (rest : String) :
    ∃ ts t, Fresh ts t ∧ t.cursor.rest = rest.toList ∧ t.cursor.position = ⟨(lines first).length, 1⟩ ∧
      Scans (ofText (first ++ rest)) ts t ∧
      (ofText (first ++ String.ofList (margin ++ comment ++ ['\n']) ++ rest)).run =
        (ts ++ t.run.1.map (Token.down 1), t.run.2.map (ScriptError.down 1)) := by
  obtain ⟨ts, t, d, hfresh, hrest, hposition, hscans, hd, hdp, hscans'⟩ :=
    exists_fresh_of_lex hlex hfirst rest (String.ofList (margin ++ comment ++ ['\n']) ++ rest)
  refine ⟨ts, t, hfresh, hrest, hposition, hscans, ?_⟩
  rw [String.toList_append, String.toList_ofList, List.append_assoc, List.singleton_append] at hd
  obtain ⟨c, hc, hcp, hline⟩ := (hfresh.at_cursor hdp).scans_line hmargin hcomment hd
  have hlines : SameLines [] t.cursor.rest c.rest := by
    have hself : SameLines [] rest.toList (rest.toList ++ []) := sameLines_append (.inl rfl)
    rw [List.append_nil] at hself
    rwa [hrest, hc]
  have hdown : c.position = t.cursor.position.down 1 := by
    rw [hcp, hdp, hposition]
    rfl
  have hecho := run_echo ⟨hlines, hdown⟩
  rw [hfresh.echo_eq] at hecho
  have hrun := (hscans'.trans hline).run
  rw [hecho, List.append_nil] at hrun
  rwa [String.append_assoc]

end Scanner

/-- The position of what stands at `p` after a line was put in front of the line with the given number. -/
def Position.makeRoom (line : Nat) (p : Position) : Position := if p.line < line then p else p.down 1

def Token.makeRoom (line : Nat) (t : Token) : Token :=
  { t with span := ⟨t.span.start.makeRoom line, t.span.stop.makeRoom line⟩ }

def ScriptError.makeRoom (line : Nat) (e : ScriptError) : ScriptError :=
  { e with position := e.position.makeRoom line }

section MakeRoom

variable {line : Nat}

theorem Position.makeRoom_of_lt {p : Position} (h : p.line < line) : p.makeRoom line = p := if_pos h

theorem Position.makeRoom_of_le {p : Position} (h : line ≤ p.line) : p.makeRoom line = p.down 1 :=
  if_neg (Nat.not_lt.2 h)

theorem Token.makeRoom_of_lt {t : Token} (h : t.span.start.line < line ∧ t.span.stop.line < line) :
    t.makeRoom line = t := by
  rw [makeRoom, Position.makeRoom_of_lt h.1, Position.makeRoom_of_lt h.2]

theorem Token.makeRoom_of_le {t : Token} (h : line ≤ t.span.start.line ∧ line ≤ t.span.stop.line) :
    t.makeRoom line = t.down 1 := by
  rw [makeRoom, Position.makeRoom_of_le h.1, Position.makeRoom_of_le h.2]
  rfl

theorem ScriptError.makeRoom_of_le {e : ScriptError} (h : line ≤ e.position.line) :
    e.makeRoom line = e.down 1 := by
  rw [makeRoom, Position.makeRoom_of_le h]
  rfl

end MakeRoom

/-- A line of blanks and perhaps a comment, anywhere in a text behind lines without errors, makes no
difference to the kinds and the values of the tokens or to the errors. What stands in front of that line stays
where it is, and what stands behind it moves down by one line. -/
theorem blank_line_ignored {first rest : String} {margin comment : List Char} {tokens : List Token}
    (hlex : lex first = .ok tokens) (hfirst : first.toList = [] ∨ first.toList.getLast? = some '\n')
    (hmargin : ∀ x ∈ margin, x = ' ' ∨ x = '\t')
    (hcomment : comment = [] ∨ ∃ text, comment = '#' :: text ∧ ∀ x ∈ text, x ≠ '\n' ∧ x ≠ '\r') :
    byteOffset (first ++ rest) ⟨(lines first).length, 1⟩ = some (byteLength first.toList) ∧
      lex (first ++ String.ofList (margin ++ comment ++ ['\n']) ++ rest) =
        ((lex (first ++ rest)).map (List.map (Token.makeRoom (lines first).length))).mapError
          (List.map (ScriptError.makeRoom (lines first).length)) := by
  obtain ⟨ts, t, hfresh, hrest, hposition, hscans, hrun⟩ := Scanner.exists_runs hlex hfirst
    (fun x hx => by simpa [Lexeme.isIndentChar] using hmargin x hx)
    (hcomment.imp_right fun ⟨text, htext, hplain⟩ => ⟨text, htext, by simpa [isBreak] using hplain⟩) rest
  constructor
  · obtain ⟨passed, shown, before, start, hplaced⟩ := (hscans.scanned .start).lies
    have htext := hplaced.text
    rw [hrest, String.toList_append] at htext
    rw [← hposition, Cursor.Lies.byteOffset_eq ⟨_, _, _, _, hplaced⟩, hplaced.offset,
      List.append_cancel_right htext]
  · -- what is marked in front of the line is above it, and what is marked from there on is not
    obtain ⟨hafter, herrors⟩ := Scanner.le_marks_run (s := t) le_rfl (by simp [hfresh.modes])
    have habove := hfresh.above
    rw [hposition] at hafter herrors habove
    have htokens : (ts ++ t.run.1).map (Token.makeRoom (lines first).length) =
        ts ++ t.run.1.map (Token.down 1) := by
      rw [List.map_append, List.map_congr_left fun u hu => Token.makeRoom_of_lt (habove u hu), List.map_id',
        List.map_congr_left fun u hu => Token.makeRoom_of_le
          ⟨Position.line_le (hafter u hu).1, Position.line_le (hafter u hu).2⟩]
    have herrors' : t.run.2.map (ScriptError.makeRoom (lines first).length) =
        t.run.2.map (ScriptError.down 1) :=
      List.map_congr_left fun e he => ScriptError.makeRoom_of_le (Position.line_le (herrors e he))
    unfold lex
    rw [hrun, hscans.run, ← htokens, ← herrors']
    cases t.run.2 with
    | nil => rfl
    | cons e errors => rfl

/-- The margin of the line between the two is one that a line with something on it could not have. -/
theorem blank_line_ignored_mixedMargin :
    lex "a\n" = .ok [⟨.identifier, "a", ⟨⟨1, 1⟩, ⟨1, 2⟩⟩⟩, ⟨.newline, "\n", .point ⟨1, 2⟩⟩, .endOfFile ⟨2, 1⟩] ∧
    "a\n".toList.getLast? = some '\n' ∧
    lex ("a\n" ++ String.ofList ([' ', '\t'] ++ ['#', 'b'] ++ ['\n']) ++ "  c") = .ok
      [⟨.identifier, "a", ⟨⟨1, 1⟩, ⟨1, 2⟩⟩⟩, ⟨.newline, "\n", .point ⟨1, 2⟩⟩, ⟨.indent, "2", ⟨⟨3, 1⟩, ⟨3, 3⟩⟩⟩,
        ⟨.identifier, "c", ⟨⟨3, 3⟩, ⟨3, 4⟩⟩⟩, ⟨.newline, "\n", .point ⟨3, 4⟩⟩, ⟨.dedent, "", .point ⟨3, 4⟩⟩,
        .endOfFile ⟨3, 4⟩] := by
  have hfirst : lex "a\n" = .ok
      [⟨.identifier, "a", ⟨⟨1, 1⟩, ⟨1, 2⟩⟩⟩, ⟨.newline, "\n", .point ⟨1, 2⟩⟩, .endOfFile ⟨2, 1⟩] := by cbv
  have hwithout : lex ("a\n" ++ "  c") = .ok
      [⟨.identifier, "a", ⟨⟨1, 1⟩, ⟨1, 2⟩⟩⟩, ⟨.newline, "\n", .point ⟨1, 2⟩⟩, ⟨.indent, "2", ⟨⟨2, 1⟩, ⟨2, 3⟩⟩⟩,
        ⟨.identifier, "c", ⟨⟨2, 3⟩, ⟨2, 4⟩⟩⟩, ⟨.newline, "\n", .point ⟨2, 4⟩⟩, ⟨.dedent, "", .point ⟨2, 4⟩⟩,
        .endOfFile ⟨2, 4⟩] := by cbv
  have hlast : "a\n".toList.getLast? = some '\n' := by decide
  have hmargin : ∀ x ∈ [' ', '\t'], x = ' ' ∨ x = '\t' := by simp
  have hcomment : ['#', 'b'] = [] ∨ ∃ text, ['#', 'b'] = '#' :: text ∧ ∀ x ∈ text, x ≠ '\n' ∧ x ≠ '\r' :=
    .inr ⟨['b'], rfl, by simp⟩
  obtain ⟨-, hwith⟩ := @blank_line_ignored "a\n" "  c" _ _ _ hfirst (.inr hlast) hmargin hcomment
  refine ⟨hfirst, hlast, ?_⟩
  rw [hwith, hwithout, show (lines "a\n").length = 2 by decide]
  rfl

end DialogueScript
