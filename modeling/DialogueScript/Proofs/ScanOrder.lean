import DialogueScript.Proofs.LineTracking

namespace DialogueScript

instance : Preorder Position where
  le p q := p.line < q.line ∨ p.line = q.line ∧ p.column ≤ q.column
  le_refl p := .inr ⟨rfl, Nat.le_refl _⟩
  le_trans p q r h h' := by omega

namespace Position

variable {p q : Position}

theorem le_iff : p ≤ q ↔ p.line < q.line ∨ p.line = q.line ∧ p.column ≤ q.column := .rfl

theorem le_nextColumn (p : Position) : p ≤ p.nextColumn := .inr ⟨rfl, Nat.le_succ _⟩

theorem le_nextLine (p : Position) : p ≤ p.nextLine := .inl (Nat.lt_succ_self _)

theorem le_along (p : Position) (n : Nat) : p ≤ p.along n := .inr ⟨rfl, Nat.le_add_right _ _⟩

theorem line_le (h : p ≤ q) : p.line ≤ q.line := by
  rcases le_iff.1 h with h | ⟨h, -⟩ <;> omega

end Position

namespace Cursor

/-- From the first cursor to the second, `text` is passed. -/
structure Passes (c d : Cursor) (text : List Char) : Prop where
  rest : c.rest = text ++ d.rest
  offset : d.offset = c.offset + byteLength text
  position : c.position ≤ d.position

variable {c d e : Cursor} {x : Char} {ends rest text more : List Char}

theorem Passes.refl (c : Cursor) : c.Passes c [] := ⟨rfl, rfl, le_rfl⟩

theorem Passes.trans (h : c.Passes d text) (h' : d.Passes e more) : c.Passes e (text ++ more) where
  rest := by rw [h.rest, h'.rest, List.append_assoc]
  offset := by rw [h'.offset, h.offset, byteLength_append, Nat.add_assoc]
  position := h.position.trans h'.position

theorem Passes.suffix (h : c.Passes d text) : d.rest <:+ c.rest := ⟨text, h.rest.symm⟩

theorem passes_along (h : text <+: c.rest) : c.Passes (c.along text.length) text := by
  obtain ⟨rest, hrest⟩ := h
  refine ⟨?_, ?_, c.position.le_along _⟩
  · rw [along, ← hrest, List.drop_left]
  · rw [along, ← hrest, List.take_left]

theorem passes_placeholder (h : c.rest = '#' :: '{' :: rest) : c.Passes (c.along 2) ['#', '{'] := by
  have hfirst : ['#', '{'] <+: c.rest := ⟨rest, h.symm⟩
  exact passes_along hfirst

theorem bump_lineBreak (h : LineBreak ends rest) (hrest : c.rest = ends ++ rest) :
    c.bump = ⟨rest, c.offset + byteLength ends, c.position.nextLine⟩ := by
  unfold bump
  rw [hrest]
  cases h with
  | lineFeed => rfl
  | both => rfl
  | carriageReturn h =>
    split
    · rename_i heq
      cases heq
    · rename_i heq
      cases heq
      exact absurd rfl h
    · rename_i heq
      cases heq
      rfl

theorem bump_char (h : isBreak x = false) (hrest : c.rest = x :: rest) :
    c.bump = ⟨rest, c.offset + x.utf8Size, c.position.nextColumn⟩ := by
  unfold bump
  rw [hrest]
  split
  · rename_i heq
    cases heq
  · rename_i heq
    cases heq
    cases h
  · rename_i heq
    cases heq
    rw [if_neg (by simp [h])]

theorem exists_lineBreak (h : isBreak x = true) (rest : List Char) :
    ∃ ends rest', LineBreak ends rest' ∧ x :: rest = ends ++ rest' := by
  by_cases hboth : ∃ k, x = '\r' ∧ rest = '\n' :: k
  · obtain ⟨k, rfl, rfl⟩ := hboth
    exact ⟨_, k, .both k, rfl⟩
  · exact ⟨[x], rest, lineBreak_singleton h fun k hx hrest => hboth ⟨k, hx, hrest⟩, rfl⟩

theorem isBreak_of_lineBreak (h : LineBreak ends rest) : ∀ y ∈ ends, isBreak y = true := by
  cases h <;> simp [isBreak]

theorem passes_bump_char (h : isBreak x = false) (hrest : c.rest = x :: rest) : c.Passes c.bump [x] := by
  rw [bump_char h hrest]
  exact ⟨hrest, by rw [byteLength_cons, byteLength_nil, Nat.add_zero], c.position.le_nextColumn⟩

theorem passes_bump_break (h : isBreak x = true) (hrest : c.rest = x :: rest) :
    ∃ ends, c.Passes c.bump ends ∧ ∀ y ∈ ends, isBreak y = true := by
  obtain ⟨ends, rest', hends, hsplit⟩ := exists_lineBreak h rest
  refine ⟨ends, ?_, isBreak_of_lineBreak hends⟩
  rw [bump_lineBreak hends (hrest.trans hsplit)]
  exact ⟨hrest.trans hsplit, rfl, c.position.le_nextLine⟩

theorem position_bump (h : isBreak x = true) (hrest : c.rest = x :: rest) :
    c.bump.position = c.position.nextLine := by
  obtain ⟨ends, rest', hends, hsplit⟩ := exists_lineBreak h rest
  rw [bump_lineBreak hends (hrest.trans hsplit)]

theorem passes_bump (hrest : c.rest = x :: rest) : ∃ text, c.Passes c.bump text := by
  cases h : isBreak x with
  | false => exact ⟨_, passes_bump_char h hrest⟩
  | true =>
    obtain ⟨ends, hpass, -⟩ := passes_bump_break h hrest
    exact ⟨ends, hpass⟩

end Cursor

namespace TextRun

theorem passes_read (offset : Nat) (position : Position) (text : List Char) :
    ∃ passed, Cursor.Passes ⟨text, offset, position⟩ (read offset position text).cursor passed := by
  fun_induction read offset position text
  case case1 | case2 | case3 => exact ⟨[], .refl _⟩
  case case4 offset position e rest c hc ih =>
    obtain ⟨passed, hpass⟩ := ih
    have hfirst : Cursor.Passes ⟨'\\' :: e :: rest, offset, position⟩ ⟨rest, offset + 2, position.along 2⟩
        ['\\', e] :=
      ⟨rfl, by rw [byteLength_cons, byteLength_cons, (plain_of_unescape? hc).2]; rfl, position.le_along 2⟩
    exact ⟨_, hfirst.trans hpass⟩
  case case5 offset position e rest hc ih =>
    obtain ⟨passed, hpass⟩ := ih
    have hfirst : Cursor.Passes ⟨'\\' :: e :: rest, offset, position⟩
        ⟨e :: rest, offset + 1, position.nextColumn⟩ ['\\'] := ⟨rfl, rfl, position.le_nextColumn⟩
    exact ⟨_, hfirst.trans hpass⟩
  case case6 offset position rest ih =>
    obtain ⟨passed, hpass⟩ := ih
    have hfirst : Cursor.Passes ⟨'\r' :: '\n' :: rest, offset, position⟩
        ⟨rest, offset + 2, position.nextLine⟩ ['\r', '\n'] := ⟨rfl, rfl, position.le_nextLine⟩
    exact ⟨_, hfirst.trans hpass⟩
  case case7 offset position c rest _ _ _ _ hbreak ih =>
    obtain ⟨passed, hpass⟩ := ih
    have hfirst : Cursor.Passes ⟨c :: rest, offset, position⟩ ⟨rest, offset + 1, position.nextLine⟩ [c] :=
      ⟨rfl, by rw [byteLength_cons, utf8Size_of_isBreak hbreak]; rfl, position.le_nextLine⟩
    exact ⟨_, hfirst.trans hpass⟩
  case case8 offset position c rest _ _ _ _ _ ih =>
    obtain ⟨passed, hpass⟩ := ih
    have hfirst : Cursor.Passes ⟨c :: rest, offset, position⟩
        ⟨rest, offset + c.utf8Size, position.nextColumn⟩ [c] := ⟨rfl, rfl, position.le_nextColumn⟩
    exact ⟨_, hfirst.trans hpass⟩

theorem cursor_of_text_nil {offset : Nat} {position : Position} {text : List Char}
    (h : (read offset position text).text = []) :
    (read offset position text).cursor = ⟨text, offset, position⟩ := by
  revert h
  fun_cases read offset position text
  case case1 | case2 | case3 => exact fun _ => rfl
  all_goals exact fun h => absurd h (List.cons_ne_nil _ _)

end TextRun

namespace Scanner

open Cursor

variable {s : Scanner}

theorem passes_behindMargin (s : Scanner) : s.cursor.Passes s.behindMargin s.margin :=
  passes_along (List.takeWhile_prefix _)

theorem passes_stretch (s : Scanner) : ∃ text, s.cursor.Passes s.stretch.cursor text :=
  TextRun.passes_read _ _ _

theorem Move.passes {step : Step} (hmove : Move s step) :
    ∃ text, s.cursor.Passes step.next.cursor text := by
  have hmargin := s.passes_behindMargin
  obtain ⟨text, hstretch⟩ := s.passes_stretch
  cases hmove with
  | idle => exact ⟨_, hmargin⟩
  | blank _ _ hrest =>
    obtain ⟨ends, hbump⟩ := passes_bump hrest
    exact ⟨_, hmargin.trans hbump⟩
  | margin _ _ _ _ _ _ hstep => cases hstep <;> exact ⟨_, hmargin⟩
  | lineEnd _ _ hrest | innerBreak _ hrest | openText _ hrest | closePlaceholder _ hrest | strange _ hrest =>
    exact passes_bump hrest
  | pass _ hread | word _ hread => exact ⟨_, passes_along (Lexeme.read?_plain hread).1⟩
  | endInText => exact ⟨_, hstretch⟩
  | closeText _ hstop =>
    obtain ⟨rest, hrest⟩ := TextRun.read_quote _ _ _ hstop
    obtain ⟨ends, hbump⟩ := passes_bump hrest
    exact ⟨_, hstretch.trans hbump⟩
  | openPlaceholder _ hstop =>
    obtain ⟨rest, hrest⟩ := TextRun.read_placeholder _ _ _ hstop
    exact ⟨_, hstretch.trans (passes_placeholder hrest)⟩
  | endInPlaceholder | finish => exact ⟨[], .refl _⟩

theorem Move.position_le {step : Step} (hmove : Move s step) :
    s.cursor.position ≤ step.next.cursor.position := by
  obtain ⟨text, hpass⟩ := hmove.passes
  exact hpass.position

theorem Plain.not_margin (h : s.Plain) (hmodes : s.modes = []) : s.atLineStart = false := by
  rcases h with ⟨-, hline⟩ | ⟨opening, modes, hopen⟩
  · exact hline
  · rw [hmodes] at hopen
    cases hopen

theorem Move.margin_le {step : Step} (hmove : Move s step) (hmodes : s.modes = [])
    (hline : s.atLineStart = true) : s.behindMargin.position ≤ step.next.cursor.position := by
  have hother : ∀ {p : Position}, s.atLineStart = false → s.behindMargin.position ≤ p :=
    fun h => Bool.noConfusion (hline.symm.trans h)
  have hopen : ∀ {mode modes} {p : Position}, s.modes = mode :: modes → s.behindMargin.position ≤ p :=
    fun h => List.noConfusion rfl (heq_of_eq (hmodes.symm.trans h))
  cases hmove with
  | idle => exact le_rfl
  | blank _ _ hrest =>
    obtain ⟨ends, hbump⟩ := passes_bump hrest
    exact hbump.position
  | margin _ _ _ _ _ _ hstep => cases hstep <;> exact le_rfl
  | lineEnd _ h | finish _ h => exact hother h
  | innerBreak h | closePlaceholder h | endInText h | closeText h | openPlaceholder h => exact hopen h
  | openText h | pass h | word h | strange h | endInPlaceholder h => exact hother (h.not_margin hmodes)

theorem Plain.not_text (h : s.Plain) {quote : Position} {emitted : Bool} {modes : List Mode} :
    s.modes ≠ .text quote emitted :: modes := by
  rcases h with ⟨hmodes, -⟩ | ⟨opening, modes, hmodes⟩ <;> simp [hmodes]

theorem Move.stretch_le {step : Step} (hmove : Move s step) {quote : Position} {emitted : Bool}
    {modes : List Mode} (htext : s.modes = .text quote emitted :: modes) :
    s.stretch.cursor.position ≤ step.next.cursor.position := by
  have hother : ∀ {modes'} {p : Position}, s.modes = modes' → modes' ≠ .text quote emitted :: modes →
      s.stretch.cursor.position ≤ p :=
    fun h hne => absurd (h.symm.trans htext) hne
  cases hmove with
  | endInText => exact le_rfl
  | closeText _ hstop =>
    obtain ⟨rest, hrest⟩ := TextRun.read_quote _ _ _ hstop
    obtain ⟨ends, hbump⟩ := passes_bump hrest
    exact hbump.position
  | openPlaceholder => exact Position.le_along _ 2
  | idle h | blank h | margin h | lineEnd h | finish h => exact hother h (List.cons_ne_nil _ _).symm
  | innerBreak h | closePlaceholder h => exact hother h (by simp)
  | openText h | pass h | word h | strange h | endInPlaceholder h => exact absurd htext h.not_text

variable {tokens : List Token} {errors : List ScriptError} {source : String}

/-- Strings are open outside of all others or in a placeholder, and placeholders in a string. -/
inductive Nested : List Mode → Prop
  | nil : Nested []
  | text {quote : Position} {emitted : Bool} {modes : List Mode} (h : Nested modes)
    (hplain : ∀ quote emitted modes', modes ≠ .text quote emitted :: modes') :
    Nested (.text quote emitted :: modes)
  | placeholder {opening quote : Position} {modes : List Mode} (h : Nested (.text quote true :: modes)) :
    Nested (.placeholder opening :: .text quote true :: modes)

/-- What holds of a scan all along: how strings and placeholders are nested, that a string goes on behind
the end of a placeholder, and that the scan is finished at the end of the text only. -/
structure Sound (source : String) (s : Scanner) : Prop where
  nested : Nested s.modes
  resumed : ∀ quote modes, s.modes = .text quote true :: modes →
    ∃ inside, source.toList = inside ++ '}' :: s.cursor.rest
  finished : s.finished = true → s.cursor.rest = [] ∧ s.modes = []

theorem Sound.unfinished (h : Sound source s) (hopen : s.cursor.rest ≠ [] ∨ s.modes ≠ []) :
    s.finished = false := by
  by_contra hfinished
  obtain ⟨hrest, hmodes⟩ := h.finished (by simpa using hfinished)
  exact hopen.elim (absurd hrest) (absurd hmodes)

theorem Move.sound {step : Step} (hmove : Move s step) (h : Sound source s) (hs : s.finished = false)
    (hlies : s.cursor.Lies source) : Sound source step.next := by
  have hunfinished : ∀ {P : Prop}, s.finished = true → P := fun h => Bool.noConfusion (hs.symm.trans h)
  have hnone : ∀ {cursor : Cursor} {quote modes}, ([] : List Mode) = .text quote true :: modes →
      ∃ inside, source.toList = inside ++ '}' :: cursor.rest := nofun
  cases hmove with
  | idle hmodes | blank hmodes | lineEnd hmodes =>
    exact ⟨h.nested, fun _ _ hopen => hnone (hmodes.symm.trans hopen), hunfinished⟩
  | margin hmodes _ _ _ _ _ hstep =>
    cases hstep <;> exact ⟨h.nested, fun _ _ hopen => hnone (hmodes.symm.trans hopen), hunfinished⟩
  | innerBreak hmodes => exact ⟨h.nested, fun _ _ hopen => by simp [hmodes] at hopen, hunfinished⟩
  | openText hplain =>
    refine ⟨.text h.nested fun _ _ _ => hplain.not_text, fun _ _ hopen => ?_, hunfinished⟩
    cases hopen
  | closePlaceholder hmodes hrest =>
    have hnested := h.nested
    rw [hmodes] at hnested
    cases hnested with
    | placeholder hnested =>
      refine ⟨hnested, fun _ _ _ => ?_, hunfinished⟩
      obtain ⟨passed, shown, before, start, hplaced⟩ := hlies
      refine ⟨passed, ?_⟩
      rw [hplaced.text, Cursor.bump_char rfl hrest, hrest]
  | pass hplain | word hplain | strange hplain =>
    exact ⟨h.nested, fun _ _ hopen => absurd hopen hplain.not_text, hunfinished⟩
  | endInText | endInPlaceholder => exact ⟨.nil, fun _ _ => hnone, hunfinished⟩
  | closeText hmodes =>
    have hnested := h.nested
    rw [hmodes] at hnested
    cases hnested with
    | text hnested hplain => exact ⟨hnested, fun _ _ hopen => absurd hopen (hplain _ _ _), hunfinished⟩
  | openPlaceholder hmodes =>
    have hnested := h.nested
    rw [hmodes] at hnested
    cases hnested with
    | text hnested hplain =>
      refine ⟨.placeholder (.text hnested hplain), fun _ _ hopen => ?_, hunfinished⟩
      cases hopen
  | finish hmodes _ hrest =>
    exact ⟨h.nested, fun _ _ hopen => hnone (hmodes.symm.trans hopen), fun _ => ⟨hrest, hmodes⟩⟩

theorem Scanned.sound (h : Scanned source tokens errors s) : Sound source s := by
  induction h with
  | start => exact ⟨.nil, nofun, nofun⟩
  | step h hs ih => exact (move_step _).sound ih hs h.lies

/-- What a scan has marked does not lie behind the place where it stands. -/
theorem Scanned.marks_le (h : Scanned source tokens errors s) :
    (∀ t ∈ tokens, t.span.start ≤ s.cursor.position ∧ t.span.stop ≤ s.cursor.position) ∧
      ∀ m ∈ s.modes, m.position ≤ s.cursor.position := by
  induction h with
  | start => simp [ofText]
  | @step tokens errors s h hs ih =>
    obtain ⟨htokens, hmodes⟩ := ih
    have hmove := move_step s
    have hnext := hmove.position_le
    obtain ⟨htokens', -, hmodes'⟩ := hmove.marks (P := (· ≤ s.step.next.cursor.position)) hnext le_rfl
      hmove.margin_le (fun _ _ _ => hmove.stretch_le) fun m hm => (hmodes m hm).trans hnext
    refine ⟨List.forall_mem_append.2 ⟨fun t ht => ?_, htokens'⟩, hmodes'⟩
    exact ⟨(htokens t ht).1.trans hnext, (htokens t ht).2.trans hnext⟩

/-- What a scan still marks does not lie before the place where it stands, unless it is inside of a string
or a placeholder that was opened before. -/
theorem le_marks_run {first : Position} (hfirst : first ≤ s.cursor.position)
    (hmodes : ∀ m ∈ s.modes, first ≤ m.position) :
    (∀ t ∈ s.run.1, first ≤ t.span.start ∧ first ≤ t.span.stop) ∧ ∀ e ∈ s.run.2, first ≤ e.position := by
  fun_induction Scanner.run s with
  | case1 => simp
  | case2 s hfinished after ih =>
    have hmove := move_step s
    have hnext := hfirst.trans hmove.position_le
    obtain ⟨text, hstretch⟩ := s.passes_stretch
    obtain ⟨htokens, herror, hmodes'⟩ := hmove.marks (P := (first ≤ ·)) hfirst hnext
      (fun _ _ => hfirst.trans s.passes_behindMargin.position)
      (fun _ _ _ _ => hfirst.trans hstretch.position) hmodes
    obtain ⟨hafter, hafter'⟩ := ih hnext hmodes'
    exact ⟨List.forall_mem_append.2 ⟨htokens, hafter⟩,
      List.forall_mem_append.2 ⟨by simpa using herror, hafter'⟩⟩

end Scanner

end DialogueScript
