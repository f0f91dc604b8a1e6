import Mathlib
import DialogueScript.Double
import DialogueScript.Proofs.ScanSteps

namespace DialogueScript

@[simp] theorem byteLength_nil : byteLength [] = 0 := rfl

@[simp] theorem byteLength_cons (c : Char) (text : List Char) :
    byteLength (c :: text) = c.utf8Size + byteLength text := rfl

@[simp] theorem byteLength_append (a b : List Char) :
    byteLength (a ++ b) = byteLength a + byteLength b := by
  induction a with
  | nil => simp
  | cons c a ih => simp [ih, Nat.add_assoc]

theorem isBreak_iff {c : Char} : isBreak c = true ↔ c = '\n' ∨ c = '\r' := by simp [isBreak]

/-- `ends` is one line break in front of `rest`. -/
inductive LineBreak : List Char → List Char → Prop
  | lineFeed (rest : List Char) : LineBreak ['\n'] rest
  | both (rest : List Char) : LineBreak ['\r', '\n'] rest
  | carriageReturn {rest : List Char} (h : rest.head? ≠ some '\n') : LineBreak ['\r'] rest

theorem lineBreak_singleton {c : Char} {rest : List Char} (h : isBreak c = true)
    (hboth : ∀ k, c = '\r' → rest ≠ '\n' :: k) : LineBreak [c] rest := by
  obtain rfl | rfl := isBreak_iff.1 h
  · exact .lineFeed rest
  · refine .carriageReturn fun hhead => ?_
    obtain ⟨k, hrest⟩ := List.head?_eq_some_iff.1 hhead
    exact hboth k rfl hrest

theorem linesFrom_eq (offset : Nat) (text : List Char) : linesFrom offset text =
    (⟨offset, (linesFrom offset text).1.text⟩, (linesFrom offset text).2) := by
  fun_cases linesFrom offset text <;> rfl

theorem linesFrom_break {ends rest : List Char} (h : LineBreak ends rest) (offset : Nat) :
    linesFrom offset (ends ++ rest) = (⟨offset, []⟩,
      (linesFrom (offset + byteLength ends) rest).1 :: (linesFrom (offset + byteLength ends) rest).2) := by
  cases h with
  | lineFeed => rw [List.singleton_append, linesFrom]; rfl
  | both => rw [List.cons_append, List.singleton_append, linesFrom]; rfl
  | carriageReturn h =>
    rw [List.singleton_append, linesFrom]
    · rfl
    · rintro k rfl
      exact h rfl

theorem linesFrom_cons {c : Char} (h : isBreak c = false) (offset : Nat) (rest : List Char) :
    linesFrom offset (c :: rest) = (⟨offset, c :: (linesFrom (offset + c.utf8Size) rest).1.text⟩,
      (linesFrom (offset + c.utf8Size) rest).2) := by
  obtain ⟨hfeed, hreturn⟩ : c ≠ '\n' ∧ c ≠ '\r' := by simpa [isBreak] using h
  rw [linesFrom]
  · exact fun _ hc _ => hreturn hc
  · exact hfeed
  · exact hreturn

theorem linesFrom_append {text : List Char} (h : ∀ c ∈ text, isBreak c = false) (offset : Nat)
    (rest : List Char) :
    linesFrom offset (text ++ rest) =
      (⟨offset, text ++ (linesFrom (offset + byteLength text) rest).1.text⟩,
        (linesFrom (offset + byteLength text) rest).2) := by
  induction text generalizing offset with
  | nil => exact linesFrom_eq offset rest
  | cons c text ih =>
    rw [List.cons_append, linesFrom_cons (h c (by simp)), ih fun d hd => h d (by simp [hd]),
      byteLength_cons, Nat.add_assoc, List.cons_append]

theorem takeWhile_linesFrom {p : Char → Bool} (hp : ∀ c, isBreak c = true → p c = false) (offset : Nat)
    (text : List Char) : (linesFrom offset text).1.text.takeWhile p = text.takeWhile p := by
  fun_induction linesFrom offset text with
  | case1 => rfl
  | case2 | case4 => simp [hp '\r' rfl]
  | case3 => simp [hp '\n' rfl]
  | case5 offset c rest _ _ _ line ih =>
    simp only [List.takeWhile_cons]
    rw [ih]

theorem plain_of_mem_linesFrom (offset : Nat) (text : List Char) :
    ∀ line ∈ (linesFrom offset text).1 :: (linesFrom offset text).2, ∀ c ∈ line.text, isBreak c = false := by
  fun_induction linesFrom offset text with
  | case1 offset => exact List.forall_mem_singleton.2 (List.forall_mem_nil _)
  | case2 offset rest _ ih | case3 offset rest _ ih | case4 offset rest _ _ ih =>
    exact List.forall_mem_cons.2 ⟨List.forall_mem_nil _, ih⟩
  | case5 offset c rest _ hfeed hreturn _ ih =>
    obtain ⟨hfirst, hrest⟩ := List.forall_mem_cons.1 ih
    have hc : isBreak c = false := by
      rw [Bool.eq_false_iff, Ne, isBreak_iff]
      exact not_or.2 ⟨hfeed, hreturn⟩
    exact List.forall_mem_cons.2 ⟨List.forall_mem_cons.2 ⟨hc, hfirst⟩, hrest⟩

theorem mem_lines_of_line? {source : String} {number : Nat} {line : TextLine}
    (h : line? source number = some line) : line ∈ lines source := by
  unfold line? at h
  split at h
  · cases h
  · exact List.mem_of_getElem? h

namespace Cursor

/-- `c` stands in `source` behind `passed`, at the end of `shown` on the line that begins at byte
`start`; `before` are the lines before that one. -/
structure Placed (source : String) (c : Cursor) (passed shown : List Char) (before : List TextLine)
    (start : Nat) : Prop where
  text : source.toList = passed ++ c.rest
  offset : c.offset = byteLength passed
  position : c.position = ⟨before.length + 1, shown.length + 1⟩
  lines : lines source = before ++
    ⟨start, shown ++ (linesFrom c.offset c.rest).1.text⟩ :: (linesFrom c.offset c.rest).2
  start : start + byteLength shown = c.offset
  counted : before.length + shown.length ≤ passed.length

/-- The position of `c` and its byte offset are the same place in `source`. -/
def Lies (source : String) (c : Cursor) : Prop :=
  ∃ passed shown before start, c.Placed source passed shown before start

variable {source : String} {c : Cursor}

theorem lies_ofText (source : String) : (ofText source).Lies source := by
  refine ⟨[], [], [], 0, rfl, rfl, rfl, ?_, rfl, Nat.le_refl 0⟩
  unfold DialogueScript.lines
  rw [linesFrom_eq]
  rfl

/-- Passing one line break leads to the start of the next line. -/
theorem Lies.passBreak (h : c.Lies source) {ends rest : List Char} (hends : LineBreak ends rest)
    (hrest : c.rest = ends ++ rest) :
    Lies source ⟨rest, c.offset + byteLength ends, c.position.nextLine⟩ := by
  obtain ⟨passed, shown, before, start, h⟩ := h
  have hends' : 0 < ends.length := by cases hends <;> simp
  have htext := h.text
  have hlines := h.lines
  have hcounted := h.counted
  rw [hrest, ← List.append_assoc] at htext
  rw [hrest, linesFrom_break hends, List.append_nil, linesFrom_eq, List.append_cons] at hlines
  refine ⟨passed ++ ends, [], before ++ [⟨start, shown⟩], _, htext, ?_, ?_, hlines, rfl, ?_⟩
  · rw [byteLength_append, h.offset]
  · simp [h.position, Position.nextLine]
  · simp only [List.length_append, List.length_singleton, List.length_nil]
    omega

/-- Passing characters of one line leads along that line. -/
theorem Lies.passText (h : c.Lies source) (text : List Char) {rest : List Char}
    (hplain : ∀ x ∈ text, isBreak x = false) (hrest : c.rest = text ++ rest) :
    Lies source ⟨rest, c.offset + byteLength text, c.position.along text.length⟩ := by
  obtain ⟨passed, shown, before, start, h⟩ := h
  have htext := h.text
  have hlines := h.lines
  have hstart := h.start
  have hcounted := h.counted
  rw [hrest, ← List.append_assoc] at htext
  rw [hrest, linesFrom_append hplain, ← List.append_assoc] at hlines
  refine ⟨passed ++ text, shown ++ text, before, start, htext, ?_, ?_, hlines, ?_, ?_⟩
  · rw [byteLength_append, h.offset]
  · rw [h.position, List.length_append]
    simp only [Position.along, Position.mk.injEq, true_and]
    omega
  · rw [byteLength_append, ← Nat.add_assoc, hstart]
  · simp only [List.length_append]
    omega

theorem Placed.line?_eq {passed shown : List Char} {before : List TextLine} {start : Nat}
    (h : c.Placed source passed shown before start) :
    line? source c.position.line = some ⟨start, shown ++ (linesFrom c.offset c.rest).1.text⟩ := by
  rw [h.position, line?, if_neg (Nat.succ_ne_zero _), h.lines, Nat.add_sub_cancel,
    List.getElem?_append_right (Nat.le_refl _), Nat.sub_self]
  rfl

theorem Lies.byteOffset_eq (h : c.Lies source) : byteOffset source c.position = some c.offset := by
  obtain ⟨passed, shown, before, start, h⟩ := h
  rw [byteOffset, h.line?_eq, Option.map_some, h.position, Nat.add_sub_cancel, List.take_left, h.start]

theorem Lies.line?_eq (h : c.Lies source) (hcolumn : c.position.column = 1) :
    line? source c.position.line = some ⟨c.offset, (linesFrom c.offset c.rest).1.text⟩ := by
  obtain ⟨passed, shown, before, start, h⟩ := h
  have hshown : shown = [] := by
    rw [h.position] at hcolumn
    exact List.length_eq_zero_iff.1 (Nat.succ.inj hcolumn)
  have hstart := h.start
  rw [h.line?_eq, ← hstart, hshown]
  rfl

theorem Lies.counted (h : c.Lies source) :
    c.position.line + c.position.column ≤ source.length + 2 := by
  obtain ⟨passed, shown, before, start, h⟩ := h
  have hcounted := h.counted
  have hlength := congrArg List.length h.text
  rw [String.length_toList, List.length_append] at hlength
  rw [h.position]
  dsimp only
  omega

theorem Lies.along (h : c.Lies source) (text : List Char) (hfirst : text <+: c.rest)
    (hplain : ∀ x ∈ text, isBreak x = false) : (c.along text.length).Lies source := by
  obtain ⟨rest, hrest⟩ := hfirst
  have hpass := h.passText text hplain hrest.symm
  unfold Cursor.along
  rwa [← hrest, List.drop_left, List.take_left]

theorem Lies.bump (h : c.Lies source) : c.bump.Lies source := by
  unfold Cursor.bump
  split
  · exact h
  · rename_i rest hrest
    exact h.passBreak (.both rest) hrest
  · rename_i x rest hboth hrest
    split
    · rename_i hbreak
      refine h.passBreak (lineBreak_singleton hbreak ?_) hrest
      rintro k rfl rfl
      exact hboth k rfl rfl
    · rename_i hbreak
      exact h.passText [x] (by simpa using hbreak) hrest

end Cursor

theorem utf8Size_of_isBreak {c : Char} (h : isBreak c = true) : c.utf8Size = 1 := by
  rcases isBreak_iff.1 h with rfl | rfl <;> rfl

theorem TextRun.plain_of_unescape? {e c : Char} (h : unescape? e = some c) :
    isBreak e = false ∧ e.utf8Size = 1 := by
  unfold unescape? at h
  split_ifs at h <;> subst_vars <;> decide

theorem TextRun.lies_read {source : String} {offset : Nat} {position : Position} {text : List Char}
    (h : Cursor.Lies source ⟨text, offset, position⟩) : (read offset position text).cursor.Lies source := by
  fun_induction read offset position text
  case case1 | case2 | case3 => exact h
  case case4 e rest c hc ih =>
    obtain ⟨hplain, hsize⟩ := plain_of_unescape? hc
    have hpass := h.passText ['\\', e] (by simpa using ⟨rfl, hplain⟩) rfl
    rw [byteLength_cons, byteLength_cons, hsize] at hpass
    exact ih hpass
  case case5 e rest hc ih => exact ih (h.passText ['\\'] (by simp [isBreak]) rfl)
  case case6 rest ih => exact ih (h.passBreak (.both rest) rfl)
  case case7 c rest _ _ _ hboth hbreak ih =>
    have hpass := h.passBreak (lineBreak_singleton hbreak hboth) rfl
    rw [byteLength_cons, utf8Size_of_isBreak hbreak] at hpass
    exact ih hpass
  case case8 c rest _ _ _ _ hbreak ih =>
    exact ih (h.passText [c] (by simpa using hbreak) rfl)

namespace Lexeme

theorem not_isBreak_of {p : Char → Bool} (hp : p '\n' = false ∧ p '\r' = false) {c : Char}
    (h : p c = true) : isBreak c = false := by
  rw [Bool.eq_false_iff]
  intro hbreak
  rcases isBreak_iff.1 hbreak with rfl | rfl
  · exact Bool.false_ne_true (hp.1.symm.trans h)
  · exact Bool.false_ne_true (hp.2.symm.trans h)

theorem numeral_begins (text : List Char) : numeral text <+: text := by
  have hsplit := List.takeWhile_append_dropWhile (p := Char.isDigit) (l := text)
  unfold numeral
  conv_rhs => rw [← hsplit]
  rw [List.prefix_append_right_inj]
  split
  · rename_i rest hrest
    split
    · exact List.nil_prefix
    · rw [hrest, List.cons_prefix_cons]
      exact ⟨rfl, List.takeWhile_prefix _⟩
  · exact List.nil_prefix

theorem numeral_plain {text : List Char} : ∀ c ∈ numeral text, isBreak c = false := by
  have hdigits : ∀ text : List Char, ∀ c ∈ text.takeWhile Char.isDigit, isBreak c = false :=
    fun _ _ hc => not_isBreak_of (by decide) (List.mem_takeWhile_imp hc)
  unfold numeral
  intro c hc
  rcases List.mem_append.1 hc with hc | hc
  · exact hdigits text c hc
  · split at hc
    · rename_i rest hrest
      split at hc
      · cases hc
      · rcases List.mem_cons.1 hc with rfl | hc
        · decide
        · exact hdigits rest c hc
    · cases hc

theorem read?_plain {text : List Char} {lexeme : Lexeme} (h : read? text = some lexeme) :
    lexeme.text <+: text ∧ ∀ c ∈ lexeme.text, isBreak c = false := by
  have hmarks : ∀ m ∈ TokenKind.marks, m.1.toList.all (!isBreak ·) = true := by decide
  cases reads_of_read? h with
  | word kind =>
    exact ⟨List.takeWhile_prefix _, fun d hd => not_isBreak_of (by decide) (List.mem_takeWhile_imp hd)⟩
  | numeral => exact ⟨numeral_begins text, numeral_plain⟩
  | blanks =>
    exact ⟨List.takeWhile_prefix _, fun d hd => not_isBreak_of (by decide) (List.mem_takeWhile_imp hd)⟩
  | comment => exact ⟨List.takeWhile_prefix _, fun d hd => by simpa using List.mem_takeWhile_imp hd⟩
  | mark hm hfirst => exact ⟨hfirst, by simpa using hmarks _ hm⟩

end Lexeme

namespace Scanner

/-- The places at which the scan of `source` stands: between its steps, behind the margin of a line,
and at the end of a stretch of string text. -/
inductive Visits (source : String) : Cursor → Prop
  | between {tokens : List Token} {errors : List ScriptError} {s : Scanner}
    (h : Scanned source tokens errors s) : Visits source s.cursor
  | behindMargin {tokens : List Token} {errors : List ScriptError} {s : Scanner}
    (h : Scanned source tokens errors s) (hmodes : s.modes = []) (hline : s.atLineStart = true) :
    Visits source s.behindMargin
  | behindText {tokens : List Token} {errors : List ScriptError} {s : Scanner} {quote : Position}
    {emitted : Bool} {modes : List Mode} (h : Scanned source tokens errors s)
    (hmodes : s.modes = .text quote emitted :: modes) : Visits source s.stretch.cursor

variable {source : String} {s : Scanner}

theorem lies_behindMargin (h : s.cursor.Lies source) : s.behindMargin.Lies source :=
  h.along _ (List.takeWhile_prefix _) fun _ hc =>
    Lexeme.not_isBreak_of (by decide) (List.mem_takeWhile_imp hc)

theorem lies_stretch (h : s.cursor.Lies source) : s.stretch.cursor.Lies source :=
  TextRun.lies_read h

theorem Move.lies {step : Step} (hmove : Move s step) (h : s.cursor.Lies source) :
    step.next.cursor.Lies source := by
  have hmargin := lies_behindMargin h
  have hstretch := lies_stretch h
  cases hmove with
  | idle => exact hmargin
  | blank => exact hmargin.bump
  | margin _ _ _ _ _ _ hstep => cases hstep <;> exact hmargin
  | lineEnd | innerBreak | openText | closePlaceholder | strange => exact h.bump
  | pass _ hread | word _ hread => exact h.along _ (Lexeme.read?_plain hread).1 (Lexeme.read?_plain hread).2
  | endInText => exact hstretch
  | closeText => exact hstretch.bump
  | openPlaceholder _ hstop =>
    obtain ⟨rest, hrest⟩ := TextRun.read_placeholder _ _ _ hstop
    exact hstretch.along ['#', '{'] ⟨rest, hrest.symm⟩ (by simp [isBreak])
  | endInPlaceholder | finish => exact h

theorem Scanned.lies {tokens : List Token} {errors : List ScriptError}
    (h : Scanned source tokens errors s) : s.cursor.Lies source := by
  induction h with
  | start => exact Cursor.lies_ofText source
  | step h hs ih => exact (move_step _).lies ih

/-- Wherever the scan stands, its position maps back to the byte at which it stands. -/
theorem Visits.lies {c : Cursor} (h : Visits source c) : c.Lies source := by
  cases h with
  | between h => exact h.lies
  | behindMargin h => exact lies_behindMargin h.lies
  | behindText h => exact lies_stretch h.lies

end Scanner

def Mode.position : Mode → Position
  | .text quote _ => quote
  | .placeholder opening => opening

section Marks

variable {P : Position → Prop} {p : Position}

theorem spans_lineEnd (h : P p) (content : Bool) :
    ∀ t ∈ if content then [Token.mk .newline "\n" (.point p)] else [], P t.span.start ∧ P t.span.stop := by
  cases content with
  | false => simp
  | true => simpa using ⟨h, h⟩

theorem spans_dedents (h : P p) (levels : List Nat) :
    ∀ t ∈ levels.map fun _ => Token.mk .dedent "" (.point p), P t.span.start ∧ P t.span.stop := by
  intro t ht
  obtain ⟨_, -, rfl⟩ := List.mem_map.1 ht
  exact ⟨h, h⟩

/-- What a step marks with a position, it marks with where it began, where it ended, a place that it
passed, or where an open string or placeholder began. -/
theorem Scanner.Move.marks {s : Scanner} {step : Step} (hmove : Move s step)
    (hhere : P s.cursor.position) (hnext : P step.next.cursor.position)
    (hmargin : s.modes = [] → s.atLineStart = true → P s.behindMargin.position)
    (htext : ∀ quote emitted modes, s.modes = .text quote emitted :: modes → P s.stretch.cursor.position)
    (hmodes : ∀ m ∈ s.modes, P m.position) :
    (∀ t ∈ step.tokens, P t.span.start ∧ P t.span.stop) ∧ (∀ e ∈ step.error, P e.position) ∧
      ∀ m ∈ step.next.modes, P m.position := by
  -- the modes around the innermost one, and where the next token of a string begins
  have houter : ∀ {mode modes}, s.modes = mode :: modes → ∀ m ∈ modes, P m.position :=
    fun hopen m hm => hmodes m (hopen ▸ List.mem_cons_of_mem _ hm)
  have hquote : ∀ {quote emitted modes}, s.modes = .text quote emitted :: modes → P quote :=
    fun hopen => hmodes (.text _ _) (hopen ▸ List.mem_cons_self)
  have hstart : ∀ {quote emitted modes}, s.modes = .text quote emitted :: modes →
      P (if emitted then s.cursor.position else quote) := by
    intro quote emitted modes hopen
    split
    · exact hhere
    · exact hquote hopen
  cases hmove with
  | idle | blank | innerBreak | pass => exact ⟨by simp, by simp, hmodes⟩
  | margin hempty hline _ _ _ _ hstep =>
    have hbehind := hmargin hempty hline
    cases hstep with
    | refuse => exact ⟨by simp, by simpa using hhere, hmodes⟩
    | deeper => exact ⟨by simpa using ⟨hhere, hbehind⟩, by simp, hmodes⟩
    | back => exact ⟨spans_dedents hbehind _, by simp, hmodes⟩
    | between => exact ⟨spans_dedents hbehind _, by simpa using hhere, hmodes⟩
  | lineEnd => exact ⟨spans_lineEnd hhere _, by simp, hmodes⟩
  | openText => exact ⟨by simp, by simp, List.forall_mem_cons.2 ⟨hhere, hmodes⟩⟩
  | closePlaceholder hopen => exact ⟨by simpa using ⟨hhere, hnext⟩, by simp, houter hopen⟩
  | word => exact ⟨by simpa using ⟨hhere, hnext⟩, by simp, hmodes⟩
  | strange => exact ⟨by simp, by simpa using hhere, hmodes⟩
  | endInText hopen => exact ⟨by simp, by simpa using hquote hopen, by simp⟩
  | closeText hopen =>
    refine ⟨?_, by simp, houter hopen⟩
    split
    · simp
    · simpa using ⟨hstart hopen, hnext⟩
  | openPlaceholder hopen =>
    have hbehind := htext _ _ _ hopen
    refine ⟨?_, by simp, ?_⟩
    · split
      · simpa using ⟨hbehind, hnext⟩
      · simpa using ⟨⟨hstart hopen, hbehind⟩, hbehind, hnext⟩
    · exact List.forall_mem_cons.2 ⟨hbehind, List.forall_mem_cons.2 ⟨hquote hopen, houter hopen⟩⟩
  | endInPlaceholder _ _ hopen => exact ⟨by simp, by simpa [Mode.position] using hmodes _ hopen, by simp⟩
  | finish =>
    refine ⟨?_, by simp, hmodes⟩
    simp only [List.forall_mem_append]
    exact ⟨⟨spans_lineEnd hhere _, spans_dedents hhere _⟩, by simpa [Token.endOfFile] using ⟨hhere, hhere⟩⟩

end Marks

/-- The byte at which `c` stands in `source` is the one to which its position maps back. Neither the
line nor the column takes more than 32 bits. -/
structure Cursor.Exact (source : String) (c : Cursor) : Prop where
  byte : ∃ passed, source.toList = passed ++ c.rest ∧ c.offset = byteLength passed
  position : byteOffset source c.position = some c.offset
  line : c.position.line < 2 ^ 32
  column : c.position.column < 2 ^ 32

theorem Cursor.Lies.exact {source : String} {c : Cursor} (h : c.Lies source)
    (hlength : source.length < 2 ^ 31) : c.Exact source := by
  have hcounted := h.counted
  refine ⟨?_, h.byteOffset_eq, ?_, ?_⟩
  · obtain ⟨passed, shown, before, start, h⟩ := h
    exact ⟨passed, h.text, h.offset⟩
  · omega
  · omega

namespace Scanner

variable {source : String} {s : Scanner} {tokens : List Token} {errors : List ScriptError}

/-- At `p` the scan stands at some time, at the byte to which `p` maps back. -/
def StoodAt (source : String) (p : Position) : Prop :=
  ∃ c, Visits source c ∧ c.Exact source ∧ c.position = p

theorem Visits.stoodAt {c : Cursor} (h : Visits source c) (hlength : source.length < 2 ^ 31) :
    StoodAt source c.position :=
  ⟨c, h, h.lies.exact hlength, rfl⟩

theorem Scanned.marks {P : Position → Prop} (h : Scanned source tokens errors s)
    (hvisits : ∀ c, Visits source c → P c.position) :
    (∀ t ∈ tokens, P t.span.start ∧ P t.span.stop) ∧ (∀ e ∈ errors, P e.position) ∧
      ∀ m ∈ s.modes, P m.position := by
  induction h with
  | start => simp [ofText]
  | @step tokens errors s h hs ih =>
    obtain ⟨htokens, herrors, hmodes⟩ := ih
    obtain ⟨htokens', herrors', hmodes'⟩ := (move_step s).marks
      (hvisits _ (.between h)) (hvisits _ (.between (h.step hs)))
      (fun hempty hline => hvisits _ (.behindMargin h hempty hline))
      (fun _ _ _ hopen => hvisits _ (.behindText h hopen)) hmodes
    exact ⟨List.forall_mem_append.2 ⟨htokens, htokens'⟩,
      List.forall_mem_append.2 ⟨herrors, by simpa using herrors'⟩, hmodes'⟩

theorem Scanned.stoodAt (h : Scanned source tokens errors s) (hlength : source.length < 2 ^ 31) :
    (∀ t ∈ tokens, StoodAt source t.span.start ∧ StoodAt source t.span.stop) ∧
      (∀ e ∈ errors, StoodAt source e.position) ∧ ∀ m ∈ s.modes, StoodAt source m.position :=
  h.marks fun _ hvisits => hvisits.stoodAt hlength

/-- The two ways of counting places agree all through the scan of a text, also behind errors: the
position of the scanner maps back to the byte at which it stands, and so do both ends of every token and
the position of every error. -/
theorem positions_exact {source : String} (hlength : source.length < 2 ^ 31) :
    (∀ tokens errors s, Scanned source tokens errors s → s.cursor.Exact source ∧
      (∀ t ∈ tokens, StoodAt source t.span.start ∧ StoodAt source t.span.stop) ∧
      ∀ e ∈ errors, StoodAt source e.position) ∧
    (∀ tokens, lex source = .ok tokens →
      ∀ t ∈ tokens, StoodAt source t.span.start ∧ StoodAt source t.span.stop) ∧
    ∀ errors, lex source = .error errors → ∀ e ∈ errors, StoodAt source e.position := by
  refine ⟨fun tokens errors s h => ?_, fun tokens hlex => ?_, fun errors hlex => ?_⟩
  · obtain ⟨htokens, herrors, -⟩ := h.stoodAt hlength
    exact ⟨h.lies.exact hlength, htokens, herrors⟩
  · obtain ⟨s, h, -⟩ := scanned_of_lex hlex
    exact (h.stoodAt hlength).1
  · obtain ⟨tokens, s, h, -⟩ := scanned_of_lex_error hlex
    exact (h.stoodAt hlength).2.1

/-- Three lines, the first break within a string, and the last line with an error. -/
def mixedBreaks : String := "say \"é\r\n#\x7bx\x7d\"\r$"

theorem positions_exact_mixedBreaks : mixedBreaks.length < 2 ^ 31 ∧
    lex mixedBreaks = .error [⟨.unexpectedCharacter '$', ⟨3, 1⟩⟩] ∧
    StoodAt mixedBreaks ⟨3, 1⟩ ∧ byteOffset mixedBreaks ⟨3, 1⟩ = some 15 ∧
    ∃ tokens errors s, Scanned mixedBreaks tokens errors s ∧ s.cursor.Exact mixedBreaks ∧
      ⟨.string, "é\n", ⟨⟨1, 5⟩, ⟨2, 1⟩⟩⟩ ∈ tokens ∧
      ∀ t ∈ tokens, StoodAt mixedBreaks t.span.start ∧ StoodAt mixedBreaks t.span.stop := by
  have hlength : mixedBreaks.length < 2 ^ 31 := by decide
  have hlex : lex mixedBreaks = .error [⟨.unexpectedCharacter '$', ⟨3, 1⟩⟩] := by cbv
  have hstring : (ofText mixedBreaks).run.1[1]? = some ⟨.string, "é\n", ⟨⟨1, 5⟩, ⟨2, 1⟩⟩⟩ := by cbv
  obtain ⟨hscan, -, herrors⟩ := positions_exact hlength
  have herror := herrors _ hlex _ (List.mem_singleton_self _)
  obtain ⟨s, h, -⟩ := (@Scanned.start mixedBreaks).run
  obtain ⟨hhere, htokens, -⟩ := hscan _ _ s h
  exact ⟨hlength, hlex, herror, by cbv, _, _, s, h, hhere, List.mem_of_getElem? hstring, htokens⟩

end Scanner

end DialogueScript
