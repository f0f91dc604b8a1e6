import DialogueScript.Scanner

namespace DialogueScript

namespace TextRun

theorem read_rest_length_le (offset : Nat) (position : Position) (text : List Char) :
    (read offset position text).cursor.rest.length ≤ text.length := by
  fun_induction read offset position text <;> simp_all [cons] <;> omega

theorem read_quote (offset : Nat) (position : Position) (text : List Char)
    (h : (read offset position text).stop = .quote) :
    ∃ rest, (read offset position text).cursor.rest = '"' :: rest := by
  fun_induction read offset position text <;> simp_all [cons]

theorem read_placeholder (offset : Nat) (position : Position) (text : List Char)
    (h : (read offset position text).stop = .placeholder) :
    ∃ rest, (read offset position text).cursor.rest = '#' :: '{' :: rest := by
  fun_induction read offset position text <;> simp_all [cons]

end TextRun

theorem TokenKind.mark_ne_nil : ∀ m ∈ marks, m.1.toList ≠ [] := by decide

theorem Lexeme.read?_length_pos {text : List Char} {lexeme : Lexeme} (h : read? text = some lexeme) :
    0 < lexeme.text.length := by
  unfold read? at h
  split at h
  · simp at h
  · rename_i c rest
    split at h
    · rename_i hc
      cases h
      simp [List.takeWhile_cons, isWordChar, isWordStart, Char.isAlphanum] at hc ⊢
      rcases hc with hc | hc <;> simp [hc]
    · split at h
      · rename_i hc
        cases h
        simp [numeral, hc]
      · split at h
        · rename_i hc
          cases h
          simp [hc]
        · split at h
          · rename_i hc
            cases h
            subst hc
            simp [isBreak]
          · obtain ⟨m, hm, rfl⟩ := Option.map_eq_some_iff.1 h
            exact List.length_pos_iff.2 (TokenKind.mark_ne_nil m (List.mem_of_find?_eq_some hm))

namespace Scanner

/-- A bound on the steps that a scan still takes. -/
def size (s : Scanner) : Nat :=
  4 * s.cursor.rest.length + (if s.modes.isEmpty then 0 else 2) + s.atLineStart.toNat +
    (!s.finished).toNat

theorem size_foldl_note (tokens : List Token) (s : Scanner) :
    (tokens.foldl note s).size = s.size := by
  induction tokens generalizing s with
  | nil => rfl
  | cons t ts ih =>
    rw [List.foldl_cons, ih]
    unfold note
    split <;> rfl

theorem size_silent (s : Scanner) : (Step.silent s).next.size = s.size := rfl

theorem size_emit (tokens : List Token) (s : Scanner) : (Step.emit tokens s).next.size = s.size :=
  size_foldl_note tokens s

theorem size_fail (tokens : List Token) (cause : ErrorCause) (p : Position) (s : Scanner) :
    (Step.fail tokens cause p s).next.size = s.size :=
  size_foldl_note tokens s

theorem size_changeLevel (s : Scanner) (start : Position) (width : Nat) :
    (s.changeLevel start width).next.size = s.size := by
  unfold changeLevel
  dsimp only
  split
  · rw [size_emit]; rfl
  · split
    · rw [size_emit]; rfl
    · rw [size_fail]; rfl

theorem size_indentTo (s : Scanner) (start : Position) (run : List Char) :
    (s.indentTo start run).next.size = s.size := by
  unfold indentTo
  dsimp only
  split
  · rfl
  · split
    · exact size_changeLevel ..
    · split
      · rw [size_changeLevel]; rfl
      · rfl

theorem size_scanIndentation_lt (s : Scanner) (h : s.atLineStart = true) :
    s.scanIndentation.next.size < s.size := by
  have hle := s.cursor.along_rest_length (s.cursor.rest.takeWhile Lexeme.isIndentChar).length
  have hline : s.atLineStart.toNat = 1 := by rw [h]; rfl
  unfold scanIndentation
  dsimp only
  split
  · rw [size_silent]
    simp only [size, hline, hle, Bool.toNat_false]
    omega
  · rename_i c rest hrest
    split
    · rw [size_silent]
      simp only [size, hline, hle, Bool.toNat_false]
      omega
    · split
      · have hlt := Cursor.bump_rest_length_lt
          (s.cursor.along (s.cursor.rest.takeWhile Lexeme.isIndentChar).length) (by simp [hrest])
        rw [size_silent]
        simp only [size, hline, Bool.toNat_true]
        omega
      · rw [size_indentTo]
        simp only [size, hline, hle, Bool.toNat_false]
        omega

theorem size_finish_lt (s : Scanner) (h : s.finished = false) : s.finish.next.size < s.size := by
  unfold finish
  split
  · rename_i opening hopen
    have hmodes : s.modes.isEmpty = false := by
      cases hm : s.modes with
      | nil => simp [hm] at hopen
      | cons => rfl
    rw [size_fail]
    simp [size, hmodes]
  · rw [size_emit]
    simp [size, h]

theorem size_scanLexeme_lt (s : Scanner) (c : Char) (h : s.cursor.rest ≠ []) :
    (s.scanLexeme c).next.size < s.size := by
  have hbump := s.cursor.bump_rest_length_lt h
  have hpos := List.length_pos_iff.2 h
  unfold scanLexeme
  split
  · rw [size_fail]
    simp only [size]
    omega
  · rename_i lexeme hread
    have hlexeme := Lexeme.read?_length_pos hread
    have hle := s.cursor.along_rest_length lexeme.text.length
    dsimp only
    split
    · rw [size_silent]
      simp only [size]
      omega
    · rw [size_emit]
      simp only [size]
      omega

theorem size_scanPlain_lt (s : Scanner) (h : s.finished = false) : s.scanPlain.next.size < s.size := by
  unfold scanPlain
  split
  · exact s.size_finish_lt h
  · rename_i c rest hrest
    have hne : s.cursor.rest ≠ [] := by simp [hrest]
    have hbump := s.cursor.bump_rest_length_lt hne
    have hline := Bool.toNat_le s.atLineStart
    dsimp only
    split
    · split
      · rw [size_silent]
        simp only [size]
        omega
      · rw [size_emit]
        simp only [size, Bool.toNat_true]
        omega
    · split
      · rw [size_silent]
        simp only [size, List.isEmpty_cons]
        split <;> simp <;> omega
      · split
        · rename_i hclose
          have hmodes : s.modes.isEmpty = false := by
            cases hm : s.modes with
            | nil => simp [inPlaceholder, hm] at hclose
            | cons => rfl
          rw [size_emit]
          simp only [size, hmodes]
          split <;> simp <;> omega
        · exact s.size_scanLexeme_lt c hne

theorem size_scanText_lt (s : Scanner) (quote : Position) (emitted : Bool) (h : s.modes ≠ []) :
    (s.scanText quote emitted).next.size < s.size := by
  have hle := TextRun.read_rest_length_le s.cursor.offset s.cursor.position s.cursor.rest
  have hmodes : s.modes.isEmpty = false := by simpa using h
  unfold scanText
  dsimp only
  split
  · rw [size_fail]
    simp only [size, hmodes]
    simp
    omega
  · rename_i hstop
    obtain ⟨rest, hrest⟩ := TextRun.read_quote _ _ _ hstop
    have hbump := Cursor.bump_rest_length_lt _ (by simp [hrest] :
      (TextRun.read s.cursor.offset s.cursor.position s.cursor.rest).cursor.rest ≠ [])
    rw [size_emit]
    simp only [size, hmodes]
    split <;> simp <;> omega
  · rename_i hstop
    obtain ⟨rest, hrest⟩ := TextRun.read_placeholder _ _ _ hstop
    have hlen := Cursor.along_rest_length
      (TextRun.read s.cursor.offset s.cursor.position s.cursor.rest).cursor 2
    have hpos := congrArg List.length hrest
    simp only [List.length_cons] at hpos
    rw [size_emit]
    simp only [size, hmodes, hlen]
    simp
    omega

theorem size_step_lt (s : Scanner) (h : s.finished = false) : s.step.next.size < s.size := by
  unfold step
  split
  · split
    · rename_i hline
      exact s.size_scanIndentation_lt hline
    · exact s.size_scanPlain_lt h
  · rename_i hmodes
    exact s.size_scanText_lt _ _ (by simp [hmodes])
  · exact s.size_scanPlain_lt h

/-- All tokens and all errors from here to the end of the text. -/
def run (s : Scanner) : List Token × List ScriptError :=
  if _h : s.finished then ([], [])
  else
    let after := run s.step.next
    (s.step.tokens ++ after.1, s.step.error.toList ++ after.2)
termination_by s.size
decreasing_by exact s.size_step_lt (by simpa using _h)

end Scanner

/-- The tokens of a text, or all errors in it. -/
def lex (source : String) : Except (List ScriptError) (List Token) :=
  let (tokens, errors) := (Scanner.ofText source).run
  if errors.isEmpty then .ok tokens else .error errors

structure TokenSource where
  scanner : Scanner
  /-- Tokens that are ready to be handed out. -/
  pending : List Token
  failed : Bool
deriving DecidableEq, Repr

namespace TokenSource

abbrev Item := Except ScriptError Token

def ofText (source : String) : TokenSource := ⟨.ofText source, [], false⟩

/-- Puts `token` behind the tokens that are ready, as if it had been read here. -/
def push (source : TokenSource) (token : Token) : TokenSource :=
  { source with scanner := source.scanner.note token, pending := source.pending ++ [token] }

def skipBytes (source : TokenSource) (bytes : Nat) : TokenSource :=
  { source with scanner.cursor := source.scanner.cursor.alongBytes bytes }

/-- The next token or error, if there is one, and the source after it. Nothing is read after an
error, but tokens that were ready still come out. -/
def next (source : TokenSource) : Option Item × TokenSource :=
  match source.pending with
  | token :: pending => (some (.ok token), { source with pending })
  | [] =>
    if _h : source.failed || source.scanner.finished then (none, source)
    else
      let step := source.scanner.step
      match step.error with
      | some error => (some (.error error), ⟨step.next, step.tokens, true⟩)
      | none => next ⟨step.next, step.tokens, false⟩
termination_by (source.scanner.size, source.pending.length)
decreasing_by
  have hfinished : source.scanner.finished = false := by simp_all
  exact Prod.Lex.left _ _ (source.scanner.size_step_lt hfinished)

/-- A bound on the items that still come out: the tokens that are ready, then what is still read. -/
def Precedes (a b : TokenSource) : Prop :=
  Prod.Lex (· < ·) (· < ·) (a.scanner.size, a.pending.length) (b.scanner.size, b.pending.length)

theorem next_precedes (source : TokenSource) (item : Item) (h : source.next.1 = some item) :
    Precedes source.next.2 source := by
  fun_induction next source with
  | case1 source token pending hpending =>
    exact Prod.Lex.right _ (by simp [hpending])
  | case2 source hpending hdone => simp at h
  | case3 source hpending hdone step error herror =>
    have hfinished : source.scanner.finished = false := by simp_all
    exact Prod.Lex.left _ _ (source.scanner.size_step_lt hfinished)
  | case4 source hpending hdone step herror ih =>
    have hfinished : source.scanner.finished = false := by simp_all
    have hsize := source.scanner.size_step_lt hfinished
    have hnext := ih h
    unfold Precedes at hnext ⊢
    rw [Prod.lex_def] at hnext ⊢
    dsimp only [step] at hnext hsize ⊢
    left
    rcases hnext with hlt | ⟨heq, _⟩ <;> omega

def drain (source : TokenSource) : List Item × TokenSource :=
  match _h : source.next with
  | (none, after) => ([], after)
  | (some item, after) =>
    let rest := drain after
    (item :: rest.1, rest.2)
termination_by (source.scanner.size, source.pending.length)
decreasing_by
  have := source.next_precedes item (by rw [_h])
  rwa [_h] at this

end TokenSource

/-- The tokens of a text, or the first error in it. -/
def tokenize (source : String) : Except ScriptError (List Token) :=
  (TokenSource.ofText source).drain.1.mapM id

end DialogueScript
