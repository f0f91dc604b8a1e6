import DialogueScript.Proofs.ScanEcho

namespace DialogueScript

/-- A stretch of a text: how many characters stand in front of it, and those that stand in it. -/
structure Stretch where
  first : Nat
  text : List Char

namespace Stretch

def stop (r : Stretch) : Nat := r.first + r.text.length

def Apart (r r' : Stretch) : Prop := r.stop ≤ r'.first ∨ r'.stop ≤ r.first

theorem Apart.symm {r r' : Stretch} (h : r.Apart r') : r'.Apart r := Or.symm h

theorem length_le_of_apart {stretches : List Stretch} {n : Nat} (hapart : stretches.Pairwise Apart)
    (htext : ∀ r ∈ stretches, r.text ≠ []) (hstop : ∀ r ∈ stretches, r.stop ≤ n) : stretches.length ≤ n := by
  have hlt : ∀ r ∈ stretches, r.first < r.stop := fun r hr =>
    Nat.lt_add_of_pos_right (List.length_pos_iff.2 (htext r hr))
  have hnodup : (stretches.map first).Nodup := by
    refine List.pairwise_map.2 (hapart.imp_of_mem fun {r r'} hr hr' h hsame => ?_)
    have hr := hlt r hr
    have hr' := hlt r' hr'
    rcases h with h | h <;> omega
  have hsubset : stretches.map first ⊆ List.range n := by
    intro k hk
    obtain ⟨r, hr, rfl⟩ := List.mem_map.1 hk
    exact List.mem_range.2 ((hlt r hr).trans_le (hstop r hr))
  have hle := (hnodup.subperm hsubset).length_le
  rwa [List.length_map, List.length_range] at hle

end Stretch

structure IsIndentation (text after : List Char) : Prop where
  ne_nil : text ≠ []
  blank : ∀ c ∈ text, Lexeme.isIndentChar c = true
  whole : ∀ c ∈ after.head?, Lexeme.isIndentChar c = false

namespace ErrorCause

def isUnterminated : ErrorCause → Bool
  | unterminatedString | unterminatedPlaceholder => true
  | _ => false

/-- What `text` is to the cause if it stands in the given column and in front of `after`: the strange character,
the mark that opens what is not closed, or the margin of the line, which begins in the first column. -/
inductive ToldOf : ErrorCause → Nat → List Char → List Char → Prop
  | character {column : Nat} {c : Char} {after : List Char} : ToldOf (unexpectedCharacter c) column [c] after
  | quote {column : Nat} {after : List Char} : ToldOf unterminatedString column ['"'] after
  | opening {column : Nat} {after : List Char} : ToldOf unterminatedPlaceholder column ['#', '{'] after
  | mixed {text after : List Char} (hmargin : IsIndentation text after) (htab : '\t' ∈ text) (hspace : ' ' ∈ text) :
    ToldOf mixedIndentation 1 text after
  | inconsistent {text after : List Char} {expected : IndentStyle} (hmargin : IsIndentation text after)
    (hstyle : expected ≠ .ofRun text) : ToldOf (inconsistentIndentation expected (.ofRun text)) 1 text after
  | dedent {text after : List Char} (hmargin : IsIndentation text after) :
    ToldOf (invalidDedent text.length) 1 text after

theorem ToldOf.ne_nil {cause : ErrorCause} {column : Nat} {text after : List Char}
    (h : cause.ToldOf column text after) : text ≠ [] := by
  cases h with
  | character | quote | opening => exact List.cons_ne_nil _ _
  | mixed hmargin | inconsistent hmargin | dedent hmargin => exact hmargin.ne_nil

end ErrorCause

/-- The error is raised for the stretch: it is placed at its first character, and what stands there is what
the cause tells of. -/
def ScriptError.RaisedFor (source : String) (e : ScriptError) (r : Stretch) : Prop :=
  ∃ before after, source.toList = before ++ r.text ++ after ∧ before.length = r.first ∧
    byteOffset source e.position = some (byteLength before) ∧ e.cause.ToldOf e.position.column r.text after

/-- Each error is raised for a stretch of the source in front of `rest`, and no two of these overlap. -/
def Charged (source : String) (rest : List Char) (errors : List ScriptError) : Prop :=
  ∃ charges : List (ScriptError × Stretch), charges.map Prod.fst = errors ∧
    (∀ p ∈ charges, p.1.RaisedFor source p.2 ∧ p.2.stop + rest.length ≤ source.length) ∧
    charges.Pairwise fun p q => p.2.Apart q.2

namespace Charged

variable {source : String} {rest rest' : List Char} {errors errors' opened : List ScriptError}

theorem nil : Charged source rest [] := ⟨[], rfl, List.forall_mem_nil _, .nil⟩

theorem mono (h : Charged source rest errors) (hrest : rest'.length ≤ rest.length) :
    Charged source rest' errors := by
  obtain ⟨charges, herrors, hraised, hapart⟩ := h
  exact ⟨charges, herrors, fun p hp => ⟨(hraised p hp).1, by have := (hraised p hp).2; omega⟩, hapart⟩

theorem sublist (h : Charged source rest errors) (herrors' : errors'.Sublist errors) :
    Charged source rest errors' := by
  obtain ⟨charges, rfl, hraised, hapart⟩ := h
  obtain ⟨charges', hsublist, rfl⟩ := List.sublist_map_iff.1 herrors'
  exact ⟨charges', rfl, fun p hp => hraised p (hsublist.subset hp), hapart.sublist hsublist⟩

/-- What stands at the cursor is behind all that was charged, so it can be charged with one more error. -/
theorem raise {c : Cursor} {cause : ErrorCause} {text after : List Char}
    (h : Charged source c.rest (errors ++ opened)) (hlies : c.Lies source) (hrest : c.rest = text ++ after)
    (htold : cause.ToldOf c.position.column text after) (hrest' : rest'.length ≤ after.length) :
    Charged source rest' (errors ++ ⟨cause, c.position⟩ :: opened) := by
  obtain ⟨charges, herrors, hraised, hapart⟩ := h
  obtain ⟨earlier, later, rfl, rfl, rfl⟩ := List.map_eq_append_iff.1 herrors
  obtain ⟨passed, shown, before, start, hplaced⟩ := hlies
  have hsource : source.toList = passed ++ text ++ after := by rw [hplaced.text, hrest, List.append_assoc]
  have hlength := congrArg List.length hsource
  simp only [String.length_toList, List.length_append] at hlength
  have hlengthRest := congrArg List.length hrest
  rw [List.length_append] at hlengthRest
  have hnew : ScriptError.RaisedFor source ⟨cause, c.position⟩ ⟨passed.length, text⟩ := by
    refine ⟨passed, after, hsource, rfl, ?_, htold⟩
    rw [← hplaced.offset]
    exact Cursor.Lies.byteOffset_eq ⟨passed, shown, before, start, hplaced⟩
  have hbehind : ∀ p ∈ earlier ++ later, Stretch.Apart ⟨passed.length, text⟩ p.2 := by
    intro p hp
    have hstop := (hraised p hp).2
    exact .inr (by change p.2.stop ≤ passed.length; omega)
  refine ⟨earlier ++ (⟨cause, c.position⟩, ⟨passed.length, text⟩) :: later, ?_, ?_, ?_⟩
  · rw [List.map_append, List.map_cons]
  · rw [List.forall_mem_append, List.forall_mem_cons]
    have hold : ∀ p ∈ earlier ++ later,
        p.1.RaisedFor source p.2 ∧ p.2.stop + rest'.length ≤ source.length := by
      intro p hp
      obtain ⟨hp, hstop⟩ := hraised p hp
      exact ⟨hp, by omega⟩
    obtain ⟨hearlier, hlater⟩ := List.forall_mem_append.1 hold
    exact ⟨hearlier, ⟨hnew, by change passed.length + text.length + _ ≤ _; omega⟩, hlater⟩
  · exact (List.pairwise_middle fun h => h.symm).2 (List.pairwise_cons.2 ⟨hbehind, hapart⟩)

theorem length_le (h : Charged source rest errors) : errors.length ≤ source.length := by
  obtain ⟨charges, rfl, hraised, hapart⟩ := h
  have hle := Stretch.length_le_of_apart (n := source.length) (List.pairwise_map.2 hapart)
    (fun r hr => ?_) fun r hr => ?_
  · rwa [List.length_map] at hle ⊢
  · obtain ⟨p, hp, rfl⟩ := List.mem_map.1 hr
    obtain ⟨⟨before, after, -, -, -, htold⟩, -⟩ := hraised p hp
    exact htold.ne_nil
  · obtain ⟨p, hp, rfl⟩ := List.mem_map.1 hr
    have hstop := (hraised p hp).2
    omega

end Charged

def Mode.complaint : Mode → ScriptError
  | text quote _ => ⟨.unterminatedString, quote⟩
  | placeholder opening => ⟨.unterminatedPlaceholder, opening⟩

theorem TextRun.read_endOfFile {offset : Nat} {position : Position} {text : List Char}
    (h : (read offset position text).stop = .endOfFile) : (read offset position text).cursor.rest = [] := by
  fun_induction read offset position text <;> simp_all [cons]

namespace Scanner

variable {source : String} {tokens : List Token} {errors : List ScriptError} {s : Scanner}

theorem headD_dropWhile_le (levels : List Nat) (width : Nat) :
    (levels.dropWhile (width < ·)).headD 0 ≤ width := by
  cases hkept : levels.dropWhile (width < ·) with
  | nil => exact Nat.zero_le width
  | cons level kept =>
    have hlevel := List.head?_dropWhile_not (fun level => decide (width < level)) levels
    rw [hkept] at hlevel
    simpa using hlevel

theorem error_changeLevel {start : Position} {width : Nat} {e : ScriptError}
    (h : (s.changeLevel start width).error = some e) : width ≠ 0 ∧ e = ⟨.invalidDedent width, start⟩ := by
  unfold changeLevel at h
  dsimp only at h
  split at h
  · cases h
  · split at h
    · cases h
    · rename_i hlevel
      cases h
      refine ⟨?_, rfl⟩
      rintro rfl
      exact hlevel (Nat.le_zero.1 (headD_dropWhile_le s.levels 0))

theorem error_indentTo {start : Position} {run after : List Char} {e : ScriptError}
    (hblank : ∀ c ∈ run, Lexeme.isIndentChar c = true) (hwhole : ∀ c ∈ after.head?, Lexeme.isIndentChar c = false)
    (h : (s.indentTo start run).error = some e) : e.position = start ∧ e.cause.ToldOf 1 run after := by
  have hmargin : run.length ≠ 0 → IsIndentation run after := fun hwidth =>
    ⟨fun hrun => hwidth (by rw [hrun, List.length_nil]), hblank, hwhole⟩
  unfold indentTo at h
  dsimp only at h
  split at h
  · rename_i htabs
    cases h
    have hspace : ∃ c ∈ run, c ≠ '\t' := by
      by_contra hall
      push Not at hall
      exact htabs.2.ne (List.count_eq_length.2 fun c hc => (hall c hc).symm)
    obtain ⟨c, hc, hne⟩ := hspace
    obtain rfl : c = ' ' := by
      have := hblank c hc
      simp only [Lexeme.isIndentChar, Bool.or_eq_true, decide_eq_true_eq] at this
      exact this.resolve_right hne
    exact ⟨rfl, .mixed (hmargin (by omega)) (List.count_pos_iff.1 htabs.1) hc⟩
  · split at h
    · exact absurd rfl (error_changeLevel h).1
    · rename_i hwidth
      split at h
      · obtain ⟨-, rfl⟩ := error_changeLevel h
        exact ⟨rfl, .dedent (hmargin hwidth)⟩
      · rename_i hstyle
        cases h
        exact ⟨rfl, .inconsistent (hmargin hwidth) hstyle⟩

theorem step_margin {c : Char} {rest : List Char} (hmodes : s.modes = []) (hline : s.atLineStart = true)
    (hrest : s.behindMargin.rest = c :: rest) (hcomment : c ≠ '#') (hbreak : isBreak c = false) :
    s.step = s.indented.indentTo s.cursor.position s.margin := by
  have hstep : s.step = s.scanIndentation := by
    unfold step
    rw [hmodes]
    exact if_pos hline
  rw [hstep, scanIndentation_eq, hrest]
  dsimp only
  rw [if_neg hcomment, if_neg (by simp [hbreak])]

theorem Move.lineStart {step : Step} (hmove : Move s step)
    (h : s.atLineStart = true → s.modes = [] ∧ s.cursor.position.column = 1)
    (hnext : step.next.atLineStart = true) : step.next.modes = [] ∧ step.next.cursor.position.column = 1 := by
  have hopen : ∀ {mode modes} {P : Prop}, s.modes = mode :: modes → s.atLineStart = true → P :=
    fun hmodes hline => List.noConfusion rfl (heq_of_eq ((h hline).1.symm.trans hmodes))
  have hplain : ∀ {P : Prop}, s.Plain → s.atLineStart = true → P := fun hplain hline =>
    Bool.noConfusion (hline.symm.trans (hplain.not_margin (h hline).1))
  cases hmove with
  | idle => cases hnext
  | blank hmodes _ hrest hbreak | lineEnd hmodes _ hrest hbreak =>
    exact ⟨hmodes, by rw [Cursor.position_bump hbreak hrest]; rfl⟩
  | margin _ _ _ _ _ _ hstep => cases hstep <;> cases hnext
  | finish _ hline => exact Bool.noConfusion (hline.symm.trans hnext)
  | innerBreak h | closePlaceholder h | endInText h | closeText h | openPlaceholder h => exact hopen h hnext
  | openText h | pass h | word h | strange h | endInPlaceholder h => exact hplain h hnext

theorem Scanned.lineStart (h : Scanned source tokens errors s) :
    s.atLineStart = true → s.modes = [] ∧ s.cursor.position.column = 1 := by
  induction h with
  | start => exact fun _ => ⟨rfl, rfl⟩
  | step h hs ih => exact (move_step _).lineStart ih

/-- A step raises what is new for what stands at the cursor, and else for what was open. -/
theorem Move.charged {step : Step} (hmove : Move s step) (hstep : step = s.step) (hlies : s.cursor.Lies source)
    (hline : s.atLineStart = true → s.modes = [] ∧ s.cursor.position.column = 1)
    (h : Charged source s.cursor.rest (errors ++ s.modes.map Mode.complaint)) :
    Charged source step.next.cursor.rest
      (errors ++ step.error.toList ++ step.next.modes.map Mode.complaint) := by
  obtain ⟨passed, hpasses⟩ := hmove.passes
  have hnext := h.mono hpasses.suffix.length_le
  -- what is open counts as an error for the mark that opened it; closing it takes the charge back
  cases hmove with
  | idle | blank | lineEnd | innerBreak | pass | word | finish =>
    rwa [Option.toList_none, List.append_nil]
  | @margin c rest step hmodes hstart hrest hcomment hbreak hblank hindents =>
    have hmargin : step.next.modes = [] ∧ step.next.cursor = s.behindMargin := by
      cases hindents <;> exact ⟨hmodes, rfl⟩
    rw [hmargin.1, hmargin.2, List.append_assoc]
    rw [hmodes, hmargin.2] at hnext
    cases herror : step.error with
    | none => exact hnext
    | some e =>
      rw [hstep, step_margin hmodes hstart hrest hcomment hbreak] at herror
      have hwhole : ∀ c ∈ s.behindMargin.rest.head?, Lexeme.isIndentChar c = false := by
        simpa [hrest] using hblank
      obtain ⟨hposition, htold⟩ := error_indentTo (fun c hc => List.mem_takeWhile_imp hc) hwhole herror
      obtain ⟨cause, position⟩ := e
      obtain rfl : position = s.cursor.position := hposition
      rw [← (hline hstart).2] at htold
      rw [hmodes] at h
      exact h.raise hlies s.passes_behindMargin.rest htold le_rfl
  | openText hplain hrest =>
    rw [Option.toList_none, List.append_nil]
    exact h.raise hlies hrest .quote (by rw [Cursor.bump_char rfl hrest])
  | closePlaceholder hmodes | closeText hmodes =>
    rw [hmodes] at hnext
    rw [Option.toList_none, List.append_nil]
    exact hnext.sublist ((List.sublist_cons_self ..).append_left _)
  | @strange c rest hplain hrest hread =>
    have hlt := s.cursor.bump_rest_length_lt (by simp [hrest])
    rw [hrest, List.length_cons] at hlt
    rw [Option.toList_some, List.append_assoc, List.singleton_append]
    exact h.raise hlies hrest .character (Nat.le_of_lt_succ hlt)
  | endInText hmodes =>
    rw [hmodes] at hnext
    rw [List.map_nil, List.append_nil]
    exact hnext.sublist ((List.singleton_sublist.2 List.mem_cons_self).append_left _)
  | openPlaceholder hmodes hstop =>
    obtain ⟨text, hstretch⟩ := s.passes_stretch
    obtain ⟨rest, hrest⟩ : ∃ rest, s.stretch.cursor.rest = ['#', '{'] ++ rest :=
      TextRun.read_placeholder _ _ _ hstop
    have hbehind : (s.stretch.cursor.along 2).rest.length ≤ rest.length := by
      rw [Cursor.along_rest_length, hrest]
      exact le_rfl
    rw [Option.toList_none, List.append_nil]
    rw [hmodes] at h
    exact (h.mono hstretch.suffix.length_le).raise (lies_stretch hlies) hrest .opening hbehind
  | @endInPlaceholder opening hplain hrest hopening =>
    have hcomplaint : ⟨.unterminatedPlaceholder, opening⟩ ∈ s.modes.map Mode.complaint :=
      List.mem_map.2 ⟨_, hopening, rfl⟩
    rw [List.map_nil, List.append_nil]
    exact hnext.sublist ((List.singleton_sublist.2 hcomplaint).append_left _)

theorem Scanned.charged (h : Scanned source tokens errors s) :
    Charged source s.cursor.rest (errors ++ s.modes.map Mode.complaint) := by
  induction h with
  | start => exact .nil
  | step h hs ih => exact (move_step _).charged rfl h.lies h.lineStart ih

def AtEnd (s : Scanner) : Prop := s.modes = [] ∧ s.cursor.rest = []

theorem Move.atEnd {step : Step} (hmove : Move s step) (h : s.AtEnd) : step.error = none ∧ step.next.AtEnd := by
  obtain ⟨hmodes, hrest⟩ := h
  have hbehind : s.behindMargin.rest = [] := by rw [behindMargin_rest, hrest]; rfl
  have hopen : ∀ {mode modes} {P : Prop}, s.modes = mode :: modes → P :=
    fun h => List.noConfusion rfl (heq_of_eq (hmodes.symm.trans h))
  have hmore : ∀ {c rest} {P : Prop}, s.cursor.rest = c :: rest → P :=
    fun h => List.noConfusion rfl (heq_of_eq (hrest.symm.trans h))
  cases hmove with
  | idle => exact ⟨rfl, hmodes, hbehind⟩
  | blank _ _ h | margin _ _ h => exact List.noConfusion rfl (heq_of_eq (hbehind.symm.trans h))
  | lineEnd _ _ h | openText _ h | strange _ h => exact hmore h
  | innerBreak h | closePlaceholder h | endInText h | closeText h | openPlaceholder h => exact hopen h
  | pass _ h | word _ h =>
    rw [hrest] at h
    cases h
  | endInPlaceholder _ _ h =>
    rw [hmodes] at h
    cases h
  | finish => exact ⟨rfl, hmodes, hrest⟩

/-- A step that fails for what is open does so at the end of the text, and leaves nothing open. -/
theorem Move.atEnd_of_unterminated {step : Step} {e : ScriptError} (hmove : Move s step)
    (herror : step.error = some e) (he : e.cause.isUnterminated = true) : step.next.AtEnd := by
  cases hmove with
  | margin _ _ _ _ _ _ hstep =>
    cases hstep with
    | refuse hcause =>
      cases herror
      rcases hcause with rfl | ⟨_, _, rfl⟩ <;> cases he
    | between =>
      cases herror
      cases he
    | deeper | back => cases herror
  | strange =>
    cases herror
    cases he
  | endInText _ hstop => exact ⟨rfl, TextRun.read_endOfFile hstop⟩
  | endInPlaceholder _ hrest => exact ⟨rfl, hrest⟩
  | idle | blank | lineEnd | innerBreak | openText | closePlaceholder | pass | word | closeText
  | openPlaceholder | finish => cases herror

theorem Scanned.unterminated_last (h : Scanned source tokens errors s) :
    errors.Pairwise (fun e _ => e.cause.isUnterminated = false) ∧
      ∀ e ∈ errors, e.cause.isUnterminated = true → s.AtEnd := by
  induction h with
  | start => exact ⟨.nil, List.forall_mem_nil _⟩
  | @step tokens errors s h hs ih =>
    obtain ⟨hlast, hatEnd⟩ := ih
    have hmove := move_step s
    refine ⟨List.pairwise_append.2 ⟨hlast, ?_, fun e he e' he' => ?_⟩, List.forall_mem_append.2 ⟨?_, ?_⟩⟩
    · cases s.step.error with
      | none => exact .nil
      | some e => exact List.pairwise_singleton ..
    · rw [Bool.eq_false_iff]
      intro hopen
      rw [(hmove.atEnd (hatEnd e he hopen)).1] at he'
      cases he'
    · exact fun e he hopen => (hmove.atEnd (hatEnd e he hopen)).2
    · exact fun e he hopen => hmove.atEnd_of_unterminated (Option.mem_toList.1 he) hopen

theorem Move.resumes {step : Step} {e : ScriptError} (hmove : Move s step) (herror : step.error = some e) :
    step.next.finished = s.finished := by
  cases hmove with
  | margin _ _ _ _ _ _ hstep => cases hstep <;> rfl
  | strange | endInText | endInPlaceholder => rfl
  | idle | blank | lineEnd | innerBreak | openText | closePlaceholder | pass | word | closeText
  | openPlaceholder | finish => cases herror

/-- The run of a scanner, given up after so many steps. -/
def runWithin : Nat → Scanner → Option (List Token × List ScriptError)
  | 0, s => if s.finished then some ([], []) else none
  | limit + 1, s =>
    if s.finished then some ([], [])
    else (runWithin limit s.step.next).map fun after =>
      (s.step.tokens ++ after.1, s.step.error.toList ++ after.2)

theorem runWithin_eq {limit : Nat} (h : s.size ≤ limit) : runWithin limit s = some s.run := by
  induction limit generalizing s with
  | zero =>
    have hfinished : s.finished = true := by
      by_contra hfinished
      simp only [size, Bool.eq_false_iff.2 hfinished, Bool.not_false, Bool.toNat_true] at h
      omega
    rw [runWithin, if_pos hfinished, run_of_finished hfinished]
  | succ limit ih =>
    rw [runWithin, run]
    split
    · rfl
    · rename_i hfinished
      have hlt := s.size_step_lt (Bool.eq_false_iff.2 hfinished)
      rw [ih (by omega)]
      rfl

theorem size_ofText (source : String) : (ofText source).size = 4 * source.length + 2 := by
  rw [← String.length_toList]
  rfl

end Scanner

/-- The errors of a text are all accounted for. Its scan is over after at most four steps for each character
and two more, it goes on behind every error, and it gets to the end of the text. There are no more errors than
characters; only the last can be that a string or a placeholder is not closed; and each is raised for a stretch
of the text of its own, a strange character, an opening quote, a `#{` or the margin of a line. -/
theorem lexical_errors_accounted (source : String) :
    ∃ tokens errors, (Scanner.ofText source).runWithin (4 * source.length + 2) = some (tokens, errors) ∧
      lex source = (if errors.isEmpty then .ok tokens else .error errors) ∧
      (∃ s, Scanner.Scanned source tokens errors s ∧ s.finished = true ∧ s.cursor.rest = []) ∧
      (∀ tokens errors s e, Scanner.Scanned source tokens errors s → s.finished = false → s.step.error = some e →
        s.step.next.finished = false) ∧
      errors.length ≤ source.length ∧
      (∀ before e after, errors = before ++ e :: after → e.cause.isUnterminated = true → after = []) ∧
      ∃ charges : List (ScriptError × Stretch), charges.map Prod.fst = errors ∧
        (∀ p ∈ charges, p.1.RaisedFor source p.2) ∧ charges.Pairwise fun p q => p.2.Apart q.2 := by
  obtain ⟨s, hscan, hfinished⟩ := (@Scanner.Scanned.start source).run
  rw [List.nil_append, List.nil_append] at hscan
  have hrest := (hscan.sound.finished hfinished).1
  have hcharged := hscan.charged.sublist (List.sublist_append_left ..)
  refine ⟨_, _, Scanner.runWithin_eq (Scanner.size_ofText source).le, rfl, ⟨s, hscan, hfinished, hrest⟩, ?_,
    hcharged.length_le, ?_, ?_⟩
  · intro tokens errors s e _ hs herror
    rw [(Scanner.move_step s).resumes herror, hs]
  · intro before e after herrors hopen
    have hlast := hscan.unterminated_last.1
    rw [herrors] at hlast
    have hbehind := (List.pairwise_cons.1 (List.pairwise_append.1 hlast).2.1).1
    refine List.eq_nil_iff_forall_not_mem.2 fun e' he' => ?_
    exact Bool.noConfusion (hopen.symm.trans (hbehind e' he'))
  · obtain ⟨charges, herrors, hraised, hapart⟩ := hcharged
    exact ⟨charges, herrors, fun p hp => (hraised p hp).1, hapart⟩

end DialogueScript
