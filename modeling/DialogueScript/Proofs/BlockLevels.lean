import DialogueScript.Proofs.ErrorCharges
import DialogueScript.Proofs.Layout

namespace DialogueScript

namespace ErrorCause

def isInvalidDedent : ErrorCause → Bool
  | invalidDedent _ => true
  | _ => false

def refusesMargin : ErrorCause → Bool
  | mixedIndentation | inconsistentIndentation .. => true
  | _ => false

end ErrorCause

def TextLine.margin (line : TextLine) : List Char := line.text.takeWhile Lexeme.isIndentChar

namespace Scanner

variable {source : String} {tokens : List Token} {errors : List ScriptError} {s : Scanner} {step : Step}

/-- The widths that lines are measured against: that of the script itself, and those of the open blocks from the
outermost inward. -/
def widths (s : Scanner) : List Nat := 0 :: s.levels.reverse

theorem length_widths (s : Scanner) : s.widths.length = s.levels.length + 1 := by
  rw [widths, List.length_cons, List.length_reverse]

theorem getLast?_widths (s : Scanner) : s.widths.getLast? = some (s.levels.headD 0) := by
  rw [widths, List.getLast?_cons, List.getLast?_reverse]
  cases s.levels <;> rfl

/-- A line begins here, with more on it than blanks and a comment. -/
structure AtMargin (s : Scanner) : Prop where
  modes : s.modes = []
  atLineStart : s.atLineStart = true
  first : ∃ c ∈ s.behindMargin.rest.head?, c ≠ '#' ∧ isBreak c = false

/-- From the innermost level to that of the script the widths strictly decrease. -/
def Descends (levels : List Nat) : Prop := (levels ++ [0]).Pairwise (· > ·)

namespace Descends

variable {levels : List Nat} {width : Nat}

theorem widths (h : Descends s.levels) : s.widths.Pairwise (· < ·) := by
  have hreverse : s.widths = (s.levels ++ [0]).reverse := by
    rw [List.reverse_append, List.reverse_singleton, List.singleton_append, Scanner.widths]
  rw [hreverse, List.pairwise_reverse]
  exact h

theorem dropWhile (h : Descends levels) (p : Nat → Bool) : Descends (levels.dropWhile p) :=
  List.Pairwise.sublist ((List.dropWhile_sublist p).append_right [0]) h

theorem cons (h : Descends levels) (hwidth : levels.headD 0 < width) : Descends (width :: levels) := by
  refine List.pairwise_cons.2 ⟨fun level hlevel => ?_, h⟩
  cases levels with
  | nil =>
    obtain rfl := List.mem_singleton.1 hlevel
    exact hwidth
  | cons top levels =>
    rcases List.mem_cons.1 hlevel with rfl | hlevel
    · exact hwidth
    · exact Nat.lt_trans ((List.pairwise_cons.1 h).1 level hlevel) hwidth

end Descends

/-- What the step does to the levels, and how its tokens and its error tell of it: a start of a block is one level
more, an end one less, and a line between two open levels is one more that has no token. -/
structure Relevels (levels : List Nat) (step : Step) : Prop where
  descends : Descends levels → Descends step.next.levels
  count_eq : (step.tokens.map Token.kind).count .indent + step.error.toList.countP (·.cause.isInvalidDedent) +
    levels.length = (step.tokens.map Token.kind).count .dedent + step.next.levels.length

theorem Relevels.of_others {levels : List Nat} (hlevels : step.next.levels = levels)
    (htokens : ∀ t ∈ step.tokens, t.kind ≠ .indent ∧ t.kind ≠ .dedent)
    (herror : ∀ e ∈ step.error, e.cause.isInvalidDedent = false) : Relevels levels step where
  descends := fun h => hlevels ▸ h
  count_eq := by
    have hkind : ∀ k : TokenKind, (∀ t ∈ step.tokens, t.kind ≠ k) → (step.tokens.map Token.kind).count k = 0 :=
      fun k hk => List.count_eq_zero.2 fun hmem => by
        obtain ⟨t, ht, rfl⟩ := List.mem_map.1 hmem
        exact hk t ht rfl
    have hloose : step.error.toList.countP (·.cause.isInvalidDedent) = 0 :=
      List.countP_eq_zero.2 fun e he => by simp [herror e (by simpa using he)]
    rw [hkind .indent fun t ht => (htokens t ht).1, hkind .dedent fun t ht => (htokens t ht).2, hloose, hlevels]

theorem count_dedents (levels : List Nat) (p : Position) :
    ((levels.map fun _ => Token.mk .dedent "" (.point p)).map Token.kind).count .dedent = levels.length ∧
      ((levels.map fun _ => Token.mk .dedent "" (.point p)).map Token.kind).count .indent = 0 := by
  rw [kinds_dedents]
  exact ⟨List.count_replicate_self, List.count_replicate⟩

theorem Indents.relevels {start : Position} {width : Nat} (h : Indents s start width step) :
    Relevels s.levels step := by
  have hsplit := length_closed_add_kept s.levels width
  obtain ⟨hdedents, hindents⟩ := count_dedents (s.levels.takeWhile (width < ·)) s.cursor.position
  cases h with
  | refuse hcause =>
    refine .of_others rfl (List.forall_mem_nil _) fun e he => ?_
    cases he
    rcases hcause with rfl | ⟨expected, found, rfl⟩ <;> rfl
  | deeper hwidth =>
    refine ⟨fun h => h.cons hwidth, ?_⟩
    change 1 + 0 + s.levels.length = 0 + (s.levels.length + 1)
    omega
  | back =>
    refine ⟨fun h => h.dropWhile _, ?_⟩
    rw [hdedents, hindents]
    simp only [Option.toList_none, List.countP_nil]
    omega
  | between hwidth hlevel =>
    -- the levels further in are closed, so the line is wider than all that are left
    have hlt := Nat.lt_of_le_of_ne (headD_dropWhile_le s.levels width) hlevel
    refine ⟨fun h => (h.dropWhile _).cons hlt, ?_⟩
    have hloose : List.countP (·.cause.isInvalidDedent) [ScriptError.mk (.invalidDedent width) start] = 1 := rfl
    rw [hdedents, hindents, Option.toList_some, hloose, List.length_cons]
    omega

/-- Only the margin of a line and the end of the text change the levels. -/
theorem Move.relevels (h : Move s step) : Relevels s.levels step := by
  cases h with
  | margin _ _ _ _ _ _ hstep => exact hstep.relevels
  | idle | blank | innerBreak | openText | pass => exact .of_others rfl (List.forall_mem_nil _) (by simp)
  | strange | endInText | endInPlaceholder =>
    exact .of_others rfl (List.forall_mem_nil _) (by simp [ErrorCause.isInvalidDedent])
  | lineEnd => exact .of_others rfl (by cases s.hasContent <;> simp) (by simp)
  | closePlaceholder => exact .of_others rfl (by simp) (by simp)
  | word hplain hread hkind =>
    have hcontent := (kind_of_read? hread hkind).1
    refine .of_others rfl (List.forall_mem_singleton.2 ⟨?_, ?_⟩) (by simp) <;> rintro rfl <;> cases hcontent
  | @closeText quote emitted =>
    exact .of_others rfl (by cases s.stretch.text.isEmpty && emitted <;> simp) (by simp)
  | openPlaceholder => exact .of_others rfl (by cases s.stretch.text.isEmpty <;> simp) (by simp)
  | finish =>
    obtain ⟨hdedents, hindents⟩ := count_dedents s.levels s.cursor.position
    refine ⟨fun _ => List.pairwise_singleton _ 0, ?_⟩
    simp only [List.map_append, List.count_append, hdedents, hindents]
    cases s.hasContent <;> simp [Token.endOfFile]

/-- The levels strictly decrease inside out, and they are as many as the tokens have opened and not closed, with
one more for each line that became a level as an error. -/
structure Levelled (tokens : List Token) (errors : List ScriptError) (s : Scanner) : Prop where
  descends : Descends s.levels
  count_eq : (tokens.map Token.kind).count .indent + errors.countP (·.cause.isInvalidDedent) =
    (tokens.map Token.kind).count .dedent + s.levels.length

theorem Scanned.levelled (h : Scanned source tokens errors s) : s.Levelled tokens errors := by
  induction h with
  | start => exact ⟨List.pairwise_singleton _ 0, rfl⟩
  | @step tokens errors s h hs ih =>
    have hstep := (move_step s).relevels
    have hcount := ih.count_eq
    have hcount' := hstep.count_eq
    refine ⟨hstep.descends ih.descends, ?_⟩
    rw [List.map_append, List.count_append, List.count_append, List.countP_append]
    omega

theorem Move.levels_of_finished (h : Move s step) (hs : s.finished = false) (hfinished : step.next.finished = true) :
    step.next.levels = [] := by
  have hunfinished : ∀ {P : Prop}, s.finished = true → P := fun h => Bool.noConfusion (hs.symm.trans h)
  cases h with
  | finish => rfl
  | margin _ _ _ _ _ _ hstep => cases hstep <;> exact hunfinished hfinished
  | _ => exact hunfinished hfinished

theorem Scanned.levels_of_finished (h : Scanned source tokens errors s) (hfinished : s.finished = true) :
    s.levels = [] := by
  cases h with
  | start => rfl
  | step _ hs => exact (move_step _).levels_of_finished hs hfinished

/-- A margin that is measured becomes the innermost level, also if it lies between two open ones. -/
theorem Indents.headD_levels {start : Position} {width : Nat} (h : Indents s start width step)
    (herror : ∀ e ∈ step.error, e.cause.refusesMargin = false) : step.next.levels.headD 0 = width := by
  cases h with
  | refuse hcause =>
    have hrefused := herror _ rfl
    rcases hcause with rfl | ⟨expected, found, rfl⟩ <;> cases hrefused
  | deeper | between => rfl
  | back _ hlevel => exact hlevel

theorem AtMargin.indents (h : s.AtMargin) : Indents s.indented s.cursor.position s.margin.length s.step := by
  obtain ⟨c, hc, hcomment, hbreak⟩ := h.first
  obtain ⟨rest, hrest⟩ := List.head?_eq_some_iff.1 hc
  rw [step_margin h.modes h.atLineStart hrest hcomment hbreak]
  exact indents_indentTo ..

theorem Scanned.line_of_atLineStart (h : Scanned source tokens errors s) (hstart : s.atLineStart = true) :
    ∃ line, line? source s.cursor.position.line = some line ∧ line.margin = s.margin := by
  refine ⟨_, h.lies.line?_eq (h.lineStart hstart).2, takeWhile_linesFrom (fun c hc => ?_) _ _⟩
  rcases isBreak_iff.1 hc with rfl | rfl <;> rfl

/-- At every time of a scan, also behind errors, the widths that lines are measured against strictly increase from
that of the script, and there are as many of them as blocks were begun and not ended, and one for each line between
two levels; at the end only that of the script is left. Behind the margin of a line that is measured, the innermost
width is that of the line. -/
theorem levels_accounted (h : Scanned source tokens errors s) :
    s.widths.Pairwise (· < ·) ∧
      ((tokens.map Token.kind).count .indent : ℤ) - (tokens.map Token.kind).count .dedent =
        s.widths.length - 1 - errors.countP (·.cause.isInvalidDedent) ∧
      (s.finished = true → s.widths = [0]) ∧
      (s.AtMargin → (∀ e ∈ s.step.error, e.cause.refusesMargin = false) →
        ∃ line, line? source s.cursor.position.line = some line ∧
          s.step.next.widths.getLast? = some line.margin.length) := by
  have hlevelled := h.levelled
  refine ⟨hlevelled.descends.widths, ?_, fun hfinished => ?_, fun hmargin herror => ?_⟩
  · have hcount := hlevelled.count_eq
    rw [length_widths]
    omega
  · rw [widths, h.levels_of_finished hfinished, List.reverse_nil]
  · obtain ⟨line, hline, hwidth⟩ := h.line_of_atLineStart hmargin.atLineStart
    refine ⟨line, hline, ?_⟩
    rw [getLast?_widths, hmargin.indents.headD_levels herror, hwidth]

/-- The third line is less far in than the second and further in than the first. -/
def lineBetween : String := "  a\n      b\n   c\n   d"

def beforeBetween : Scanner := (ofText lineBetween).step.next.step.next.step.next.step.next.step.next.step.next

theorem scanned_beforeBetween : ∃ tokens, Scanned lineBetween tokens [] beforeBetween ∧
    tokens.map Token.kind = [.indent, .identifier, .newline, .indent, .identifier, .newline] :=
  ⟨_, (((((((@Scanned.start lineBetween).step rfl).step rfl).step rfl).step rfl).step rfl).step rfl), by cbv⟩

/-- The third line ends a block and becomes a level of its own, for which there is an error and no token. -/
theorem levels_accounted_lineBetween :
    beforeBetween.AtMargin ∧ beforeBetween.step.error = some ⟨.invalidDedent 3, ⟨3, 1⟩⟩ ∧
      beforeBetween.widths = [0, 2, 6] ∧ beforeBetween.step.next.widths = [0, 2, 3] ∧
      (∃ line, line? lineBetween 3 = some line ∧ beforeBetween.step.next.widths.getLast? = some line.margin.length) ∧
      ∃ tokens errors, Scanned lineBetween tokens errors beforeBetween.step.next ∧
        tokens.map Token.kind = [.indent, .identifier, .newline, .indent, .identifier, .newline, .dedent] ∧
        ((tokens.map Token.kind).count .indent : ℤ) - (tokens.map Token.kind).count .dedent =
          beforeBetween.step.next.widths.length - 1 - errors.countP (·.cause.isInvalidDedent) := by
  obtain ⟨tokens, hscan, hkinds⟩ := scanned_beforeBetween
  have hmargin : beforeBetween.AtMargin := ⟨by cbv, by cbv, 'c', by cbv, by decide, by decide⟩
  have herror : beforeBetween.step.error = some ⟨.invalidDedent 3, ⟨3, 1⟩⟩ := by cbv
  have hmeasured : ∀ e ∈ beforeBetween.step.error, e.cause.refusesMargin = false := by
    simp [herror, ErrorCause.refusesMargin]
  have hdedent : beforeBetween.step.tokens.map Token.kind = [.dedent] := by cbv
  have hthird : beforeBetween.cursor.position.line = 3 := by cbv
  obtain ⟨-, -, -, hinnermost⟩ := levels_accounted hscan
  have hnext := hscan.step (by cbv)
  obtain ⟨-, hcount, -, -⟩ := levels_accounted hnext
  refine ⟨hmargin, herror, by cbv, by cbv, ?_, _, _, hnext, ?_, hcount⟩
  · rw [← hthird]
    exact hinnermost hmargin hmeasured
  · rw [List.map_append, hkinds, hdedent]
    rfl

end Scanner

end DialogueScript
