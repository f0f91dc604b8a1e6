import DialogueScript.Proofs.RenderedExpression

namespace DialogueScript

open Grammar Scanner Lexeme

structure Statement.Writable (s : Statement) : Prop where
  expressions : ∀ e ∈ s.expressions, e.Writable
  named : s.Named
  plain : ∀ run ∈ s.runs, IsPlain run.toList

/-- Tokens from which the grammar derives the text of a `say`, wherever the part before it stops. -/
def SpellsSpeech (speech : Speech) (ts : List Token) : Prop :=
  ∀ stop, ∃ speech' stop', speech'.unplaced = speech.unplaced ∧
    ∀ rest, Parts stop speech' stop' (ts ++ rest) rest

def SpellsGuard (guard? : Option Expression) (ts : List Token) : Prop :=
  ∃ guard?', guard?'.map Expression.unplaced = guard?.map Expression.unplaced ∧
    ∀ rest, Guard guard?' (ts ++ rest) rest

def SpellsLine (s : Statement) (ts : List Token) : Prop :=
  ∃ s', s'.unplaced = s.unplaced ∧ ∀ rest, Line s' (ts ++ rest) rest

namespace Speech

theorem unplaced_prependText (text : String) (s : Speech) :
    (s.prependText text).unplaced = s.unplaced.prependText text := rfl

theorem unplaced_prependPlaceholder (e : Expression) (s : Speech) :
    (s.prependPlaceholder e).unplaced = s.unplaced.prependPlaceholder e.unplaced := rfl

variable {text : String} {e : Expression} {placeholders : List (Expression × String)}
  {ts us : List Token}

theorem spells_silence : SpellsSpeech ⟨"", []⟩ [] := fun stop => ⟨.ofString "", stop, rfl, fun _ => .nil⟩

theorem spells_stretch {emitted : Bool} (h : IsStretch text emitted ts)
    (hus : SpellsSpeech ⟨"", placeholders⟩ us) : SpellsSpeech ⟨text, placeholders⟩ (ts ++ us) := by
  rcases h with ⟨rfl, rfl, -⟩ | ⟨t, rfl, hkind, rfl⟩
  · exact hus
  · intro stop
    obtain ⟨speech', stop', hsame, hparts⟩ := hus t.span.stop
    refine ⟨speech'.prependText t.value, stop', ?_, fun rest => .text hkind (hparts rest)⟩
    rw [unplaced_prependText, hsame]
    simp only [unplaced, prependText, String.append_empty]

theorem spells_placeholder {opening close : Token} (hopening : opening.kind = .placeholderStart)
    (hclose : close.kind = .placeholderEnd) (he : SpellsExpression e ts)
    (hus : SpellsSpeech ⟨text, placeholders⟩ us) :
    SpellsSpeech ⟨"", (e, text) :: placeholders⟩ (opening :: (ts ++ close :: us)) := by
  intro stop
  obtain ⟨e', hee', he⟩ := Expression.spells_disjunction he
  obtain ⟨speech', stop', hsame, hparts⟩ := hus close.span.stop
  refine ⟨speech'.prependPlaceholder e', stop', ?_, fun rest => ?_⟩
  · rw [unplaced_prependPlaceholder, hsame, hee']
    rfl
  · have hinner := he (close :: (us ++ rest))
    have hwhole : Parts stop _ _ _ _ := .placeholder hopening hclose hinner (hparts rest)
    simpa using hwhole

end Speech

namespace Scanner

variable {s : Scanner} {k : List Char}

def following (placeholders : List (Expression × String)) : List Char :=
  placeholders.flatMap fun p => p.1.renderPlaceholder.toList ++ escapeChars p.2.toList

theorem following_cons (e : Expression) (run : String) (placeholders : List (Expression × String))
    (k : List Char) : following ((e, run) :: placeholders) ++ k =
      '#' :: '{' :: (e.render.toList ++ '}' :: (escapeChars run.toList ++ (following placeholders ++ k))) := by
  simp [following, Expression.renderPlaceholder]

theorem scans_speech {placeholders : List (Expression × String)} {run : String} {modes : List Mode}
    {quote : Position} {emitted : Bool} (hfinished : s.finished = false)
    (hmodes : s.modes = .text quote emitted :: modes) (hcontent : emitted = true → s.hasContent = true)
    (hrun : IsPlain run.toList) (hplain : ∀ p ∈ placeholders, IsPlain p.2.toList)
    (hwritable : ∀ p ∈ placeholders, p.1.Writable)
    (hrest : s.cursor.rest = escapeChars run.toList ++ (following placeholders ++ '"' :: k)) :
    ∃ ts c, c.rest = k ∧ Scans s ts { s with cursor := c, modes, hasContent := true } ∧
      SpellsSpeech ⟨run, placeholders⟩ ts := by
  -- on the placeholders, over every run that can stand before them
  induction placeholders generalizing s run emitted with
  | nil =>
    obtain ⟨ts, c, hc, hstretch, hscans⟩ := scans_closing hfinished hmodes hcontent hrun hrest
    have hspells := Speech.spells_stretch hstretch Speech.spells_silence
    rw [List.append_nil] at hspells
    exact ⟨ts, c, hc, hscans, hspells⟩
  | cons p placeholders ih =>
    obtain ⟨e, text⟩ := p
    rw [following_cons] at hrest
    obtain ⟨ts, t, opening, c₁, hc₁, hstretch, hopening, hscans₁⟩ :=
      scans_opening hfinished hmodes hrun hrest
    -- within the placeholder words and marks are read, whatever the string around it
    have hinner : Ready { s with
        cursor := c₁
        modes := .placeholder opening :: .text quote true :: modes
        hasContent := true } := ⟨hfinished, .inr rfl⟩
    have he : e.Writable := hwritable _ List.mem_cons_self
    obtain ⟨us, c₂, hc₂, hscans₂, hspells⟩ := he.isWritten _ _ hinner hc₁ (breaks_cons (by decide) _)
    obtain ⟨close, c₃, hclose, hc₃, hscans₃⟩ := scans_brace (hinner.moved c₂).unfinished rfl hc₂
    obtain ⟨vs, c₄, hc₄, hscans₄, hspells'⟩ := ih (s := { s with
        cursor := c₃
        modes := .text quote true :: modes
        hasContent := true }) hfinished rfl (fun _ => rfl) (hplain _ List.mem_cons_self)
      (fun p hp => hplain p (List.mem_cons_of_mem _ hp))
      (fun p hp => hwritable p (List.mem_cons_of_mem _ hp)) hc₃
    have hscans := hscans₁.trans (hscans₂.trans (hscans₃.trans hscans₄))
    rw [List.append_assoc] at hscans
    exact ⟨_, c₄, hc₄, hscans,
      Speech.spells_stretch hstretch (Speech.spells_placeholder hopening hclose hspells hspells')⟩

/-- From `s` on, the rest of the line in front of `k` is scanned without an error to tokens with the
property `P`. -/
def WritesLine (s : Scanner) (k : List Char) (P : List Token → Prop) : Prop :=
  ∃ ts c, c.rest = k ∧ P ts ∧
    Scans s ts { s with cursor := c, hasContent := false, atLineStart := true }

theorem scans_reference {target : String} (htarget : IsName target.toList) (hs : s.Ready)
    (hrest : s.cursor.rest = ":".toList ++ (target.toList ++ k)) (hk : Breaks k) :
    ∃ colon name c, colon.kind = .colon ∧ name.kind = .identifier ∧ name.value = target ∧
      c.rest = k ∧ Scans s [colon, name] (s.moved c) := by
  have hhead := ((leads_of_isName htarget).append k).head?_ne
  obtain ⟨colon, c₁, hcolon, hc₁, hscans₁⟩ := scans_mark (m := (":", .colon)) (by decide) hs hrest hhead
  obtain ⟨name, c₂, hname, hvalue, hc₂, hscans₂⟩ := scans_name htarget (hs.moved c₁) hc₁ hk
  exact ⟨colon, name, c₂, hcolon, hname, hvalue, hc₂, hscans₁.trans hscans₂⟩

theorem writesLine_goto {target : String} {span targetSpan : Span} (htarget : IsName target.toList)
    (hs : s.Ready) (hmodes : s.modes = [])
    (hrest : s.cursor.rest = (Statement.goto target span targetSpan).render.toList ++ '\n' :: k) :
    s.WritesLine k (SpellsLine (.goto target span targetSpan)) := by
  have hrender : (Statement.goto target span targetSpan).render.toList ++ '\n' :: k =
      "goto".toList ++ ' ' :: (":".toList ++ (target.toList ++ '\n' :: k)) := by
    simp [Statement.render]
  rw [hrender] at hrest
  obtain ⟨word, c₁, hword, hc₁, hscans₁⟩ := scans_spacedKeyword (m := ("goto", .gotoWord)) (by decide) hs
    hrest (by simp [isIndentChar])
  obtain ⟨colon, name, c₂, hcolon, hname, rfl, hc₂, hscans₂⟩ := scans_reference htarget (hs.moved c₁) hc₁
    (breaks_cons (by decide) _)
  obtain ⟨lineEnd, c₃, hend, hc₃, hscans₃⟩ := scans_lineEnd (hs.moved c₂) hmodes rfl hc₂
  refine ⟨_, c₃, hc₃, ?_, hscans₁.trans (hscans₂.trans hscans₃)⟩
  exact ⟨.goto name.value ⟨word.span.start, name.span.stop⟩ ⟨colon.span.start, name.span.stop⟩, rfl,
    fun rest => .goto hword hcolon hname hend⟩

theorem mem_marks_assign (operator : AssignOperator) :
    ∃ m ∈ TokenKind.marks, m.1 = operator.symbol ∧ AssignOperator.ofToken? m.2 = some operator := by
  cases operator <;> decide

theorem writesLine_assign {name : String} {operator : AssignOperator} {value : Expression} {span : Span}
    (hname : IsName name.toList) (hvalue : value.Writable) (hs : s.Ready) (hmodes : s.modes = [])
    (hrest : s.cursor.rest = (Statement.assign name operator value span).render.toList ++ '\n' :: k) :
    s.WritesLine k (SpellsLine (.assign name operator value span)) := by
  obtain ⟨m, hm, hsymbol, hoperator⟩ := mem_marks_assign operator
  have hrender : (Statement.assign name operator value span).render.toList ++ '\n' :: k =
      "@".toList ++ (name.toList ++ ' ' :: (m.1.toList ++ ' ' :: (value.render.toList ++ '\n' :: k))) := by
    simp [Statement.render, hsymbol]
  rw [hrender] at hrest
  obtain ⟨sign, c₁, hsign, hc₁, hscans₁⟩ := scans_mark (m := ("@", .atSign)) (by decide) hs hrest
    ((leads_of_isName hname).append _).head?_ne
  obtain ⟨t, c₂, hkind, rfl, hc₂, hscans₂⟩ := scans_name hname (hs.moved c₁) hc₁
    (breaks_cons (by decide) _)
  obtain ⟨c₃, hc₃, hscans₃⟩ := scans_blank (hs.moved c₂) rfl hc₂ (mark_not_blank hm _)
  obtain ⟨mark, c₄, hmark, hc₄, hscans₄⟩ := scans_spacedMark hm (hs.moved c₃) hc₃
    (hvalue.leads.append _).not_blank
  obtain ⟨ts, c₅, hc₅, hscans₅, hspells⟩ := hvalue.isWritten _ _ (hs.moved c₄) hc₄
    (breaks_cons (by decide) _)
  obtain ⟨lineEnd, c₆, hend, hc₆, hscans₆⟩ := scans_lineEnd (hs.moved c₅) hmodes rfl hc₅
  refine ⟨_, c₆, hc₆, ?_, hscans₁.trans (hscans₂.trans (hscans₃.trans (hscans₄.trans
    (hscans₅.trans hscans₆))))⟩
  obtain ⟨value', hsame, hderives⟩ := Expression.spells_disjunction hspells
  have hlookup : assignments.lookup mark.kind = some operator := by
    rw [assignments_lookup, hmark, hoperator]
  refine ⟨.assign t.value operator value' ⟨sign.span.start, value'.span.stop⟩, ?_, fun rest => ?_⟩
  · simp only [Statement.unplaced, hsame]
  · have hline := Line.assign hsign hkind hlookup hend (hderives (lineEnd :: rest))
    simpa using hline

theorem writesLine_say {speech : Speech} {span : Span} (hplain : ∀ run ∈ speech.runs, IsPlain run.toList)
    (hwritable : ∀ p ∈ speech.placeholders, p.1.Writable) (hs : s.Ready) (hmodes : s.modes = [])
    (hrest : s.cursor.rest = (Statement.say speech span).render.toList ++ '\n' :: k) :
    s.WritesLine k (SpellsLine (.say speech span)) := by
  have hrender : (Statement.say speech span).render.toList ++ '\n' :: k =
      "say".toList ++ ' ' :: '"' :: (escapeChars speech.opening.toList ++
        (following speech.placeholders ++ '"' :: '\n' :: k)) := by
    simp [Statement.render, Speech.render, escape, following, List.flatMap_map]
  rw [hrender] at hrest
  obtain ⟨word, c₁, hword, hc₁, hscans₁⟩ := scans_spacedKeyword (m := ("say", .sayWord)) (by decide) hs
    hrest (by simp [isIndentChar])
  obtain ⟨c₂, quote, hc₂, hscans₂⟩ := scans_quote (hs.moved c₁) hc₁
  have hruns : ∀ p ∈ speech.placeholders, IsPlain p.2.toList := fun p hp =>
    hplain p.2 (List.mem_cons_of_mem _ (List.mem_map_of_mem hp))
  obtain ⟨ts, c₃, hc₃, hscans₃, hspells⟩ := scans_speech (s := { s.moved c₁ with
      cursor := c₂
      modes := .text quote false :: s.modes }) hs.unfinished rfl (fun _ => rfl)
    (hplain _ List.mem_cons_self) hruns hwritable hc₂
  obtain ⟨lineEnd, c₄, hend, hc₄, hscans₄⟩ := scans_lineEnd (hs.moved c₃) hmodes rfl hc₃
  refine ⟨_, c₄, hc₄, ?_, hscans₁.trans (hscans₂.trans (hscans₃.trans hscans₄))⟩
  obtain ⟨speech', stop', hsame, hparts⟩ := hspells word.span.stop
  refine ⟨.say speech' ⟨word.span.start, stop'⟩, ?_, fun rest => ?_⟩
  · simp only [Statement.unplaced, hsame]
  · have hline := Line.say hword hend (hparts (lineEnd :: rest))
    simpa using hline

def guardText (guard? : Option Expression) : List Char :=
  match guard? with
  | some e => ",".toList ++ ' ' :: ("if".toList ++ (":".toList ++ ' ' :: e.render.toList))
  | none => []

theorem writes_guard {guard? : Option Expression} (hwritable : ∀ e ∈ guard?.toList, e.Writable)
    (hs : s.Ready) (hcontent : s.hasContent = true)
    (hrest : s.cursor.rest = guardText guard? ++ k) (hk : Breaks k) :
    s.Writes k (SpellsGuard guard?) := by
  cases guard? with
  | none =>
    -- without a condition nothing is read, and the line has had something on it before
    have hs' : s.moved s.cursor = s := by rw [moved, ← hcontent]
    refine ⟨[], s.cursor, hrest, ?_, ⟨none, rfl, fun _ => .absent⟩⟩
    rw [hs']
    exact .refl s
  | some e =>
    have he : e.Writable := hwritable e (List.mem_singleton.2 rfl)
    have htext : guardText (some e) ++ k = ",".toList ++ ' ' :: ("if".toList ++ (":".toList ++
        ' ' :: (e.render.toList ++ k))) := by
      simp only [guardText, List.append_assoc, List.cons_append]
    rw [htext] at hrest
    have hword : ("if", TokenKind.ifWord) ∈ TokenKind.keywords := by decide
    obtain ⟨comma, c₁, hcomma, hc₁, hscans₁⟩ := scans_spacedMark (m := (",", .comma)) (by decide) hs hrest
      ((leads_keyword hword).append _).not_blank
    obtain ⟨word, c₂, hword, hc₂, hscans₂⟩ := scans_keyword hword (hs.moved c₁) hc₁
      (breaks_cons (by decide) _)
    obtain ⟨colon, c₃, hcolon, hc₃, hscans₃⟩ := scans_spacedMark (m := (":", .colon)) (by decide)
      (hs.moved c₂) hc₂ (he.leads.append _).not_blank
    obtain ⟨ts, c₄, hc₄, hscans₄, hspells⟩ := he.isWritten _ _ (hs.moved c₃) hc₃ hk
    refine ⟨_, c₄, hc₄, hscans₁.trans (hscans₂.trans (hscans₃.trans hscans₄)), ?_⟩
    obtain ⟨e', hee', hderives⟩ := Expression.spells_disjunction hspells
    refine ⟨some e', ?_, fun rest => .present hcomma hword hcolon (hderives rest)⟩
    simp only [Option.map_some, hee']

theorem writesLine_choice {text target : String} {guard? : Option Expression}
    {span textSpan targetSpan : Span} (htext : IsPlain text.toList) (htarget : IsName target.toList)
    (hwritable : ∀ e ∈ guard?.toList, e.Writable) (hs : s.Ready) (hmodes : s.modes = [])
    (hrest : s.cursor.rest =
      (Statement.choice text target guard? span textSpan targetSpan).render.toList ++ '\n' :: k) :
    s.WritesLine k (SpellsLine (.choice text target guard? span textSpan targetSpan)) := by
  have hrender : (Statement.choice text target guard? span textSpan targetSpan).render.toList ++ '\n' :: k =
      "choice".toList ++ ' ' :: ((stringLiteral text).toList ++ (",".toList ++ ' ' :: (":".toList ++
        (target.toList ++ (guardText guard? ++ '\n' :: k))))) := by
    cases guard? <;> simp [Statement.render, guardText]
  rw [hrender] at hrest
  have hguard : Breaks (guardText guard? ++ '\n' :: k) := by
    cases guard? <;> exact breaks_cons (by decide) _
  obtain ⟨word, c₁, hword, hc₁, hscans₁⟩ := scans_spacedKeyword (m := ("choice", .choiceWord)) (by decide)
    hs hrest (by simp [stringLiteral, isIndentChar])
  obtain ⟨t, c₂, hkind, rfl, hc₂, hscans₂⟩ := scans_string (hs.moved c₁) htext hc₁
  obtain ⟨comma, c₃, hcomma, hc₃, hscans₃⟩ := scans_spacedMark (m := (",", .comma)) (by decide)
    (hs.moved c₂) hc₂ (by simp [isIndentChar])
  obtain ⟨colon, name, c₄, hcolon, hname, rfl, hc₄, hscans₄⟩ := scans_reference htarget (hs.moved c₃) hc₃
    hguard
  obtain ⟨ts, c₅, hc₅, hscans₅, hspells⟩ := writes_guard hwritable (hs.moved c₄) rfl hc₄
    (breaks_cons (by decide) _)
  obtain ⟨lineEnd, c₆, hend, hc₆, hscans₆⟩ := scans_lineEnd (hs.moved c₅) hmodes rfl hc₅
  refine ⟨_, c₆, hc₆, ?_, hscans₁.trans (hscans₂.trans (hscans₃.trans (hscans₄.trans
    (hscans₅.trans hscans₆))))⟩
  obtain ⟨guard?', hsame, hparses⟩ := hspells
  refine ⟨.choice t.value name.value guard?' ⟨word.span.start, (guard?'.map (·.span.stop)).getD
    name.span.stop⟩ t.span ⟨colon.span.start, name.span.stop⟩, ?_, fun rest => ?_⟩
  · simp only [Statement.unplaced, hsame]
  · have hline := Line.choice hword hkind hcomma hcolon hname hend (hparses (lineEnd :: rest))
    simpa using hline

end Scanner

/-- The canonical text of a statement is scanned to tokens that spell it. -/
theorem Statement.Writable.writesLine {st : Statement} (h : st.Writable) {s : Scanner} {k : List Char}
    (hs : s.Ready) (hmodes : s.modes = []) (hrest : s.cursor.rest = st.render.toList ++ '\n' :: k) :
    s.WritesLine k (SpellsLine st) := by
  cases st with
  | assign name operator value span =>
    have hvalue : value.Writable := h.expressions value (List.mem_singleton.2 rfl)
    exact writesLine_assign h.named hvalue hs hmodes hrest
  | say speech span =>
    have hwritable : ∀ p ∈ speech.placeholders, p.1.Writable := fun p hp =>
      h.expressions p.1 (List.mem_map_of_mem hp)
    exact writesLine_say h.plain hwritable hs hmodes hrest
  | choice text target guard? span textSpan targetSpan =>
    have hguard : ∀ e ∈ guard?.toList, e.Writable := h.expressions
    exact writesLine_choice h.named.1 h.named.2 hguard hs hmodes hrest
  | goto target span targetSpan => exact writesLine_goto h.named hs hmodes hrest

end DialogueScript
