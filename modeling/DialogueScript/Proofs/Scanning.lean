import Mathlib
import DialogueScript.Proofs.LexedTokens

namespace DialogueScript

namespace Lexeme

/-- What can stand behind a word, a numeral or a mark without becoming a part of it. -/
def Breaks (text : List Char) : Prop :=
  ∀ c ∈ text.head?, isWordChar c = false ∧ c ≠ '.' ∧ c ≠ '='

theorem Breaks.head?_ne {text : List Char} (h : Breaks text) : text.head? ≠ some '=' :=
  fun heq => (h '=' heq).2.2 rfl

theorem breaks_cons {c : Char} (h : isWordChar c = false ∧ c ≠ '.' ∧ c ≠ '=') (text : List Char) :
    Breaks (c :: text) := by
  intro d hd
  obtain rfl := Option.some.inj hd
  exact h

/-- Text that can stand behind a blank or a mark without becoming a part of it. -/
def Leads (text : List Char) : Prop := ∃ c, text.head? = some c ∧ isIndentChar c = false ∧ c ≠ '='

theorem Leads.append {text : List Char} (h : Leads text) (k : List Char) : Leads (text ++ k) := by
  obtain ⟨c, hc, hother⟩ := h
  obtain ⟨rest, rfl⟩ := List.head?_eq_some_iff.1 hc
  exact ⟨c, rfl, hother⟩

theorem Leads.head?_ne {text : List Char} (h : Leads text) : text.head? ≠ some '=' := by
  obtain ⟨c, hc, -, hne⟩ := h
  rw [hc]
  exact fun heq => hne (Option.some.inj heq)

theorem Leads.not_blank {text : List Char} (h : Leads text) :
    ∀ c ∈ text.head?, isIndentChar c = false := by
  obtain ⟨c, hc, hblank, -⟩ := h
  intro d hd
  rw [hc] at hd
  exact Option.some.inj hd ▸ hblank

theorem leads_of_isWordChar {c : Char} {text : List Char} (h : isWordChar c = true) :
    Leads (c :: text) := by
  refine ⟨c, rfl, ?_, ?_⟩
  · by_contra hblank
    simp only [Bool.not_eq_false, isIndentChar, Bool.or_eq_true, decide_eq_true_eq] at hblank
    rcases hblank with rfl | rfl <;> exact absurd h (by decide)
  · rintro rfl
    exact absurd h (by decide)

theorem isWordChar_of_isDigit {c : Char} (h : c.isDigit = true) : isWordChar c = true := by
  simp [isWordChar, Char.isAlphanum, h]

theorem isWordStart_of_isDigit {c : Char} (h : c.isDigit = true) : isWordStart c = false := by
  by_contra hstart
  simp only [Bool.not_eq_false, isWordStart, Bool.or_eq_true, decide_eq_true_eq] at hstart
  simp only [Char.isDigit, Bool.and_eq_true, decide_eq_true_eq, UInt32.le_iff_toNat_le] at h
  have : '9'.val.toNat = 57 := rfl
  rcases hstart with hstart | rfl
  · simp only [Char.isAlpha, Char.isUpper, Char.isLower, Bool.or_eq_true, Bool.and_eq_true,
      decide_eq_true_eq, UInt32.le_iff_toNat_le] at hstart
    have : 'A'.val.toNat = 65 := rfl
    have : 'a'.val.toNat = 97 := rfl
    omega
  · exact absurd h.2 (by decide)

theorem read?_word {word k : List Char} (hstart : ∃ c rest, word = c :: rest ∧ isWordStart c = true)
    (hword : ∀ c ∈ word, isWordChar c = true) (hk : Breaks k) :
    read? (word ++ k) =
      some ⟨some ((TokenKind.keyword? (String.ofList word)).getD .identifier), word⟩ := by
  have htake := (takeWhile_stretch k hword fun c hc => (hk c hc).1).1
  obtain ⟨c, rest, rfl, hc⟩ := hstart
  unfold read?
  simp only [List.cons_append, hc, ↓reduceIte] at htake ⊢
  rw [htake]

theorem read?_name {name k : List Char} (h : IsName name) (hk : Breaks k) :
    read? (name ++ k) = some ⟨some .identifier, name⟩ := by
  obtain ⟨hstart, hword, hkeyword⟩ := h
  rw [read?_word hstart hword hk, hkeyword]
  rfl

theorem exists_cons_of_any_head? {p : Char → Bool} {text : List Char} (h : text.head?.any p = true) :
    ∃ c rest, text = c :: rest ∧ p c = true := by
  cases text with
  | nil => cases h
  | cons c rest => exact ⟨c, rest, rfl, h⟩

theorem keyword_word {m : String × TokenKind} (hm : m ∈ TokenKind.keywords) :
    (∃ c rest, m.1.toList = c :: rest ∧ isWordStart c = true) ∧
      (∀ c ∈ m.1.toList, isWordChar c = true) ∧ TokenKind.keyword? m.1 = some m.2 := by
  have hword : ∀ m ∈ TokenKind.keywords, m.1.toList.head?.any isWordStart = true ∧
      m.1.toList.all isWordChar = true ∧ TokenKind.keyword? m.1 = some m.2 := by decide
  obtain ⟨hstart, hchars, hkeyword⟩ := hword m hm
  exact ⟨exists_cons_of_any_head? hstart, List.all_eq_true.1 hchars, hkeyword⟩

theorem read?_keyword {m : String × TokenKind} (hm : m ∈ TokenKind.keywords) {k : List Char}
    (hk : Breaks k) : read? (m.1.toList ++ k) = some ⟨some m.2, m.1.toList⟩ := by
  obtain ⟨hstart, hchars, hkeyword⟩ := keyword_word hm
  rw [read?_word hstart hchars hk, String.ofList_toList, hkeyword]
  rfl

theorem leads_keyword {m : String × TokenKind} (hm : m ∈ TokenKind.keywords) : Leads m.1.toList := by
  obtain ⟨⟨c, rest, hrest, hc⟩, -⟩ := keyword_word hm
  rw [hrest]
  exact leads_of_isWordChar (isWordChar_of_isWordStart hc)

theorem leads_of_isName {name : List Char} (h : IsName name) : Leads name := by
  obtain ⟨⟨c, rest, rfl, hc⟩, -, -⟩ := h
  exact leads_of_isWordChar (isWordChar_of_isWordStart hc)

theorem numeral_decimalText {whole fraction k : List Char} (hwhole : ∀ c ∈ whole, c.isDigit = true)
    (hfraction : ∀ c ∈ fraction, c.isDigit = true) (hk : Breaks k) :
    numeral (decimalText whole fraction ++ k) = decimalText whole fraction := by
  have hdigit : ∀ c ∈ k.head?, c.isDigit = false := by
    intro c hc
    by_contra hdigit
    have hchar := isWordChar_of_isDigit (Bool.not_eq_false _ ▸ hdigit)
    exact absurd hchar (by simp [(hk c hc).1])
  unfold decimalText
  by_cases hnil : fraction = []
  · rw [if_pos hnil, List.append_nil]
    obtain ⟨htake, hdrop⟩ := takeWhile_stretch k hwhole hdigit
    unfold numeral
    -- without a fraction the numeral must not run into a point
    rw [htake, hdrop]
    cases k with
    | nil => simp
    | cons c k =>
      have hc : c ≠ '.' := (hk c rfl).2.1
      split
      · rename_i heq
        exact absurd (List.cons.inj heq).1 hc
      · rw [List.append_nil]
  · rw [if_neg hnil, List.append_assoc]
    obtain ⟨htake, hdrop⟩ := takeWhile_stretch (('.' :: fraction) ++ k) hwhole (by simp [Char.isDigit])
    obtain ⟨htake', -⟩ := takeWhile_stretch k hfraction hdigit
    unfold numeral
    rw [htake, hdrop]
    simp [htake', hnil]

theorem read?_numeral {text k : List Char} (h : IsNumeral text) (hk : Breaks k) :
    read? (text ++ k) = some ⟨some .number, text⟩ := by
  obtain ⟨whole, fraction, rfl, hne, hdigits⟩ := h
  have hnumeral := numeral_decimalText (fun c hc => hdigits c (List.mem_append_left _ hc))
    (fun c hc => hdigits c (List.mem_append_right _ hc)) hk
  obtain ⟨c, rest, rfl⟩ := List.exists_cons_of_ne_nil hne
  have hc : c.isDigit = true := hdigits c (by simp)
  obtain ⟨tail, htail⟩ : ∃ tail, decimalText (c :: rest) fraction = c :: tail := ⟨_, rfl⟩
  rw [htail] at hnumeral ⊢
  unfold read?
  simp only [List.cons_append, isWordStart_of_isDigit hc, hc, Bool.false_eq_true, ↓reduceIte]
    at hnumeral ⊢
  rw [hnumeral]

theorem isPrefixOf_mark {m n : String × TokenKind} (hm : m ∈ TokenKind.marks) (hn : n ∈ TokenKind.marks)
    {k : List Char} (hk : k.head? ≠ some '=') :
    n.1.toList.isPrefixOf (m.1.toList ++ k) = n.1.toList.isPrefixOf m.1.toList := by
  have hlonger : ∀ m ∈ TokenKind.marks, ∀ n ∈ TokenKind.marks, m.1.toList.isPrefixOf n.1.toList = true →
      (n.1.toList.drop m.1.toList.length).head?.all (· = '=') = true := by decide +kernel
  rw [Bool.eq_iff_iff, List.isPrefixOf_iff_prefix, List.isPrefixOf_iff_prefix]
  constructor
  · intro hprefix
    -- a longer mark would have to go on with what stands behind this one
    rcases List.prefix_or_prefix_of_prefix hprefix (List.prefix_append _ k) with hshort | ⟨more, hmore⟩
    · exact hshort
    · have hnext := hlonger m hm n hn (List.isPrefixOf_iff_prefix.2 ⟨more, hmore⟩)
      rw [← hmore, List.drop_left] at hnext
      rw [← hmore, List.prefix_append_right_inj] at hprefix
      cases more with
      | nil => rw [← hmore, List.append_nil]
      | cons c more =>
        obtain ⟨rest, rfl⟩ := hprefix
        have hequals : c = '=' := by simpa using hnext
        exact absurd (congrArg some hequals) hk
  · exact fun hprefix => hprefix.trans (List.prefix_append _ k)

theorem mark_first {m : String × TokenKind} (hm : m ∈ TokenKind.marks) :
    ∃ c rest, m.1.toList = c :: rest ∧ isWordStart c = false ∧ c.isDigit = false ∧
      isIndentChar c = false ∧ c ≠ '#' := by
  have hfirst : ∀ m ∈ TokenKind.marks, m.1.toList.head?.any
      (fun c => !isWordStart c && !c.isDigit && !isIndentChar c && !(c = '#')) = true := by decide
  obtain ⟨c, rest, hrest, hc⟩ := exists_cons_of_any_head? (hfirst m hm)
  refine ⟨c, rest, hrest, ?_⟩
  simpa [and_assoc] using hc

theorem mark_not_blank {m : String × TokenKind} (hm : m ∈ TokenKind.marks) (k : List Char) :
    ∀ c ∈ (m.1.toList ++ k).head?, isIndentChar c = false := by
  obtain ⟨first, rest, hrest, -, -, hblank, -⟩ := mark_first hm
  intro c hc
  rw [hrest] at hc
  exact Option.some.inj hc ▸ hblank

/-- A mark is read whole unless an `=` behind it makes a longer one. -/
theorem read?_mark {m : String × TokenKind} (hm : m ∈ TokenKind.marks) {k : List Char}
    (hk : k.head? ≠ some '=') : read? (m.1.toList ++ k) = some ⟨some m.2, m.1.toList⟩ := by
  have halone : ∀ m ∈ TokenKind.marks,
      TokenKind.marks.find? (·.1.toList.isPrefixOf m.1.toList) = some m := by decide +kernel
  have hfind : TokenKind.marks.find? (·.1.toList.isPrefixOf (m.1.toList ++ k)) = some m := by
    rw [← halone m hm]
    exact List.find?_congr fun n hn => isPrefixOf_mark hm hn hk
  obtain ⟨c, rest, hrest, hword, hdigit, hblank, hhash⟩ := mark_first hm
  unfold read?
  rw [hrest] at hfind ⊢
  simp only [List.cons_append, hword, hdigit, hblank, hhash, Bool.false_eq_true, ↓reduceIte] at hfind ⊢
  rw [hfind, Option.map_some, hrest]

theorem read?_first {c : Char} {rest : List Char} {lexeme : Lexeme}
    (h : read? (c :: rest) = some lexeme) : isBreak c = false ∧ c ≠ '"' ∧ c ≠ '}' := by
  have hnone : ∀ c ∈ ['\n', '\r', '"', '}'], ∀ rest, read? (c :: rest) = none := by
    intro c hc rest
    simp only [List.mem_cons, List.not_mem_nil, or_false] at hc
    rcases hc with rfl | rfl | rfl | rfl <;> rfl
  have hc : c ∉ ['\n', '\r', '"', '}'] := by
    intro hc
    rw [hnone c hc rest] at h
    cases h
  simpa [isBreak, and_assoc] using hc

end Lexeme

namespace TextRun

theorem read_char {c : Char} {rest : List Char} (hquote : c ≠ '"') (hslash : c ≠ '\\')
    (hbreak : isBreak c = false) (hplaceholder : ¬ (c = '#' ∧ rest.head? = some '{')) (offset : Nat)
    (position : Position) :
    read offset position (c :: rest) = (read (offset + c.utf8Size) position.nextColumn rest).cons c := by
  rw [read.eq_def]
  split
  all_goals simp_all [isBreak]

theorem head?_escapeChars {text k : List Char} {c : Char} (hc : c ≠ '\\')
    (h : (escapeChars text ++ k).head? = some c) : text.head? = some c ∨ text = [] ∧ k.head? = some c := by
  cases text with
  | nil => exact .inr ⟨rfl, h⟩
  | cons d text =>
    left
    simp only [escapeChars, List.flatMap_cons, List.append_assoc] at h
    unfold escapeChar at h
    split_ifs at h
    iterate 5 exact absurd (Option.some.inj h).symm hc
    exact h

/-- Escaped text is read as the text, whatever ends it. -/
theorem read_escapeChars {text k : List Char} {stop : TextStop} (hplain : IsPlain text)
    (hstop : ∀ offset position, read offset position k = ⟨[], stop, ⟨k, offset, position⟩⟩)
    (hhead : k.head? ≠ some '{') (offset : Nat) (position : Position) :
    ∃ cursor, cursor.rest = k ∧ read offset position (escapeChars text ++ k) = ⟨text, stop, cursor⟩ := by
  induction text generalizing offset position with
  | nil => exact ⟨_, rfl, hstop offset position⟩
  | cons c text ih =>
    obtain ⟨hplain, hjoin⟩ := isPlain_cons.1 hplain
    rw [escapeChars, List.flatMap_cons, List.append_assoc, ← escapeChars]
    -- what is escaped is two characters long and never opens a placeholder
    by_cases hescaped : c ∈ ['\\', '"', '\n', '\t', '\r']
    · obtain ⟨cursor, hrest, hread⟩ := ih hplain (offset + 2) (position.along 2)
      refine ⟨cursor, hrest, ?_⟩
      simp only [List.mem_cons, List.not_mem_nil, or_false] at hescaped
      rcases hescaped with rfl | rfl | rfl | rfl | rfl
      all_goals
        simp only [escapeChar, Char.reduceEq, ↓reduceIte, List.cons_append, List.nil_append]
        rw [read]
        simp only [unescape?, Char.reduceEq, ↓reduceIte]
        rw [hread]
        rfl
    · obtain ⟨cursor, hrest, hread⟩ := ih hplain (offset + c.utf8Size) position.nextColumn
      refine ⟨cursor, hrest, ?_⟩
      simp only [List.mem_cons, List.not_mem_nil, or_false, not_or] at hescaped
      obtain ⟨hslash, hquote, hfeed, htab, hreturn⟩ := hescaped
      rw [escapeChar, if_neg hslash, if_neg hquote, if_neg hfeed, if_neg htab, if_neg hreturn,
        List.singleton_append, read_char hquote hslash (by simp [isBreak, hfeed, hreturn]) ?_, hread]
      · rfl
      · rintro ⟨rfl, hbrace⟩
        rcases head?_escapeChars (by decide) hbrace with htext | ⟨-, hk⟩
        -- a placeholder would open within the text, or where it ends
        · exact hjoin ⟨rfl, htext⟩
        · exact hhead hk

end TextRun

namespace Scanner

/-- Steps without an error, and the tokens that they make. -/
inductive Scans : Scanner → List Token → Scanner → Prop
  | refl (s : Scanner) : Scans s [] s
  | step {s s' : Scanner} {ts : List Token} (hfinished : s.finished = false)
    (herror : s.step.error = none) (hscans : Scans s.step.next ts s') :
    Scans s (s.step.tokens ++ ts) s'

variable {s s' s'' : Scanner} {ts ts' : List Token}

theorem Scans.trans (h : Scans s ts s') (h' : Scans s' ts' s'') : Scans s (ts ++ ts') s'' := by
  induction h with
  | refl => exact h'
  | step hfinished herror _ ih =>
    rw [List.append_assoc]
    exact .step hfinished herror (ih h')

theorem Scans.of_step (hfinished : s.finished = false) (h : s.step = ⟨ts, none, s'⟩) :
    Scans s ts s' := by
  have hscans := Scans.step hfinished (by rw [h]) (Scans.refl s.step.next)
  rwa [h, List.append_nil] at hscans

theorem Scans.run (h : Scans s ts s') : s.run = (ts ++ s'.run.1, s'.run.2) := by
  induction h with
  | refl => rfl
  | step hfinished herror _ ih =>
    rw [Scanner.run, dif_neg (by simp [hfinished])]
    simp only [ih, herror, Option.toList_none, List.nil_append, List.append_assoc]

theorem Scans.run_eq (h : Scans s ts s') (hfinished : s'.finished = true) : s.run = (ts, []) := by
  rw [h.run, run_of_finished hfinished, List.append_nil]

/-- Words and marks are read next: the scan is not inside of string text, and not at the beginning of
a line. -/
structure Ready (s : Scanner) : Prop where
  unfinished : s.finished = false
  plain : s.modes = [] ∧ s.atLineStart = false ∨ s.inPlaceholder = true

def moved (s : Scanner) (c : Cursor) : Scanner := { s with cursor := c, hasContent := true }

theorem Ready.moved (h : s.Ready) (c : Cursor) : (s.moved c).Ready := ⟨h.unfinished, h.plain⟩

theorem Ready.step_eq (h : s.Ready) : s.step = s.scanPlain := by
  obtain ⟨-, ⟨hmodes, hline⟩ | hplaceholder⟩ := h
  · simp [step, hmodes, hline]
  · unfold inPlaceholder at hplaceholder
    unfold step
    split at hplaceholder
    · rename_i hmodes
      simp only [hmodes]
    · cases hplaceholder

theorem scans_lexeme {text k : List Char} {kind : TokenKind} (hs : s.Ready)
    (hrest : s.cursor.rest = text ++ k) (hread : Lexeme.read? (text ++ k) = some ⟨some kind, text⟩)
    (hcontent : kind.isContent = true) :
    ∃ t c, t.kind = kind ∧ t.value = String.ofList text ∧ c.rest = k ∧ Scans s [t] (s.moved c) := by
  -- a lexeme is at least one character, and the scanner looks at that one first
  have hpos := Lexeme.read?_length_pos hread
  obtain ⟨first, rest, rfl⟩ := List.exists_cons_of_length_pos hpos
  obtain ⟨hbreak, hquote, hbrace⟩ := Lexeme.read?_first hread
  let cursor := s.cursor.along (first :: rest).length
  have hcursor : cursor.rest = k := by
    simp only [cursor, Cursor.along, hrest]
    exact List.drop_left
  refine ⟨⟨kind, String.ofList (first :: rest), ⟨s.cursor.position, cursor.position⟩⟩, cursor, rfl, rfl,
    hcursor, .of_step hs.unfinished ?_⟩
  have hlexeme : s.scanPlain = s.scanLexeme first := by
    unfold scanPlain
    simp [hrest, hbreak, hquote, hbrace]
  have hnote : ∀ token : Token, token.kind = kind → ∀ s : Scanner,
      note s token = { s with hasContent := true } := by
    intro token hkind s
    rw [note, if_pos (by rw [hkind, hcontent])]
  rw [hs.step_eq, hlexeme]
  unfold scanLexeme
  rw [hrest, hread]
  simp only [Step.emit, List.foldl_cons, List.foldl_nil, hnote, cursor]
  rfl

theorem scans_mark {m : String × TokenKind} (hm : m ∈ TokenKind.marks) {k : List Char} (hs : s.Ready)
    (hrest : s.cursor.rest = m.1.toList ++ k) (hk : k.head? ≠ some '=') :
    ∃ t c, t.kind = m.2 ∧ c.rest = k ∧ Scans s [t] (s.moved c) := by
  have hcontent : ∀ m ∈ TokenKind.marks, m.2.isContent = true := by decide
  obtain ⟨t, c, hkind, -, hc, hscans⟩ := scans_lexeme hs hrest (Lexeme.read?_mark hm hk) (hcontent m hm)
  exact ⟨t, c, hkind, hc, hscans⟩

theorem scans_keyword {m : String × TokenKind} (hm : m ∈ TokenKind.keywords) {k : List Char}
    (hs : s.Ready) (hrest : s.cursor.rest = m.1.toList ++ k) (hk : Lexeme.Breaks k) :
    ∃ t c, t.kind = m.2 ∧ c.rest = k ∧ Scans s [t] (s.moved c) := by
  have hcontent : ∀ m ∈ TokenKind.keywords, m.2.isContent = true := by decide
  have hread := Lexeme.read?_keyword hm hk
  obtain ⟨t, c, hkind, -, hc, hscans⟩ := scans_lexeme hs hrest hread (hcontent m hm)
  exact ⟨t, c, hkind, hc, hscans⟩

theorem scans_name {name : String} {k : List Char} (hname : IsName name.toList) (hs : s.Ready)
    (hrest : s.cursor.rest = name.toList ++ k) (hk : Lexeme.Breaks k) :
    ∃ t c, t.kind = .identifier ∧ t.value = name ∧ c.rest = k ∧ Scans s [t] (s.moved c) := by
  have hscans := scans_lexeme hs hrest (Lexeme.read?_name hname hk) rfl
  rwa [String.ofList_toList] at hscans

theorem scans_blank {k : List Char} (hs : s.Ready) (hcontent : s.hasContent = true)
    (hrest : s.cursor.rest = ' ' :: k) (hk : ∀ c ∈ k.head?, Lexeme.isIndentChar c = false) :
    ∃ c, c.rest = k ∧ Scans s [] (s.moved c) := by
  have hblank : ∀ c ∈ [' '], Lexeme.isIndentChar c = true := List.all_eq_true.1 rfl
  have htake : (' ' :: k).takeWhile Lexeme.isIndentChar = [' '] := (takeWhile_stretch k hblank hk).1
  have hread : Lexeme.read? (' ' :: k) = some ⟨none, [' ']⟩ := by
    rw [← htake]
    rfl
  refine ⟨s.cursor.along 1, by simp [Cursor.along, hrest], .of_step hs.unfinished ?_⟩
  have hlexeme : s.scanPlain = s.scanLexeme ' ' := by
    unfold scanPlain
    simp [hrest, isBreak]
  rw [hs.step_eq, hlexeme]
  unfold scanLexeme moved
  rw [hrest, hread, ← hcontent]
  rfl

theorem scans_spacedMark {m : String × TokenKind} (hm : m ∈ TokenKind.marks) {k : List Char}
    (hs : s.Ready) (hrest : s.cursor.rest = m.1.toList ++ ' ' :: k)
    (hk : ∀ c ∈ k.head?, Lexeme.isIndentChar c = false) :
    ∃ t c, t.kind = m.2 ∧ c.rest = k ∧ Scans s [t] (s.moved c) := by
  obtain ⟨t, c, hkind, hc, hscans⟩ := scans_mark hm hs hrest (by simp)
  obtain ⟨c', hc', hscans'⟩ := scans_blank (hs.moved c) rfl hc hk
  exact ⟨t, c', hkind, hc', hscans.trans hscans'⟩

theorem scans_spacedKeyword {m : String × TokenKind} (hm : m ∈ TokenKind.keywords) {k : List Char}
    (hs : s.Ready) (hrest : s.cursor.rest = m.1.toList ++ ' ' :: k)
    (hk : ∀ c ∈ k.head?, Lexeme.isIndentChar c = false) :
    ∃ t c, t.kind = m.2 ∧ c.rest = k ∧ Scans s [t] (s.moved c) := by
  have hblank : Lexeme.Breaks (' ' :: k) := Lexeme.breaks_cons (by decide) k
  obtain ⟨t, c, hkind, hc, hscans⟩ := scans_keyword hm hs hrest hblank
  obtain ⟨c', hc', hscans'⟩ := scans_blank (hs.moved c) rfl hc hk
  exact ⟨t, c', hkind, hc', hscans.trans hscans'⟩

theorem bump_rest {c : Char} {k : List Char} {cursor : Cursor} (h : cursor.rest = c :: k)
    (hc : c ≠ '\r') : cursor.bump.rest = k := by
  unfold Cursor.bump
  split <;> rename_i hrest <;> rw [h] at hrest
  · cases hrest
  · exact absurd (List.cons.inj hrest).1 hc
  · exact (List.cons.inj hrest).2.symm

theorem scans_lineEnd {k : List Char} (hs : s.Ready) (hmodes : s.modes = [])
    (hcontent : s.hasContent = true) (hrest : s.cursor.rest = '\n' :: k) :
    ∃ t c, t.kind = .newline ∧ c.rest = k ∧
      Scans s [t] { s with cursor := c, hasContent := false, atLineStart := true } := by
  refine ⟨⟨.newline, "\n", .point s.cursor.position⟩, s.cursor.bump, rfl,
    bump_rest hrest (by decide), .of_step hs.unfinished ?_⟩
  have hplaceholder : s.inPlaceholder = false := by simp [inPlaceholder, hmodes]
  rw [hs.step_eq]
  unfold scanPlain
  simp [hrest, isBreak, hplaceholder, hcontent, Step.emit, note, TokenKind.isContent]

theorem scans_quote {k : List Char} (hs : s.Ready) (hrest : s.cursor.rest = '"' :: k) :
    ∃ c quote, c.rest = k ∧ Scans s [] { s with cursor := c, modes := .text quote false :: s.modes } := by
  refine ⟨s.cursor.bump, s.cursor.position, bump_rest hrest (by decide), .of_step hs.unfinished ?_⟩
  rw [hs.step_eq]
  unfold scanPlain
  simp [hrest, isBreak, Step.silent]

/-- The tokens of a stretch of string text: one string, or none if there is nothing in it and another
token was made of the string before. -/
def IsStretch (text : String) (emitted : Bool) (ts : List Token) : Prop :=
  (ts = [] ∧ text = "" ∧ emitted = true) ∨ ∃ t, ts = [t] ∧ t.kind = .string ∧ t.value = text

theorem isStretch_ite (emitted : Bool) {text : String} {t : Token} (hkind : t.kind = .string)
    (hvalue : t.value = text) :
    IsStretch text emitted (if text.toList.isEmpty && emitted then [] else [t]) := by
  split
  · rename_i h
    left
    simpa using h
  · exact .inr ⟨t, rfl, hkind, hvalue⟩

variable {modes : List Mode} {quote : Position} {emitted : Bool}

theorem scans_closing {text : String} {k : List Char} (hfinished : s.finished = false)
    (hmodes : s.modes = .text quote emitted :: modes) (hcontent : emitted = true → s.hasContent = true)
    (hplain : IsPlain text.toList) (hrest : s.cursor.rest = escapeChars text.toList ++ '"' :: k) :
    ∃ ts c, c.rest = k ∧ IsStretch text emitted ts ∧
      Scans s ts { s with cursor := c, modes, hasContent := true } := by
  obtain ⟨cursor, hcursor, hread⟩ := TextRun.read_escapeChars (k := '"' :: k) hplain
    (fun _ _ => rfl) (by simp) s.cursor.offset s.cursor.position
  rw [← hrest] at hread
  refine ⟨_, cursor.bump, bump_rest hcursor (by decide), isStretch_ite emitted (t := ⟨.string, text,
    ⟨if emitted then s.cursor.position else quote, cursor.bump.position⟩⟩) rfl rfl,
    .of_step hfinished ?_⟩
  unfold step
  simp only [hmodes]
  unfold scanText
  simp only [hread, hmodes, List.tail_cons, String.ofList_toList, Step.emit]
  split
  · rename_i h
    have hemitted := (Bool.and_eq_true_iff.1 h).2
    simp [hcontent hemitted]
  · rfl

theorem scans_opening {text : String} {k : List Char} (hfinished : s.finished = false)
    (hmodes : s.modes = .text quote emitted :: modes) (hplain : IsPlain text.toList)
    (hrest : s.cursor.rest = escapeChars text.toList ++ '#' :: '{' :: k) :
    ∃ ts t opening c, c.rest = k ∧ IsStretch text true ts ∧ t.kind = .placeholderStart ∧
      Scans s (ts ++ [t]) { s with
        cursor := c
        modes := .placeholder opening :: .text quote true :: modes
        hasContent := true } := by
  obtain ⟨cursor, hcursor, hread⟩ := TextRun.read_escapeChars (k := '#' :: '{' :: k) hplain
    (fun _ _ => rfl) (by simp) s.cursor.offset s.cursor.position
  rw [← hrest] at hread
  have hstretch := isStretch_ite true (t := ⟨.string, text,
    ⟨if emitted then s.cursor.position else quote, cursor.position⟩⟩) rfl rfl
  rw [Bool.and_true] at hstretch
  refine ⟨_, ⟨.placeholderStart, "#\x7b", ⟨cursor.position, (cursor.along 2).position⟩⟩, cursor.position,
    cursor.along 2, by simp [Cursor.along, hcursor], hstretch, rfl, .of_step hfinished ?_⟩
  unfold step
  simp only [hmodes]
  unfold scanText
  simp only [hread, hmodes, List.tail_cons, String.ofList_toList, Step.emit, List.foldl_append]
  split <;> rfl

theorem scans_brace {k : List Char} {opening : Position} (hfinished : s.finished = false)
    (hmodes : s.modes = .placeholder opening :: modes) (hrest : s.cursor.rest = '}' :: k) :
    ∃ t c, t.kind = .placeholderEnd ∧ c.rest = k ∧
      Scans s [t] { s with cursor := c, modes, hasContent := true } := by
  refine ⟨⟨.placeholderEnd, "\x7d", ⟨s.cursor.position, s.cursor.bump.position⟩⟩, s.cursor.bump, rfl,
    bump_rest hrest (by decide), .of_step hfinished ?_⟩
  have hplaceholder : s.inPlaceholder = true := by simp [inPlaceholder, hmodes]
  have hs : s.Ready := ⟨hfinished, .inr hplaceholder⟩
  rw [hs.step_eq]
  unfold scanPlain
  simp [hrest, isBreak, hplaceholder, hmodes, Step.emit, note, TokenKind.isContent]

theorem scans_string {text : String} {k : List Char} (hs : s.Ready) (hplain : IsPlain text.toList)
    (hrest : s.cursor.rest = (stringLiteral text).toList ++ k) :
    ∃ t c, t.kind = .string ∧ t.value = text ∧ c.rest = k ∧ Scans s [t] (s.moved c) := by
  have hliteral : (stringLiteral text).toList ++ k = '"' :: (escapeChars text.toList ++ '"' :: k) := by
    simp [stringLiteral, escape]
  rw [hliteral] at hrest
  obtain ⟨c, quote, hc, hopen⟩ := scans_quote hs hrest
  obtain ⟨ts, c', hc', hstretch, hclose⟩ := scans_closing (s := { s with
    cursor := c, modes := .text quote false :: s.modes }) hs.unfinished rfl (by simp) hplain hc
  -- the first stretch of a string always makes a token
  rcases hstretch with ⟨-, -, hemitted⟩ | ⟨t, rfl, hkind, hvalue⟩
  · cases hemitted
  · exact ⟨t, c', hkind, hvalue, hc', hopen.trans hclose⟩

end Scanner

end DialogueScript
