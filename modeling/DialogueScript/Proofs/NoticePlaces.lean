import DialogueScript.Report
import DialogueScript.Proofs.ErrorPlaces
import DialogueScript.Proofs.FindingPlaces
import DialogueScript.Proofs.StreamedCheck
import DialogueScript.Proofs.TreeTokens

namespace DialogueScript

open Scanner Grammar

section Lines

/-- In a text that begins at byte `offset`, the line is what stands at the byte at which it begins. -/
def TextLine.StandsIn (offset : Nat) (text : List Char) (line : TextLine) : Prop :=
  ∃ before after, text = before ++ line.text ++ after ∧ line.offset = offset + byteLength before

theorem TextLine.StandsIn.behind {line : TextLine} {offset : Nat} {text : List Char} (front : List Char)
    (h : line.StandsIn (offset + byteLength front) text) : line.StandsIn offset (front ++ text) := by
  obtain ⟨before, after, rfl, hoffset⟩ := h
  refine ⟨front ++ before, after, ?_, ?_⟩
  · simp only [List.append_assoc]
  · rw [hoffset, byteLength_append, Nat.add_assoc]

variable {source : String} {p : Position}

end Lines

namespace Notice

variable {source : String} {text : List Char} {n : Notice}

end Notice

namespace Scanner

variable {source : String} {s : Scanner}

theorem Move.strange_error {step : Step} {e : ScriptError} {c : Char} (hmove : Move s step)
    (herror : step.error = some e) (hcause : e.cause = .unexpectedCharacter c) :
    e.position = s.cursor.position ∧ ∃ rest, s.cursor.rest = c :: rest := by
  cases hmove with
  | strange _ hrest =>
    cases herror
    cases hcause
    exact ⟨rfl, _, hrest⟩
  | margin _ _ _ _ _ _ hstep =>
    cases hstep with
    | refuse hrefuse =>
      cases herror
      rcases hrefuse with rfl | ⟨_, _, rfl⟩ <;> cases hcause
    | between =>
      cases herror
      cases hcause
    | deeper | back => cases herror
  | endInText | endInPlaceholder =>
    cases herror
    cases hcause
  | idle | blank | lineEnd | innerBreak | openText | closePlaceholder | pass | word | closeText
  | openPlaceholder | finish => cases herror

theorem Scanned.strange {tokens : List Token} {errors : List ScriptError}
    (h : Scanned source tokens errors s) : ∀ e ∈ errors, ∀ c, e.cause = .unexpectedCharacter c →
      ∃ before after, source.toList = before ++ c :: after ∧
        byteOffset source e.position = some (byteLength before) := by
  induction h with
  | start => exact List.forall_mem_nil _
  | @step tokens errors s h hs ih =>
    refine List.forall_mem_append.2 ⟨ih, fun e he c hcause => ?_⟩
    obtain ⟨hposition, rest, hrest⟩ := (move_step s).strange_error (Option.mem_toList.1 he) hcause
    obtain ⟨passed, shown, before, start, hplaced⟩ := h.lies
    refine ⟨passed, rest, by rw [hplaced.text, hrest], ?_⟩
    rw [hposition, h.lies.byteOffset_eq, hplaced.offset]

end Scanner

namespace Grammar

variable {ts us rest : List Token} {kind : TokenKind} {name : String} {span : Span}

/-- The span is that of two tokens side by side, a sign of the given kind and the name. -/
def Names (ts : List Token) (kind : TokenKind) (name : String) (span : Span) : Prop :=
  ∃ sign word, [sign, word] <:+: ts ∧ sign.kind = kind ∧ word.kind = .identifier ∧ word.value = name ∧
    span = ⟨sign.span.start, word.span.stop⟩

theorem Names.mono (h : Names us kind name span) (hts : us <:+ ts) : Names ts kind name span := by
  obtain ⟨sign, word, hpair, hnames⟩ := h
  exact ⟨sign, word, hpair.trans hts.isInfix, hnames⟩

theorem Derives.names {phrase : Phrase} (h : Derives phrase ts rest) {tier : Tier}
    (hphrase : phrase = .expression tier (.var name span)) : Names ts .atSign name span := by
  induction h generalizing tier with
  | @«variable» sign word ts hsign hword =>
    cases hphrase
    exact ⟨sign, word, ⟨[], ts, rfl⟩, hsign, hword, rfl, rfl⟩
  | parenthesized _ _ _ ih =>
    cases hphrase
    exact (ih rfl).mono (List.suffix_cons _ _)
  | operand _ _ ih =>
    cases hphrase
    exact ih rfl
  | number | text | yes | no | emptyCall | call | unary | binary | lastArgument | argument => cases hphrase

theorem Spelled.names (h : Spelled ts (.var name span)) : Names ts .atSign name span := by
  obtain ⟨us, rest, tier, hsuffix, he⟩ := h
  exact (he.names rfl).mono hsuffix

theorem Line.names {s : Statement} (h : Line s ts rest) (htarget : s.target? = some (name, span)) :
    Names ts .colon name span := by
  cases h with
  | @choice word text comma colon target guard? lineEnd ts rest _ _ _ hcolon hname =>
    cases htarget
    exact ⟨colon, target, ⟨[word, text, comma], ts, rfl⟩, hcolon, hname, rfl, rfl⟩
  | @goto word colon target lineEnd rest _ hcolon hname =>
    cases htarget
    exact ⟨colon, target, ⟨[word], lineEnd :: rest, rfl⟩, hcolon, hname, rfl, rfl⟩
  | assign | say => cases htarget

/-- In a text, what is spelled by a mark and a name begins with the one and ends with the other. -/
theorem Names.spells {source : String} {tokens : List Token} {m : String × TokenKind}
    (h : Names tokens m.2 name span) (hm : m ∈ TokenKind.marks) (hlex : lex source = .ok tokens) :
    ∃ inner, Spells source span (m.1.toList ++ inner ++ name.toList) := by
  obtain ⟨sign, word, hpair, hsign, hword, rfl, rfl⟩ := h
  have hverbatim : ∀ m ∈ TokenKind.marks, m.2.isVerbatim = true := by decide
  have hvalue := mark_value_of_lex hlex sign (hpair.mem List.mem_cons_self) m hm hsign
  obtain ⟨c, htiles⟩ := tiles_of_lex hlex
  rw [← hvalue]
  exact htiles.spells_pair hpair (hsign ▸ hverbatim m hm) (by rw [hword]; rfl)

end Grammar

namespace Program

variable {source : String} {tokens : List Token} {program : Program} {f : Finding}

end Program

section Places

variable {source : String} {tokens : List Token} {errors : List ScriptError} {program : Program}

end Places

end DialogueScript
