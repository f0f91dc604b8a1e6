import DialogueScript.Proofs.RoundTrip

namespace DialogueScript

open Scanner

theorem exists_opening_of_not_isPlain {text : List Char} (h : ¬ IsPlain text) :
    ∃ before after, text = before ++ '#' :: '{' :: after ∧ IsPlain before := by
  induction text with
  | nil => exact absurd (by simp [IsPlain]) h
  | cons c text ih =>
    by_cases hopens : c = '#' ∧ text.head? = some '{'
    · obtain ⟨rfl, hbrace⟩ := hopens
      obtain ⟨after, rfl⟩ := List.head?_eq_some_iff.1 hbrace
      exact ⟨[], after, rfl, by simp [IsPlain]⟩
    · have htext : ¬ IsPlain text := fun hplain => h (isPlain_cons.2 ⟨hplain, hopens⟩)
      obtain ⟨before, after, rfl, hbefore⟩ := ih htext
      refine ⟨c :: before, after, rfl, isPlain_cons.2 ⟨hbefore, ?_⟩⟩
      -- a brace that begins `before` begins the text, too
      rintro ⟨rfl, hbrace⟩
      obtain ⟨rest, rfl⟩ := List.head?_eq_some_iff.1 hbrace
      exact hopens ⟨rfl, rfl⟩

namespace Scanner

variable {s : Scanner}

theorem scans_lastLine (hs : s.Ready) (hmodes : s.modes = []) (hlevels : s.levels = [])
    (hcontent : s.hasContent = true) (hrest : s.cursor.rest = []) :
    ∃ s', s'.finished = true ∧
      Scans s [⟨.newline, "\n", .point s.cursor.position⟩, .endOfFile s.cursor.position] s' := by
  have hplain : s.scanPlain = s.finish := by
    unfold scanPlain
    simp only [hrest]
  refine ⟨{ s with hasContent := false, finished := true }, rfl, .of_step hs.unfinished ?_⟩
  rw [hs.step_eq, hplain]
  unfold finish
  simp only [hmodes, hlevels, hcontent]
  rfl

theorem scans_ofText_stringLiteral (text : String) :
    ∃ c, c.rest = (stringLiteral text).toList ∧ Scans (.ofText (stringLiteral text)) [] (lineBody c [] none) := by
  have hopens : Opens (stringLiteral text).toList :=
    ⟨'"', by simp [stringLiteral], by decide, by decide, by decide⟩
  exact scans_margin none (c := .ofText (stringLiteral text)) rfl hopens

theorem run_stringLiteral_of_isPlain {text : String} (h : IsPlain text.toList) :
    ∃ t p, (Scanner.ofText (stringLiteral text)).run = ([t, ⟨.newline, "\n", .point p⟩, .endOfFile p], []) ∧
      t.kind = .string ∧ t.value = text := by
  obtain ⟨c, hc, hmargin⟩ := scans_ofText_stringLiteral text
  have hready := ready_lineBody c [] none
  obtain ⟨t, c₁, hkind, hvalue, hc₁, hstring⟩ := scans_string hready h (hc.trans (List.append_nil _).symm)
  obtain ⟨s', hfinished, hend⟩ := scans_lastLine (hready.moved c₁) rfl rfl rfl hc₁
  have hscans := hmargin.trans (hstring.trans hend)
  exact ⟨t, c₁.position, hscans.run_eq hfinished, hkind, hvalue⟩

theorem scans_stringLiteral_of_opening {text : String} {before after : List Char}
    (htext : text.toList = before ++ '#' :: '{' :: after) (h : IsPlain before) :
    ∃ ts opening s', IsStretch (String.ofList before) true ts ∧ opening.kind = .placeholderStart ∧
      Scans (.ofText (stringLiteral text)) (ts ++ [opening]) s' := by
  obtain ⟨c, hc, hmargin⟩ := scans_ofText_stringLiteral text
  have hliteral : (stringLiteral text).toList =
      '"' :: (escapeChars before ++ '#' :: '{' :: (escapeChars after ++ ['"'])) := by
    simp [stringLiteral, escape, escapeChars, htext, escapeChar]
  obtain ⟨c₁, quote, hc₁, hquote⟩ := scans_quote (ready_lineBody c [] none) (hc.trans hliteral)
  rw [← String.toList_ofList (l := before)] at h hc₁
  obtain ⟨ts, opening, place, c₂, -, hstretch, hkind, hopening⟩ := scans_opening
    (s := { lineBody c [] none with cursor := c₁, modes := [.text quote false] }) rfl rfl h hc₁
  exact ⟨ts, opening, _, hstretch, hkind, hmargin.trans (hquote.trans hopening)⟩

end Scanner

/-- The literal of a text is scanned to a single string, the text itself, if and only if no placeholder
opens in the text. -/
theorem lex_stringLiteral_iff (text : String) :
    (∃ tokens, lex (stringLiteral text) = .ok tokens ∧ tokens.map (fun t => (t.kind, t.value)) =
        [(.string, text), (.newline, "\n"), (.endOfFile, "EOF")]) ↔
      ¬ ['#', '{'] <:+: text.toList := by
  constructor
  · rintro ⟨tokens, hlex, htokens⟩ hopens
    have hnot : ¬ IsPlain text.toList := not_not.2 hopens
    obtain ⟨before, after, htext, hbefore⟩ := exists_opening_of_not_isPlain hnot
    obtain ⟨ts, opening, s', hstretch, hkind, hscans⟩ := scans_stringLiteral_of_opening htext hbefore
    have hrun := (lex_eq_ok.1 hlex).symm.trans hscans.run
    obtain rfl : tokens = ts ++ [opening] ++ s'.run.1 := congrArg Prod.fst hrun
    -- the opening is the first token or the second one, and neither of these is one
    rcases hstretch with ⟨rfl, -, -⟩ | ⟨t, rfl, -, -⟩
    · simp [hkind] at htokens
    · simp [hkind] at htokens
  · intro hplain
    obtain ⟨t, p, hrun, hkind, hvalue⟩ := run_stringLiteral_of_isPlain hplain
    refine ⟨_, lex_eq_ok.2 hrun, ?_⟩
    rw [List.map_cons, hkind, hvalue]
    rfl

end DialogueScript
