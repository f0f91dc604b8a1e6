import Mathlib.Data.List.Infix
import Mathlib.Data.List.TakeWhile
import Mathlib.Tactic.SplitIfs
import DialogueScript.Lexing

namespace DialogueScript

theorem takeWhile_stretch {p : Char → Bool} {text : List Char} (rest : List Char)
    (h : ∀ c ∈ text, p c = true) (hrest : ∀ c ∈ rest.head?, p c = false) :
    (text ++ rest).takeWhile p = text ∧ (text ++ rest).dropWhile p = rest := by
  have hnil : rest.takeWhile p = [] ∧ rest.dropWhile p = rest := by
    cases rest with
    | nil => exact ⟨rfl, rfl⟩
    | cons c rest =>
      have hc : p c = false := hrest c rfl
      simp [hc]
  rw [List.takeWhile_append_of_pos h, List.dropWhile_append_of_pos h, hnil.1, hnil.2,
    List.append_nil]
  exact ⟨rfl, rfl⟩

/-- The last token, and no other, is the end of the file. -/
def Terminated (ts : List Token) : Prop :=
  ∃ body stop, ts = body ++ [stop] ∧ stop.kind = .endOfFile ∧ ∀ t ∈ body, t.kind ≠ .endOfFile

def IsName (text : List Char) : Prop :=
  (∃ c rest, text = c :: rest ∧ Lexeme.isWordStart c = true) ∧
    (∀ c ∈ text, Lexeme.isWordChar c = true) ∧ TokenKind.keyword? (String.ofList text) = none

/-- The numeral with the given digits; there is a point only before a fraction. -/
def decimalText (whole fraction : List Char) : List Char :=
  whole ++ if fraction = [] then [] else '.' :: fraction

/-- Digits, and perhaps a point with digits on both sides. -/
def IsNumeral (text : List Char) : Prop :=
  ∃ whole fraction, text = decimalText whole fraction ∧ whole ≠ [] ∧
    ∀ c ∈ whole ++ fraction, c.isDigit = true

/-- Text in which no placeholder opens. -/
def IsPlain (text : List Char) : Prop := ¬ ['#', '{'] <:+: text

/-- What the text of a token looks like, by the kind of the token. -/
def Token.Formed (t : Token) : Prop :=
  match t.kind with
  | .identifier => IsName t.value.toList
  | .number => IsNumeral t.value.toList
  | .string => IsPlain t.value.toList
  | _ => True

theorem isPlain_cons {c : Char} {text : List Char} :
    IsPlain (c :: text) ↔ IsPlain text ∧ ¬ (c = '#' ∧ text.head? = some '{') := by
  have hhead : ['{'] <+: text ↔ text.head? = some '{' := by
    cases text <;> simp [List.cons_prefix_cons, eq_comm]
  unfold IsPlain
  rw [List.infix_cons_iff, List.cons_prefix_cons, hhead, not_or, eq_comm, and_comm]

namespace TextRun

theorem unescape?_ne {e c : Char} (h : unescape? e = some c) : c ≠ '#' ∧ c ≠ '{' := by
  unfold unescape? at h
  split_ifs at h <;> simp_all
  all_goals subst h; decide

theorem head?_read {offset : Nat} {position : Position} {text : List Char}
    (h : (read offset position text).text.head? = some '{') : text.head? = some '{' := by
  revert h
  fun_cases read offset position text <;> intro h
  case case4 e rest c hc =>
    -- an escape never stands for a brace
    obtain rfl : c = '{' := by simpa [cons] using h
    exact absurd rfl (unescape?_ne hc).2
  all_goals simp_all [cons]

/-- String text is read up to the first place where a placeholder opens. -/
theorem isPlain_read (offset : Nat) (position : Position) (text : List Char) :
    IsPlain (read offset position text).text := by
  have hnil : IsPlain [] := by simp [IsPlain]
  fun_induction read offset position text
  case case1 | case2 | case3 => exact hnil
  case case4 e rest c hc ih =>
    exact isPlain_cons.2 ⟨ih, fun h => (unescape?_ne hc).1 h.1⟩
  case case5 ih | case6 ih | case7 ih => exact isPlain_cons.2 ⟨ih, by simp⟩
  case case8 c rest _ hplaceholder _ _ _ ih =>
    refine isPlain_cons.2 ⟨ih, ?_⟩
    rintro ⟨rfl, hhead⟩
    obtain ⟨tail, rfl⟩ : ∃ tail, rest = '{' :: tail := by
      cases rest with
      | nil => cases head?_read hhead
      | cons d tail => exact ⟨tail, by rw [Option.some.inj (head?_read hhead)]⟩
    exact hplaceholder tail rfl rfl

end TextRun

namespace Lexeme

theorem isNumeral_numeral {text : List Char} (h : text.takeWhile Char.isDigit ≠ []) :
    IsNumeral (numeral text) := by
  have hdigits : ∀ text : List Char, ∀ c ∈ text.takeWhile Char.isDigit, c.isDigit = true :=
    fun _ _ hc => List.mem_takeWhile_imp hc
  unfold numeral
  refine ⟨text.takeWhile Char.isDigit, ?_⟩
  split
  · rename_i rest _
    split
    · exact ⟨[], rfl, h, by simpa using hdigits text⟩
    · rename_i hne
      refine ⟨rest.takeWhile Char.isDigit, ?_, h, ?_⟩
      · rw [decimalText, if_neg (by simpa using hne)]
      · intro c hc
        rcases List.mem_append.1 hc with hc | hc
        · exact hdigits text c hc
        · exact hdigits rest c hc
  · exact ⟨[], rfl, h, by simpa using hdigits text⟩

theorem keyword?_cases (word : List Char) :
    TokenKind.keyword? (String.ofList word) = none ∨
      ∃ m ∈ TokenKind.keywords, TokenKind.keyword? (String.ofList word) = some m.2 ∧
        m.1.toList = word := by
  unfold TokenKind.keyword?
  cases h : TokenKind.keywords.lookup (String.ofList word) with
  | none => exact .inl rfl
  | some kind =>
    right
    obtain ⟨l, l', hsplit, -⟩ := List.lookup_eq_some_iff.1 h
    exact ⟨(String.ofList word, kind), by simp [hsplit], rfl, String.toList_ofList ..⟩

theorem isWordChar_of_isWordStart {c : Char} (h : isWordStart c = true) : isWordChar c = true := by
  simp only [isWordStart, isWordChar, Char.isAlphanum, Bool.or_eq_true] at h ⊢
  tauto

theorem read?_cases {text : List Char} {lexeme : Lexeme} (h : read? text = some lexeme) :
    (lexeme.kind = none) ∨ (lexeme.kind = some .identifier ∧ IsName lexeme.text) ∨
      (lexeme.kind = some .number ∧ IsNumeral lexeme.text) ∨
      ∃ m ∈ TokenKind.keywords ++ TokenKind.marks, lexeme = ⟨some m.2, m.1.toList⟩ := by
  unfold read? at h
  split at h
  · cases h
  · rename_i c rest
    split at h
    · rename_i hc
      cases h
      -- a word is whatever the keywords do not claim
      rcases keyword?_cases ((c :: rest).takeWhile isWordChar) with hnone | ⟨m, hm, hsome, htext⟩
      · refine .inr (.inl ⟨by rw [hnone]; rfl, ⟨c, rest.takeWhile isWordChar, ?_, hc⟩, ?_, hnone⟩)
        · exact List.takeWhile_cons_of_pos (isWordChar_of_isWordStart hc)
        · exact fun _ hmem => List.mem_takeWhile_imp hmem
      · refine .inr (.inr (.inr ⟨m, List.mem_append_left _ hm, ?_⟩))
        rw [hsome, htext]
        rfl
    · split at h
      · rename_i hc
        cases h
        exact .inr (.inr (.inl ⟨rfl, isNumeral_numeral (by simp [List.takeWhile_cons_of_pos hc])⟩))
      · split at h
        · cases h
          exact .inl rfl
        · split at h
          · cases h
            exact .inl rfl
          · obtain ⟨m, hm, rfl⟩ := Option.map_eq_some_iff.1 h
            exact .inr (.inr (.inr ⟨m, List.mem_append_right _ (List.mem_of_find?_eq_some hm), rfl⟩))

theorem kind_of_mem {m : String × TokenKind} (h : m ∈ TokenKind.keywords ++ TokenKind.marks) :
    m.2 ∉ [TokenKind.endOfFile, .newline, .indent, .dedent, .number, .string, .identifier] := by
  revert m
  decide

end Lexeme

namespace Scanner

/-- Where a token comes from that is not at the end of the script. -/
inductive Origin (text : List Char) (t : Token) : Prop
  | layout (hkind : t.kind ∈ [TokenKind.newline, .indent, .dedent, .placeholderStart, .placeholderEnd])
  | text {offset : Nat} {position : Position} (hkind : t.kind = .string)
    (hvalue : t.value.toList = (TextRun.read offset position text).text)
  | lexeme {lexeme : Lexeme} (hread : Lexeme.read? text = some lexeme)
    (hkind : lexeme.kind = some t.kind) (hvalue : t.value.toList = lexeme.text)

def IsInner (s : Scanner) (step : Step) : Prop :=
  step.next.finished = s.finished ∧ ∀ t ∈ step.tokens, Origin s.cursor.rest t

def IsLast (step : Step) : Prop :=
  step.next.finished = true ∧ step.error = none ∧ Terminated step.tokens ∧
    ∀ t ∈ step.tokens, t.kind ∈ [TokenKind.newline, .dedent, .endOfFile]

theorem finished_foldl_note (tokens : List Token) (s : Scanner) :
    (tokens.foldl note s).finished = s.finished := by
  induction tokens generalizing s with
  | nil => rfl
  | cons t ts ih =>
    rw [List.foldl_cons, ih]
    unfold note
    split <;> rfl

theorem isInner_silent {s s' : Scanner} (h : s'.finished = s.finished) :
    IsInner s (.silent s') := ⟨h, by simp [Step.silent]⟩

theorem isInner_emit {s s' : Scanner} {tokens : List Token} (h : s'.finished = s.finished)
    (htokens : ∀ t ∈ tokens, Origin s.cursor.rest t) : IsInner s (.emit tokens s') :=
  ⟨(finished_foldl_note tokens s').trans h, htokens⟩

theorem isInner_fail {s s' : Scanner} {tokens : List Token} {cause : ErrorCause} {p : Position}
    (h : s'.finished = s.finished) (htokens : ∀ t ∈ tokens, Origin s.cursor.rest t) :
    IsInner s (.fail tokens cause p s') :=
  ⟨(finished_foldl_note tokens s').trans h, htokens⟩

theorem isInner_changeLevel {s s' : Scanner} (h : s'.finished = s.finished) (start : Position)
    (width : Nat) : IsInner s (s'.changeLevel start width) := by
  have hclosed : ∀ t ∈ (s'.levels.takeWhile (width < ·)).map fun _ =>
      Token.mk .dedent "" (.point s'.cursor.position), Origin s.cursor.rest t := by
    intro t ht
    obtain ⟨_, -, rfl⟩ := List.mem_map.1 ht
    exact .layout (by simp)
  unfold changeLevel
  dsimp only
  split
  · exact isInner_emit h (by simpa using .layout (by simp))
  · split
    · exact isInner_emit h hclosed
    · exact isInner_fail h hclosed

theorem isInner_indentTo {s s' : Scanner} (h : s'.finished = s.finished) (start : Position)
    (run : List Char) : IsInner s (s'.indentTo start run) := by
  unfold indentTo
  dsimp only
  split
  · exact isInner_fail h (by simp)
  · split
    · exact isInner_changeLevel h start 0
    · split
      · refine isInner_changeLevel ?_ start _
        exact h
      · exact isInner_fail h (by simp)

theorem isInner_scanIndentation (s : Scanner) : IsInner s s.scanIndentation := by
  unfold scanIndentation
  dsimp only
  split
  · exact isInner_silent rfl
  · split
    · exact isInner_silent rfl
    · split
      · exact isInner_silent rfl
      · refine isInner_indentTo ?_ _ _
        rfl

theorem isInner_scanLexeme (s : Scanner) (c : Char) : IsInner s (s.scanLexeme c) := by
  unfold scanLexeme
  split
  · exact isInner_fail rfl (by simp)
  · rename_i lexeme hread
    dsimp only
    split
    · exact isInner_silent rfl
    · rename_i kind hkind
      refine isInner_emit rfl ?_
      intro t ht
      obtain rfl := List.mem_singleton.1 ht
      exact .lexeme hread hkind (String.toList_ofList ..)

theorem isInner_scanText (s : Scanner) (quote : Position) (emitted : Bool) :
    IsInner s (s.scanText quote emitted) := by
  have hstring : ∀ start stop, Origin s.cursor.rest ⟨.string, String.ofList
      (TextRun.read s.cursor.offset s.cursor.position s.cursor.rest).text, ⟨start, stop⟩⟩ :=
    fun _ _ => .text rfl (String.toList_ofList ..)
  unfold scanText
  dsimp only
  split
  · exact isInner_fail rfl (by simp)
  · refine isInner_emit rfl ?_
    intro t ht
    split at ht
    · cases ht
    · obtain rfl := List.mem_singleton.1 ht
      exact hstring _ _
  · refine isInner_emit rfl ?_
    intro t ht
    rcases List.mem_append.1 ht with ht | ht
    · split at ht
      · cases ht
      · obtain rfl := List.mem_singleton.1 ht
        exact hstring _ _
    · obtain rfl := List.mem_singleton.1 ht
      exact .layout (by simp)

theorem finish_cases (s : Scanner) : IsInner s s.finish ∨ IsLast s.finish := by
  unfold finish
  split
  · exact .inl (isInner_fail rfl (by simp))
  · refine .inr ⟨finished_foldl_note _ _, rfl, ⟨_, _, rfl, rfl, ?_⟩, ?_⟩
    · intro t ht
      rcases List.mem_append.1 ht with ht | ht
      · split at ht <;> simp_all
      · obtain ⟨_, -, rfl⟩ := List.mem_map.1 ht
        simp
    · intro t ht
      rcases List.mem_append.1 ht with ht | ht
      · rcases List.mem_append.1 ht with ht | ht
        · split at ht <;> simp_all
        · obtain ⟨_, -, rfl⟩ := List.mem_map.1 ht
          simp
      · obtain rfl := List.mem_singleton.1 ht
        simp [Token.endOfFile]

theorem scanPlain_cases (s : Scanner) : IsInner s s.scanPlain ∨ IsLast s.scanPlain := by
  unfold scanPlain
  split
  · exact s.finish_cases
  · left
    dsimp only
    split
    · split
      · exact isInner_silent rfl
      · refine isInner_emit rfl ?_
        intro t ht
        split at ht
        · obtain rfl := List.mem_singleton.1 ht
          exact .layout (by simp)
        · cases ht
    · split
      · exact isInner_silent rfl
      · split
        · exact isInner_emit rfl (by simpa using .layout (by simp))
        · exact s.isInner_scanLexeme _

/-- Every step either finishes the scan or reads tokens from the text ahead. -/
theorem step_cases (s : Scanner) : IsInner s s.step ∨ IsLast s.step := by
  unfold step
  split
  · split
    · exact .inl s.isInner_scanIndentation
    · exact s.scanPlain_cases
  · exact .inl (s.isInner_scanText _ _)
  · exact s.scanPlain_cases

theorem Origin.formed {text : List Char} {t : Token} (h : Origin text t) : t.Formed := by
  cases h with
  | layout hkind =>
    unfold Token.Formed
    simp only [List.mem_cons, List.not_mem_nil, or_false] at hkind
    rcases hkind with hkind | hkind | hkind | hkind | hkind <;> simp only [hkind]
  | text hkind hvalue =>
    simp only [Token.Formed, hkind, hvalue]
    exact TextRun.isPlain_read _ _ _
  | @lexeme lexeme hread hkind hvalue =>
    unfold Token.Formed
    rcases Lexeme.read?_cases hread with hnone | ⟨hname, htext⟩ | ⟨hnumber, htext⟩ | ⟨m, hm, rfl⟩
    · simp [hnone] at hkind
    · obtain hk : TokenKind.identifier = t.kind := by simpa [hname] using hkind
      simpa only [← hk, hvalue] using htext
    · obtain hk : TokenKind.number = t.kind := by simpa [hnumber] using hkind
      simpa only [← hk, hvalue] using htext
    · obtain hk : m.2 = t.kind := by simpa using hkind
      have hkinds := Lexeme.kind_of_mem hm
      rw [hk] at hkinds
      split <;> simp_all

theorem Origin.kind_ne {text : List Char} {t : Token} (h : Origin text t) : t.kind ≠ .endOfFile := by
  cases h with
  | layout hkind =>
    intro h
    simp [h] at hkind
  | text hkind => simp [hkind]
  | lexeme hread hkind =>
    intro h
    rcases Lexeme.read?_cases hread with hnone | ⟨hname, -⟩ | ⟨hnumber, -⟩ | ⟨m, hm, rfl⟩
    · simp [hnone] at hkind
    · simp [hname, h] at hkind
    · simp [hnumber, h] at hkind
    · have hkinds := Lexeme.kind_of_mem hm
      simp_all

theorem Origin.mark_value {text : List Char} {t : Token} (h : Origin text t) :
    ∀ m ∈ TokenKind.marks, t.kind = m.2 → t.value = m.1 := by
  intro m hm hmark
  have hlexemes : ∀ m' ∈ TokenKind.keywords ++ TokenKind.marks, ∀ m ∈ TokenKind.marks,
      m'.2 = m.2 → m'.1 = m.1 := by decide
  have hothers : ∀ m ∈ TokenKind.marks, m.2 ∉ [TokenKind.newline, .indent, .dedent, .placeholderStart,
      .placeholderEnd, .string, .identifier, .number] := by decide
  have hkinds := hothers m hm
  rw [← hmark] at hkinds
  cases h with
  | layout hkind => simp_all
  | text hkind => simp [hkind] at hkinds
  | lexeme hread hkind hvalue =>
    rcases Lexeme.read?_cases hread with hnone | ⟨hname, -⟩ | ⟨hnumber, -⟩ | ⟨m', hm', rfl⟩
    · simp [hnone] at hkind
    · simp [← Option.some.inj (hname.symm.trans hkind)] at hkinds
    · simp [← Option.some.inj (hnumber.symm.trans hkind)] at hkinds
    · have hsame := hlexemes m' hm' m hm ((Option.some.inj hkind).trans hmark)
      exact String.toList_inj.1 (hvalue.trans (congrArg String.toList hsame))

theorem origin_of_mem_run (s : Scanner) :
    ∀ t ∈ s.run.1, (∃ text, Origin text t) ∨ t.kind = .endOfFile := by
  fun_induction run s with
  | case1 => simp
  | case2 s hfinished after ih =>
    intro t ht
    rcases List.mem_append.1 ht with ht | ht
    · rcases s.step_cases with hinner | ⟨-, -, -, hkinds⟩
      · exact .inl ⟨_, hinner.2 t ht⟩
      · have hkind := hkinds t ht
        simp only [List.mem_cons, List.not_mem_nil, or_false] at hkind
        rcases hkind with hkind | hkind | hkind
        · exact .inl ⟨[], .layout (by simp [hkind])⟩
        · exact .inl ⟨[], .layout (by simp [hkind])⟩
        · exact .inr hkind
    · exact ih t ht

theorem run_of_finished {s : Scanner} (h : s.finished = true) : s.run = ([], []) := by
  rw [run, dif_pos h]

theorem terminated_run {s : Scanner} (h : s.finished = false) : Terminated s.run.1 := by
  fun_induction run s with
  | case1 s hfinished => exact absurd h (by simp [hfinished])
  | case2 s hfinished after ih =>
    -- only the last step makes the end of the file, and after it there is no other
    rcases s.step_cases with ⟨hnext, htokens⟩ | ⟨hnext, -, hterminated, -⟩
    · obtain ⟨body, stop, hafter, hstop, hbody⟩ := ih (hnext.trans h)
      refine ⟨s.step.tokens ++ body, stop, by simp [after, hafter], hstop, ?_⟩
      intro t ht
      rcases List.mem_append.1 ht with ht | ht
      · exact (htokens t ht).kind_ne
      · exact hbody t ht
    · simpa [after, run_of_finished hnext] using hterminated

end Scanner

theorem lex_eq_ok {source : String} {tokens : List Token} :
    lex source = .ok tokens ↔ (Scanner.ofText source).run = (tokens, []) := by
  unfold lex
  rcases (Scanner.ofText source).run with ⟨tokens', errors⟩
  cases errors <;> simp

theorem terminated_of_lex {source : String} {tokens : List Token} (h : lex source = .ok tokens) :
    Terminated tokens := by
  have := Scanner.terminated_run (s := Scanner.ofText source) rfl
  rwa [lex_eq_ok.1 h] at this

theorem origin_of_lex {source : String} {tokens : List Token} (h : lex source = .ok tokens) :
    ∀ t ∈ tokens, (∃ text, Scanner.Origin text t) ∨ t.kind = .endOfFile := by
  have := Scanner.origin_of_mem_run (.ofText source)
  rwa [lex_eq_ok.1 h] at this

theorem formed_of_lex {source : String} {tokens : List Token} (h : lex source = .ok tokens) :
    ∀ t ∈ tokens, t.Formed := by
  intro t ht
  rcases origin_of_lex h t ht with ⟨text, horigin⟩ | hkind
  · exact horigin.formed
  · simp only [Token.Formed, hkind]

theorem mark_value_of_lex {source : String} {tokens : List Token} (h : lex source = .ok tokens) :
    ∀ t ∈ tokens, ∀ m ∈ TokenKind.marks, t.kind = m.2 → t.value = m.1 := by
  intro t ht m hm hmark
  rcases origin_of_lex h t ht with ⟨text, horigin⟩ | hkind
  · exact horigin.mark_value m hm hmark
  · have hmarks : ∀ m ∈ TokenKind.marks, m.2 ≠ .endOfFile := by decide
    exact absurd (hmark.symm.trans hkind) (hmarks m hm)

namespace TokenSource

theorem next_cons (s : Scanner) (t : Token) (pending : List Token) (failed : Bool) :
    next ⟨s, t :: pending, failed⟩ = (some (.ok t), ⟨s, pending, failed⟩) := by
  rw [next]

theorem next_of_error {s : Scanner} {e : ScriptError} (h : s.finished = false)
    (he : s.step.error = some e) :
    next ⟨s, [], false⟩ = (some (.error e), ⟨s.step.next, s.step.tokens, true⟩) := by
  rw [next]
  simp only [h, Bool.or_self, Bool.false_eq_true, ↓reduceDIte]
  split <;> simp_all

theorem next_of_silent {s : Scanner} (h : s.finished = false) (he : s.step.error = none) :
    next ⟨s, [], false⟩ = next ⟨s.step.next, s.step.tokens, false⟩ := by
  rw [next]
  simp only [h, Bool.or_self, Bool.false_eq_true, ↓reduceDIte]
  split <;> simp_all

theorem drain_of_next {source after : TokenSource} {item : Item}
    (h : source.next = (some item, after)) : source.drain.1 = item :: after.drain.1 := by
  rw [drain]
  split <;> simp_all

theorem drain_of_none {source after : TokenSource} (h : source.next = (none, after)) :
    source.drain.1 = [] := by
  rw [drain]
  split <;> simp_all

theorem drain_congr {a b : TokenSource} (h : a.next = b.next) : a.drain.1 = b.drain.1 := by
  rcases hb : b.next with ⟨_ | item, after⟩
  · rw [drain_of_none (h.trans hb), drain_of_none hb]
  · rw [drain_of_next (h.trans hb), drain_of_next hb]

theorem mapM_drain_pending (s : Scanner) (pending : List Token) (failed : Bool) :
    (drain ⟨s, pending, failed⟩).1.mapM id =
      (pending ++ ·) <$> (drain ⟨s, [], failed⟩).1.mapM id := by
  induction pending with
  | nil => simp
  | cons t pending ih =>
    rw [drain_of_next (next_cons ..), List.mapM_cons, ih]
    rcases (drain ⟨s, [], failed⟩).1.mapM id with _ | ts <;> rfl

/-- Handed out one by one, the tokens are those of a whole run, up to the first error. -/
theorem mapM_drain (s : Scanner) :
    (drain ⟨s, [], false⟩).1.mapM id =
      match s.run.2 with
      | [] => .ok s.run.1
      | e :: _ => .error e := by
  fun_induction Scanner.run s with
  | case1 s hfinished =>
    have hnext : next ⟨s, [], false⟩ = (none, ⟨s, [], false⟩) := by
      rw [next]
      simp [hfinished]
    rw [drain_of_none hnext]
    rfl
  | case2 s hfinished after ih =>
    have hs : s.finished = false := by simpa using hfinished
    cases he : s.step.error with
    | some e =>
      rw [drain_of_next (next_of_error hs he), List.mapM_cons]
      rfl
    | none =>
      rw [drain_congr (next_of_silent hs he), mapM_drain_pending, ih]
      -- the tokens of this step stand before those of the rest, unless the rest fails
      change _ <$> (match after.2 with | [] => Except.ok after.1 | e :: _ => .error e) = _
      simp only [Option.toList_none, List.nil_append]
      cases after.2 <;> rfl

end TokenSource

/-- Both ways of making tokens agree on texts without a lexical error. -/
theorem tokenize_eq_ok_iff_lex {source : String} {tokens : List Token} :
    tokenize source = .ok tokens ↔ lex source = .ok tokens := by
  rw [lex_eq_ok]
  unfold tokenize TokenSource.ofText
  rw [TokenSource.mapM_drain]
  rcases (Scanner.ofText source).run with ⟨tokens', errors⟩
  cases errors <;> simp

end DialogueScript
