import DialogueScript.ParseStatement
import DialogueScript.Proofs.ExpressionComplete

namespace DialogueScript.Parse

open Grammar TokenStream

variable {ts rest : List Token} {finish : Position} {s' : TokenStream}

theorem expression_of_derives {e : Expression} {t : Token}
    (h : Derives (.expression .disjunction e) ts (t :: rest))
    (ht : BinaryOperator.ofToken? t.kind = none) :
    expression .lowest ⟨ts, finish⟩ = (.ok e, ⟨t :: rest, finish⟩) :=
  expression_eq_ok.2 ⟨_, rfl, h, stopsAt_cons ht _ _⟩

theorem derives_of_expression {e : Expression} (h : expression .lowest ⟨ts, finish⟩ = (.ok e, s')) :
    ∃ rest, s' = ⟨rest, finish⟩ ∧ Derives (.expression .disjunction e) ts rest := by
  obtain ⟨rest, hs, he, -⟩ := expression_eq_ok.1 h
  exact ⟨rest, hs, he⟩

theorem nodeReference_eq_ok {target : String} {span : Span} :
    nodeReference ⟨ts, finish⟩ = (.ok (target, span), s') ↔
      ∃ colon name rest, ts = colon :: name :: rest ∧ colon.kind = .colon ∧
        name.kind = .identifier ∧ target = name.value ∧
        span = ⟨colon.span.start, name.span.stop⟩ ∧ s' = ⟨rest, finish⟩ := by
  unfold nodeReference
  rw [current_bind_apply]
  constructor
  · intro h
    split at h
    · exact absurd h unexpected_ne_ok
    · obtain ⟨colon, _, hread, h⟩ := bind_eq_ok.1 h
      obtain ⟨mid, rfl, hcolon, rfl⟩ := (expect_eq_ok (by decide)).1 hread
      obtain ⟨name, _, hread, h⟩ := bind_eq_ok.1 h
      obtain ⟨rest, rfl, hname, rfl⟩ := expectName_eq_ok.1 hread
      obtain ⟨hpair, rfl⟩ := pure_eq_ok.1 h
      obtain ⟨rfl, rfl⟩ : name.value = target ∧ _ = span := by simpa using hpair
      exact ⟨colon, name, rest, rfl, hcolon, hname, rfl, rfl, rfl⟩
  · rintro ⟨colon, name, rest, rfl, hcolon, hname, rfl, rfl, rfl⟩
    rw [current_cons, if_neg (by simp [hcolon]),
      bind_of_ok ((expect_eq_ok (by decide)).2 ⟨_, rfl, hcolon, rfl⟩),
      bind_of_ok (expectName_eq_ok.2 ⟨_, rfl, hname, rfl⟩)]
    rfl

theorem condition_sound {guard? : Option Expression}
    (h : condition ⟨ts, finish⟩ = (.ok guard?, s')) :
    ∃ rest, s' = ⟨rest, finish⟩ ∧ Guard guard? ts rest := by
  unfold condition at h
  rw [current_bind_apply] at h
  split at h
  · rename_i hkind
    obtain ⟨comma, mid, rfl, hcomma⟩ := eq_cons_of_kind hkind (by decide)
    rw [advance_bind_apply, advance_cons (by simp [hcomma])] at h
    obtain ⟨word, _, hread, h⟩ := bind_eq_ok.1 h
    obtain ⟨_, rfl, hword, rfl⟩ := (expectAs_eq_ok (by decide)).1 hread
    obtain ⟨colon, _, hread, h⟩ := bind_eq_ok.1 h
    obtain ⟨_, rfl, hcolon, rfl⟩ := (expectAs_eq_ok (by decide)).1 hread
    obtain ⟨e, _, hread, h⟩ := bind_eq_ok.1 h
    obtain ⟨rest, rfl, he⟩ := derives_of_expression hread
    obtain ⟨rfl, rfl⟩ := pure_eq_ok.1 h
    exact ⟨rest, rfl, .present hcomma hword hcolon he⟩
  · obtain ⟨rfl, rfl⟩ := pure_eq_ok.1 h
    exact ⟨ts, rfl, .absent⟩

theorem condition_complete {guard? : Option Expression} {lineEnd : Token}
    (h : Guard guard? ts (lineEnd :: rest)) (hend : lineEnd.kind = .newline) :
    condition ⟨ts, finish⟩ = (.ok guard?, ⟨lineEnd :: rest, finish⟩) := by
  unfold condition
  rw [current_bind_apply]
  cases h with
  | absent =>
    rw [current_cons, if_neg (by simp [hend])]
    rfl
  | present hcomma hword hcolon he =>
    rw [current_cons, if_pos hcomma, advance_bind_apply, advance_cons (by simp [hcomma]),
      bind_of_ok ((expectAs_eq_ok (by decide)).2 ⟨_, rfl, hword, rfl⟩),
      bind_of_ok ((expectAs_eq_ok (by decide)).2 ⟨_, rfl, hcolon, rfl⟩),
      bind_of_ok (expression_of_derives he (by simp [hend, BinaryOperator.ofToken?]))]
    rfl

theorem speech_sound {limit : Nat} {stop stop' : Position} {text : Speech}
    (h : speech limit stop ⟨ts, finish⟩ = (.ok (text, stop'), s')) :
    ∃ rest, s' = ⟨rest, finish⟩ ∧ Parts stop text stop' ts rest := by
  induction limit generalizing stop ts text with
  | zero =>
    obtain ⟨hpair, rfl⟩ := pure_eq_ok.1 h
    obtain ⟨rfl, rfl⟩ : Speech.ofString "" = text ∧ stop = stop' := by simpa using hpair
    exact ⟨ts, rfl, .nil⟩
  | succ limit ih =>
    unfold speech at h
    rw [current_bind_apply] at h
    obtain ⟨p, hp, h⟩ := exists_applied h
    split at hp <;> subst hp
    case h_1 hkind =>
      obtain ⟨t, mid, rfl, ht⟩ := eq_cons_of_kind hkind (by decide)
      rw [advance_bind_apply, advance_cons (by simp [ht]), current_cons] at h
      obtain ⟨⟨text', stop''⟩, _, hread, h⟩ := bind_eq_ok.1 h
      obtain ⟨hpair, rfl⟩ := pure_eq_ok.1 h
      obtain ⟨rfl, rfl⟩ : text'.prependText t.value = text ∧ stop'' = stop' := by simpa using hpair
      obtain ⟨rest, rfl, hparts⟩ := ih hread
      exact ⟨rest, rfl, .text ht hparts⟩
    case h_2 hkind =>
      obtain ⟨opening, mid, rfl, hopening⟩ := eq_cons_of_kind hkind (by decide)
      rw [advance_bind_apply, advance_cons (by simp [hopening])] at h
      obtain ⟨e, _, hread, h⟩ := bind_eq_ok.1 h
      obtain ⟨mid, rfl, he⟩ := derives_of_expression hread
      obtain ⟨close, _, hread, h⟩ := bind_eq_ok.1 h
      obtain ⟨mid, rfl, hclose, rfl⟩ := (expect_eq_ok (by decide)).1 hread
      obtain ⟨⟨text', stop''⟩, _, hread, h⟩ := bind_eq_ok.1 h
      obtain ⟨hpair, rfl⟩ := pure_eq_ok.1 h
      obtain ⟨rfl, rfl⟩ : text'.prependPlaceholder e = text ∧ stop'' = stop' := by simpa using hpair
      obtain ⟨rest, rfl, hparts⟩ := ih hread
      exact ⟨rest, rfl, .placeholder hopening hclose he hparts⟩
    case h_3 =>
      obtain ⟨hpair, rfl⟩ := pure_eq_ok.1 h
      obtain ⟨rfl, rfl⟩ : Speech.ofString "" = text ∧ stop = stop' := by simpa using hpair
      exact ⟨ts, rfl, .nil⟩

theorem speech_complete {limit : Nat} {stop stop' : Position} {text : Speech} {lineEnd : Token}
    (h : Parts stop text stop' ts (lineEnd :: rest)) (hend : lineEnd.kind = .newline)
    (hlimit : ts.length ≤ limit) :
    speech limit stop ⟨ts, finish⟩ = (.ok (text, stop'), ⟨lineEnd :: rest, finish⟩) := by
  generalize hall : lineEnd :: rest = all at h
  induction h generalizing limit with
  | nil =>
    subst hall
    simp only [List.length_cons] at hlimit
    obtain ⟨limit, rfl⟩ : ∃ n, limit = n + 1 := ⟨limit - 1, by omega⟩
    rw [speech, current_bind_apply, current_cons]
    simp only [hend]
    rfl
  | text hkind _ ih =>
    simp only [List.length_cons] at hlimit
    obtain ⟨limit, rfl⟩ : ∃ n, limit = n + 1 := ⟨limit - 1, by omega⟩
    rw [speech, current_bind_apply, current_cons]
    simp only [hkind]
    rw [advance_bind_apply, advance_cons (by simp [hkind]), current_cons,
      bind_of_ok (ih (by omega) hall)]
    rfl
  | placeholder hopening hclose he _ ih =>
    have hlength := he.length_lt
    simp only [List.length_cons] at hlimit hlength
    obtain ⟨limit, rfl⟩ : ∃ n, limit = n + 1 := ⟨limit - 1, by omega⟩
    rw [speech, current_bind_apply, current_cons]
    simp only [hopening]
    rw [advance_bind_apply, advance_cons (by simp [hopening]),
      bind_of_ok (expression_of_derives he (by simp [hclose, BinaryOperator.ofToken?])),
      bind_of_ok ((expect_eq_ok (by decide)).2 ⟨_, rfl, hclose, rfl⟩),
      bind_of_ok (ih (by omega) hall)]
    rfl

theorem assignment_sound {sign : Token} (hsign : sign.kind = .atSign) {st : Statement}
    (h : assignment ⟨sign :: ts, finish⟩ = (.ok st, s')) :
    ∃ rest, s' = ⟨rest, finish⟩ ∧ Line st (sign :: ts) rest := by
  unfold assignment at h
  rw [advance_bind_apply, advance_cons (by simp [hsign]), current_cons] at h
  obtain ⟨name, _, hread, h⟩ := bind_eq_ok.1 h
  obtain ⟨mid, rfl, hname, rfl⟩ := expectName_eq_ok.1 hread
  rw [current_bind_apply] at h
  obtain ⟨p, hp, h⟩ := exists_applied h
  split at hp <;> subst hp
  · exact absurd h unexpected_ne_ok
  · rename_i operator hoperator
    cases mid with
    | nil => exact absurd hoperator (by simp [TokenStream.current, Token.endOfFile, AssignOperator.ofToken?])
    | cons mark mid =>
      rw [current_cons] at hoperator
      have hmark : mark.kind ≠ .endOfFile := by
        intro hkind
        simp [hkind, AssignOperator.ofToken?] at hoperator
      rw [advance_bind_apply, advance_cons hmark] at h
      obtain ⟨value, _, hread, h⟩ := bind_eq_ok.1 h
      obtain ⟨mid, rfl, hvalue⟩ := derives_of_expression hread
      obtain ⟨lineEnd, _, hread, h⟩ := bind_eq_ok.1 h
      obtain ⟨rest, rfl, hend, rfl⟩ := (expect_eq_ok (by decide)).1 hread
      obtain ⟨rfl, rfl⟩ := pure_eq_ok.1 h
      exact ⟨rest, rfl, .assign hsign hname ((assignments_lookup _).trans hoperator) hend hvalue⟩

theorem say_sound {word : Token} (hword : word.kind = .sayWord) {st : Statement}
    (h : say ⟨word :: ts, finish⟩ = (.ok st, s')) :
    ∃ rest, s' = ⟨rest, finish⟩ ∧ Line st (word :: ts) rest := by
  unfold say at h
  dsimp only at h
  rw [advance_bind_apply, advance_cons (by simp [hword]), current_cons] at h
  obtain ⟨⟨text, stop⟩, _, hread, h⟩ := bind_eq_ok.1 h
  obtain ⟨mid, rfl, hparts⟩ := speech_sound hread
  obtain ⟨lineEnd, _, hread, h⟩ := bind_eq_ok.1 h
  obtain ⟨rest, rfl, hend, rfl⟩ := (expect_eq_ok (by decide)).1 hread
  obtain ⟨rfl, rfl⟩ := pure_eq_ok.1 h
  exact ⟨rest, rfl, .say hword hend hparts⟩

theorem choice_sound {word : Token} (hword : word.kind = .choiceWord) {st : Statement}
    (h : choice ⟨word :: ts, finish⟩ = (.ok st, s')) :
    ∃ rest, s' = ⟨rest, finish⟩ ∧ Line st (word :: ts) rest := by
  unfold choice at h
  rw [advance_bind_apply, advance_cons (by simp [hword]), current_cons] at h
  obtain ⟨text, _, hread, h⟩ := bind_eq_ok.1 h
  obtain ⟨mid, rfl, htext, rfl⟩ := (expect_eq_ok (by decide)).1 hread
  rw [current_bind_apply] at h
  split at h
  · exact absurd h unexpected_ne_ok
  · obtain ⟨comma, _, hread, h⟩ := bind_eq_ok.1 h
    obtain ⟨mid, rfl, hcomma, rfl⟩ := (expectAs_eq_ok (by decide)).1 hread
    obtain ⟨⟨target, targetSpan⟩, _, hread, h⟩ := bind_eq_ok.1 h
    obtain ⟨colon, name, mid, rfl, hcolon, hname, rfl, rfl, rfl⟩ := nodeReference_eq_ok.1 hread
    obtain ⟨guard?, _, hread, h⟩ := bind_eq_ok.1 h
    obtain ⟨mid, rfl, hguard⟩ := condition_sound hread
    obtain ⟨lineEnd, _, hread, h⟩ := bind_eq_ok.1 h
    obtain ⟨rest, rfl, hend, rfl⟩ := (expectAs_eq_ok (by decide)).1 hread
    obtain ⟨rfl, rfl⟩ := pure_eq_ok.1 h
    exact ⟨rest, rfl, .choice hword htext hcomma hcolon hname hend hguard⟩

theorem goto_sound {word : Token} (hword : word.kind = .gotoWord) {st : Statement}
    (h : goto ⟨word :: ts, finish⟩ = (.ok st, s')) :
    ∃ rest, s' = ⟨rest, finish⟩ ∧ Line st (word :: ts) rest := by
  unfold goto at h
  rw [advance_bind_apply, advance_cons (by simp [hword]), current_cons] at h
  obtain ⟨⟨target, targetSpan⟩, _, hread, h⟩ := bind_eq_ok.1 h
  obtain ⟨colon, name, mid, rfl, hcolon, hname, rfl, rfl, rfl⟩ := nodeReference_eq_ok.1 hread
  obtain ⟨lineEnd, _, hread, h⟩ := bind_eq_ok.1 h
  obtain ⟨rest, rfl, hend, rfl⟩ := (expect_eq_ok (by decide)).1 hread
  obtain ⟨rfl, rfl⟩ := pure_eq_ok.1 h
  exact ⟨rest, rfl, .goto hword hcolon hname hend⟩

theorem statement_sound {st : Statement} (h : statement ⟨ts, finish⟩ = (.ok st, s')) :
    ∃ rest, s' = ⟨rest, finish⟩ ∧ Line st ts rest := by
  cases ts with
  | nil => exact absurd h unexpected_ne_ok
  | cons t ts =>
    unfold statement at h
    rw [current_bind_apply, current_cons] at h
    obtain ⟨p, hp, h⟩ := exists_applied h
    split at hp <;> subst hp
    case h_1 hkind => exact assignment_sound hkind h
    case h_2 hkind => exact say_sound hkind h
    case h_3 hkind => exact choice_sound hkind h
    case h_4 hkind => exact goto_sound hkind h
    case h_5 | h_6 | h_7 => exact absurd h unexpected_ne_ok

theorem statement_complete {st : Statement} (h : Line st ts rest) :
    statement ⟨ts, finish⟩ = (.ok st, ⟨rest, finish⟩) := by
  unfold statement
  rw [current_bind_apply]
  cases h with
  | @assign sign name mark operator value lineEnd ts rest hsign hname hmark hend hvalue =>
    rw [assignments_lookup] at hmark
    have hkind : mark.kind ≠ .endOfFile := by
      intro hkind
      simp [hkind, AssignOperator.ofToken?] at hmark
    rw [current_cons]
    simp only [hsign]
    unfold assignment
    rw [advance_bind_apply, advance_cons (by simp [hsign]), current_cons,
      bind_of_ok (expectName_eq_ok.2 ⟨_, rfl, hname, rfl⟩), current_bind_apply, current_cons]
    simp only [hmark]
    rw [advance_bind_apply, advance_cons hkind,
      bind_of_ok (expression_of_derives hvalue (by simp [hend, BinaryOperator.ofToken?])),
      bind_of_ok ((expect_eq_ok (by decide)).2 ⟨_, rfl, hend, rfl⟩)]
    rfl
  | say hword hend hspeech =>
    rw [current_cons]
    simp only [hword]
    unfold say
    dsimp only
    rw [advance_bind_apply, advance_cons (by simp [hword]), current_cons,
      bind_of_ok (speech_complete hspeech hend (by simp)),
      bind_of_ok ((expect_eq_ok (by decide)).2 ⟨_, rfl, hend, rfl⟩)]
    rfl
  | choice hword htext hcomma hcolon hname hend hguard =>
    rw [current_cons]
    simp only [hword]
    unfold choice
    rw [advance_bind_apply, advance_cons (by simp [hword]), current_cons,
      bind_of_ok ((expect_eq_ok (by decide)).2 ⟨_, rfl, htext, rfl⟩), current_bind_apply,
      current_cons, if_neg (by simp [hcomma]),
      bind_of_ok ((expectAs_eq_ok (by decide)).2 ⟨_, rfl, hcomma, rfl⟩),
      bind_of_ok (nodeReference_eq_ok.2 ⟨_, _, _, rfl, hcolon, hname, rfl, rfl, rfl⟩)]
    dsimp only
    rw [bind_of_ok (condition_complete hguard hend),
      bind_of_ok ((expectAs_eq_ok (by decide)).2 ⟨_, rfl, hend, rfl⟩)]
    rfl
  | goto hword hcolon hname hend =>
    rw [current_cons]
    simp only [hword]
    unfold goto
    rw [advance_bind_apply, advance_cons (by simp [hword]), current_cons,
      bind_of_ok (nodeReference_eq_ok.2 ⟨_, _, _, rfl, hcolon, hname, rfl, rfl, rfl⟩)]
    dsimp only
    rw [bind_of_ok ((expect_eq_ok (by decide)).2 ⟨_, rfl, hend, rfl⟩)]
    rfl

end DialogueScript.Parse
