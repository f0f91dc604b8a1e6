import Mathlib.Data.List.TakeWhile
import DialogueScript.Proofs.StatementParsing

namespace DialogueScript

/-- Tokens that no parser tells apart: of the end of the file only the kind and the place are looked at. -/
def Token.Alike (t t' : Token) : Prop :=
  t = t' ∨ (t.kind = .endOfFile ∧ t'.kind = .endOfFile ∧ t.span.start = t'.span.start)

namespace Token.Alike

variable {t t' : Token}

theorem refl (t : Token) : t.Alike t := .inl rfl

theorem symm : t.Alike t' → t'.Alike t
  | .inl h => .inl h.symm
  | .inr ⟨h, h', hstart⟩ => .inr ⟨h', h, hstart.symm⟩

theorem kind_eq : t.Alike t' → t.kind = t'.kind
  | .inl h => congrArg Token.kind h
  | .inr ⟨h, h', _⟩ => h.trans h'.symm

theorem start_eq : t.Alike t' → t.span.start = t'.span.start
  | .inl h => congrArg (·.span.start) h
  | .inr ⟨_, _, hstart⟩ => hstart

theorem describe_eq : t.Alike t' → t.describe = t'.describe
  | .inl h => congrArg Token.describe h
  | .inr ⟨h, h', _⟩ => by simp only [Token.describe, h, h']

end Token.Alike

namespace TokenStream

open Grammar

def prepend (ts : List Token) (s : TokenStream) : TokenStream := ⟨ts ++ s.tokens, s.finish⟩

variable {s s' : TokenStream} {ts : List Token} {t : Token}

theorem prepend_append (s : TokenStream) (ts more : List Token) :
    s.prepend (ts ++ more) = (s.prepend more).prepend ts := by
  simp only [prepend, List.append_assoc]

theorem current_prepend (h : s.current.Alike s'.current) :
    (s.prepend ts).current.Alike (s'.prepend ts).current := by
  cases ts with
  | nil => exact h
  | cons t ts => exact .refl t

theorem advance_prepend (h : t.kind ≠ .endOfFile) : (s.prepend (t :: ts)).advance = s.prepend ts :=
  advance_cons h

theorem following_prepend : (s.prepend (t :: ts)).following = (s.prepend ts).current := rfl

theorem exists_tokens (h : s.kind ≠ .endOfFile) : ∃ t rest, s.tokens = t :: rest ∧ t.kind = s.kind :=
  eq_cons_of_kind rfl h

/-- Where a line stops in two streams: at the same token of the layout. -/
structure LineStops (s s' : TokenStream) : Prop where
  alike : s.current.Alike s'.current
  isContent_eq : s.current.kind.isContent = false

theorem LineStops.exists_cons (h : LineStops s s') (hkind : (s.prepend ts).current.kind.isContent = true) :
    ∃ t rest, ts = t :: rest := by
  cases ts with
  | nil => exact absurd (h.isContent_eq.symm.trans hkind) Bool.false_ne_true
  | cons t rest => exact ⟨t, rest, rfl⟩

theorem LineStops.of_eq (h : s.current = s'.current) (hcontent : s.current.kind.isContent = false) :
    LineStops s s' := ⟨.inl h, hcontent⟩

theorem LineStops.kind_eq (h : LineStops s s') : s.kind = s'.kind := h.alike.kind_eq

theorem LineStops.symm (h : LineStops s s') : LineStops s' s := by
  have hcontent : s'.kind.isContent = false := h.kind_eq ▸ h.isContent_eq
  exact ⟨h.alike.symm, hcontent⟩

theorem LineStops.kind_prepend (h : LineStops s s') (ts : List Token) :
    (s.prepend ts).kind = (s'.prepend ts).kind := (current_prepend h.alike).kind_eq

theorem LineStops.unexpected_eq (h : LineStops s s') (ts : List Token) (what : String) (hint : Option String) :
    (s.prepend ts).unexpected what hint = (s'.prepend ts).unexpected what hint := by
  have halike : (s.prepend ts).current.Alike (s'.prepend ts).current := current_prepend h.alike
  rw [TokenStream.unexpected, TokenStream.unexpected, halike.describe_eq, halike.start_eq]

/-- What of `ts` is on the first line, and where this line stops. -/
theorem LineStops.exists_line (h : LineStops s s') (ts : List Token) :
    ∃ content more, ts = content ++ more ∧ (∀ t ∈ content, t.kind.isContent = true) ∧
      LineStops (s.prepend more) (s'.prepend more) := by
  refine ⟨ts.takeWhile (·.kind.isContent), ts.dropWhile (·.kind.isContent),
    List.takeWhile_append_dropWhile.symm, fun t => List.mem_takeWhile_imp, current_prepend h.alike, ?_⟩
  have hhead := List.head?_dropWhile_not (·.kind.isContent) ts
  cases hmore : ts.dropWhile (·.kind.isContent) with
  | nil => exact h.isContent_eq
  | cons t more =>
    rw [hmore] at hhead
    exact hhead

theorem LineStops.stopsAt (h : LineStops s s') (rank : Nat) : StopsAt rank s.tokens := by
  have hnone : BinaryOperator.ofToken? s.current.kind = none := by
    have hcontent := h.isContent_eq
    generalize s.current.kind = kind at hcontent
    cases kind <;> first | rfl | cases hcontent
  intro t ht operator hoperator
  obtain rfl : s.current = t := by
    rw [TokenStream.current, List.headD_eq_head?_getD, ht, Option.getD_some]
  rw [hnone] at hoperator
  cases hoperator

end TokenStream

open TokenStream

theorem TokenKind.ne_endOfFile {kind : TokenKind} (h : kind.isContent = true) : kind ≠ .endOfFile := by
  rintro rfl
  cases h

theorem TokenKind.isContent_of_ne {kind : TokenKind} (hdedent : kind ≠ .dedent) (hend : kind ≠ .endOfFile)
    (hnewline : kind ≠ .newline) (hindent : kind ≠ .indent) : kind.isContent = true := by
  cases kind <;> first | rfl | contradiction

namespace Parse

variable {α β : Type} {s s' : TokenStream} {ts : List Token}

/-- On `ts` in front of `s` and of `s'` the parsers give the same result, and stop at the same place
of `ts` or right behind it. -/
def Same (p q : Parse α) (s s' : TokenStream) (ts : List Token) : Prop :=
  ∃ r rest, rest <:+ ts ∧ p (s.prepend ts) = (r, s.prepend rest) ∧ q (s'.prepend ts) = (r, s'.prepend rest)

/-- On the line `ts` in front of `s` and of `s'` the parsers give the same result. A failure leaves a part
of the line; a success takes all of it, and the end of the line as well. -/
def SameLine (p q : Parse α) (s s' : TokenStream) (ts : List Token) : Prop :=
  (∃ e rest, rest <:+ ts ∧ p (s.prepend ts) = (.error e, s.prepend rest) ∧
      q (s'.prepend ts) = (.error e, s'.prepend rest)) ∨
    (s.kind = .newline ∧ ∃ a, p (s.prepend ts) = (.ok a, s.advance) ∧
      q (s'.prepend ts) = (.ok a, s'.advance))

/-- What follows is decided without the text of the token that stands for the end of the file. -/
def EndBlind (f : Token → Parse α) : Prop :=
  ∀ t t' : Token, t.kind = .endOfFile → t'.kind = .endOfFile → f t = f t'

theorem EndBlind.apply_eq {f : Token → Parse α} {t t' : Token} (hf : EndBlind f) : t.Alike t' → f t = f t'
  | .inl h => congrArg f h
  | .inr ⟨h, h', _⟩ => hf t t' h h'

theorem bind_of_error {p : Parse α} {f : α → Parse β} {e : ScriptError} {mid : TokenStream}
    (h : p s = (.error e, mid)) : (p >>= f) s = (.error e, mid) := by
  change andThen p f s = _
  simp only [andThen, h]

theorem bind_congr {p q : Parse α} {f : α → Parse β} {u : TokenStream} (h : p s = q u) :
    (p >>= f) s = (q >>= f) u := by
  change andThen p f s = andThen q f u
  simp only [andThen, h]

namespace Same

variable {p q : Parse α} {f g : α → Parse β}

theorem pure (a : α) : Same (Pure.pure a) (Pure.pure a) s s' ts := ⟨.ok a, ts, List.suffix_refl ts, rfl, rfl⟩

theorem fail (e : ScriptError) : Same (Parse.fail (α := α) e) (Parse.fail e) s s' ts :=
  ⟨.error e, ts, List.suffix_refl ts, rfl, rfl⟩

theorem bind (h : Same p q s s' ts) (hf : ∀ a rest, rest <:+ ts → Same (f a) (g a) s s' rest) :
    Same (p >>= f) (q >>= g) s s' ts := by
  obtain ⟨_ | a, mid, hmid, hp, hq⟩ := h
  · exact ⟨_, mid, hmid, bind_of_error hp, bind_of_error hq⟩
  · obtain ⟨r, rest, hrest, hfa, hga⟩ := hf a mid hmid
    exact ⟨r, rest, hrest.trans hmid, (bind_of_ok hp).trans hfa, (bind_of_ok hq).trans hga⟩

theorem bind_of_ne_ok (h : Same p q s s' ts) (hp : ∀ a u, p (s.prepend ts) ≠ (.ok a, u)) :
    Same (p >>= f) (q >>= g) s s' ts := by
  obtain ⟨e | a, rest, hrest, hps, hqs⟩ := h
  · exact ⟨_, rest, hrest, bind_of_error hps, bind_of_error hqs⟩
  · exact absurd hps (hp a _)

theorem of_eq {p' q' : Parse α} {rest : List Token} (hrest : rest <:+ ts)
    (hp : p (s.prepend ts) = p' (s.prepend rest)) (hq : q (s'.prepend ts) = q' (s'.prepend rest))
    (h : Same p' q' s s' rest) : Same p q s s' ts := by
  obtain ⟨r, left, hleft, hp', hq'⟩ := h
  exact ⟨r, left, hleft.trans hrest, hp.trans hp', hq.trans hq'⟩

theorem current {f g : Token → Parse β} (h : LineStops s s') (hg : EndBlind g)
    (hf : Same (f (s.prepend ts).current) (g (s.prepend ts).current) s s' ts) :
    Same (Parse.current >>= f) (Parse.current >>= g) s s' ts := by
  refine hf.of_eq (List.suffix_refl ts) rfl ?_
  rw [current_bind_apply, hg.apply_eq (current_prepend h.alike).symm]

theorem current_cons {f g : Token → Parse β} {t : Token} (hf : Same (f t) (g t) s s' (t :: ts)) :
    Same (Parse.current >>= f) (Parse.current >>= g) s s' (t :: ts) :=
  hf.of_eq (List.suffix_refl _) rfl rfl

theorem following {f g : Token → Parse β} (h : LineStops s s') (hg : EndBlind g) {t : Token}
    (hf : Same (f (s.prepend ts).current) (g (s.prepend ts).current) s s' (t :: ts)) :
    Same (Parse.following >>= f) (Parse.following >>= g) s s' (t :: ts) := by
  refine hf.of_eq (List.suffix_refl _) rfl ?_
  rw [following_bind_apply, following_prepend, hg.apply_eq (current_prepend h.alike).symm]

theorem advance {f g : Token → Parse β} (h : LineStops s s')
    (hkind : (s.prepend ts).current.kind.isContent = true)
    (hf : ∀ t rest, ts = t :: rest → Same (f t) (g t) s s' rest) :
    Same (Parse.advance >>= f) (Parse.advance >>= g) s s' ts := by
  obtain ⟨t, rest, rfl⟩ := h.exists_cons hkind
  have ht : t.kind ≠ .endOfFile := TokenKind.ne_endOfFile hkind
  refine (hf t rest rfl).of_eq (List.suffix_cons t rest) ?_ ?_ <;>
    rw [advance_bind_apply, advance_prepend ht] <;> rfl

theorem unexpected (h : LineStops s s') (what : String) (hint : Option String) :
    Same (Parse.unexpected (α := α) what hint) (Parse.unexpected what hint) s s' ts := by
  refine ⟨_, ts, List.suffix_refl ts, rfl, ?_⟩
  rw [Parse.unexpected, ← h.unexpected_eq]

theorem expectAs_of_cons (h : LineStops s s') {kind : TokenKind} (hend : kind ≠ .endOfFile)
    (hcons : (s.prepend ts).kind = kind → ∃ t rest, ts = t :: rest) (what : String) (hint : Option String) :
    Same (Parse.expectAs kind what hint) (Parse.expectAs kind what hint) s s' ts := by
  by_cases hk : (s.prepend ts).kind = kind
  · obtain ⟨t, rest, rfl⟩ := hcons hk
    have ht : t.kind = kind := hk
    refine ⟨.ok t, rest, List.suffix_cons t rest, ?_, ?_⟩ <;>
      exact (expectAs_eq_ok hend).2 ⟨_, rfl, ht, rfl⟩
  · have hk' : (s'.prepend ts).kind ≠ kind := h.kind_prepend ts ▸ hk
    refine (unexpected h what hint).of_eq (List.suffix_refl ts) ?_ ?_
    · exact if_neg hk
    · exact if_neg hk'

theorem expectAs (h : LineStops s s') {kind : TokenKind} (hkind : kind.isContent = true) (what : String)
    (hint : Option String) : Same (Parse.expectAs kind what hint) (Parse.expectAs kind what hint) s s' ts := by
  refine expectAs_of_cons h (TokenKind.ne_endOfFile hkind) (fun hk => ?_) what hint
  exact h.exists_cons ((congrArg TokenKind.isContent hk).trans hkind)

theorem expect (h : LineStops s s') {kind : TokenKind} (hkind : kind.isContent = true) :
    Same (Parse.expect kind) (Parse.expect kind) s s' ts :=
  expectAs h hkind _ _

theorem expectName (h : LineStops s s') (what : String) :
    Same (Parse.expectName what) (Parse.expectName what) s s' ts := by
  unfold Parse.expectName
  refine .current h (fun t t' ht ht' => by rw [ht, ht']; rfl) ?_
  split
  · exact .unexpected h _ _
  · exact .expectAs h rfl _ _

end Same

/-- The parsers for the expressions inside do the same on less than `bound` tokens of a line. -/
def Inner.Same (inner inner' : Inner) (s s' : TokenStream) (bound : Nat) : Prop :=
  ∀ power ts, ts.length < bound → Parse.Same (inner power) (inner' power) s s' ts

theorem literal_same (h : LineStops s s') : Same literal literal s s' ts := by
  have htake : ∀ value span, (s.prepend ts).current.kind.isContent = true →
      Same (pure value >>= fun value => advance >>= fun _ => pure (Expression.literal value span))
        (pure value >>= fun value => advance >>= fun _ => pure (Expression.literal value span)) s s' ts :=
    fun _ _ hkind => Same.advance h hkind fun _ _ _ => .pure _
  unfold literal
  refine .current h (fun t t' ht ht' => by simp only [ht, ht']; rfl) ?_
  dsimp only
  split
  case h_1 hkind =>
    split
    · exact htake _ _ (by rw [hkind]; rfl)
    · exact .bind_of_ne_ok (.fail _) fun _ _ => fail_ne_ok
  case h_2 hkind | h_3 hkind | h_4 hkind => exact htake _ _ (by rw [hkind]; rfl)
  case h_5 => exact .bind_of_ne_ok (.unexpected h _ _) fun _ _ => unexpected_ne_ok

theorem variableUse_same (h : LineStops s s') (hkind : (s.prepend ts).current.kind = .atSign) :
    Same variableUse variableUse s s' ts := by
  unfold variableUse
  refine .advance h (by rw [hkind]; rfl) fun sign rest _ => ?_
  exact .bind (.expectName h _) fun name rest _ => .pure _

variable {inner inner' : Inner} {limit limit' : Nat}

theorem arguments_same (h : LineStops s s') (hinner : inner.Same inner' s s' ts.length.succ)
    (hlimit : ts.length < limit) (hlimit' : ts.length < limit') :
    Same (arguments inner limit) (arguments inner' limit') s s' ts := by
  induction limit generalizing limit' ts with
  | zero => omega
  | succ limit ih =>
    obtain ⟨limit', rfl⟩ : ∃ n, limit' = n + 1 := ⟨limit' - 1, by omega⟩
    unfold arguments
    refine .bind (hinner _ ts (by omega)) fun e mid hmid => .current h (fun t t' ht ht' => by rw [ht, ht']) ?_
    have hle := hmid.length_le
    split
    · rename_i hkind
      refine .advance h (by rw [hkind]; rfl) fun comma rest hrest => ?_
      subst hrest
      simp only [List.length_cons] at hle
      refine .bind (ih (fun power ts hts => hinner power ts (by omega)) (by omega) (by omega)) ?_
      exact fun es rest _ => .pure _
    · exact .pure _

theorem functionCall_same (h : LineStops s s') (hinner : inner.Same inner' s s' ts.length)
    (hlimit : ts.length ≤ limit) (hlimit' : ts.length ≤ limit')
    (hkind : (s.prepend ts).current.kind = .identifier) :
    Same (functionCall inner limit) (functionCall inner' limit') s s' ts := by
  have hcontent : (s.prepend ts).current.kind.isContent = true := by rw [hkind]; rfl
  obtain ⟨name, ts, rfl⟩ := h.exists_cons hcontent
  simp only [List.length_cons] at hinner hlimit hlimit'
  unfold functionCall
  refine .current_cons (.following h (fun t t' ht ht' => by rw [ht, ht']) ?_)
  split
  · rename_i hopening
    refine .advance h hcontent fun _ _ hts => ?_
    obtain ⟨rfl, rfl⟩ := List.cons.inj hts
    refine .advance h (by rw [hopening]; rfl) fun opening rest hts => ?_
    subst hts
    simp only [List.length_cons] at hinner hlimit hlimit'
    refine .current h (fun t t' ht ht' => by rw [ht, ht']) ?_
    dsimp only
    split
    · exact .bind (.pure _) fun args rest _ => .bind (.expect h rfl) fun close rest _ => .pure _
    · refine .bind ?_ fun args rest _ => .bind (.expect h rfl) fun close rest _ => .pure _
      exact arguments_same h (fun power ts hts => hinner power ts (by omega)) (by omega) (by omega)
  · exact .unexpected h _ _

theorem unaryOperation_same (h : LineStops s s') (hinner : inner.Same inner' s s' ts.length)
    (hkind : (s.prepend ts).current.kind.isContent = true) :
    Same (unaryOperation inner) (unaryOperation inner') s s' ts := by
  unfold unaryOperation
  refine .current h (fun t t' ht ht' => by rw [ht, ht']) ?_
  split
  · exact .unexpected h _ _
  · refine .advance h hkind fun sign rest hts => ?_
    exact .bind (hinner _ rest (by simp [hts])) fun e rest _ => .pure _

theorem parenthesized_same (h : LineStops s s') (hinner : inner.Same inner' s s' ts.length)
    (hkind : (s.prepend ts).current.kind.isContent = true) :
    Same (parenthesized inner) (parenthesized inner') s s' ts := by
  unfold parenthesized
  refine .advance h hkind fun opening rest hts => ?_
  refine .bind (hinner _ rest (by simp [hts])) fun e rest _ => ?_
  exact .bind (.expect h rfl) fun close rest _ => .pure _

theorem operand_same (h : LineStops s s') (hinner : inner.Same inner' s s' ts.length)
    (hlimit : ts.length ≤ limit) (hlimit' : ts.length ≤ limit') :
    Same (operand inner limit) (operand inner' limit') s s' ts := by
  unfold operand
  refine .current h (fun t t' ht ht' => by rw [ht, ht']) ?_
  split
  case h_1 | h_2 | h_3 | h_4 => exact literal_same h
  case h_5 hkind => exact variableUse_same h hkind
  case h_6 hkind => exact functionCall_same h hinner hlimit hlimit' hkind
  case h_7 hkind | h_8 hkind => exact unaryOperation_same h hinner (hkind ▸ rfl)
  case h_9 hkind => exact parenthesized_same h hinner (hkind ▸ rfl)
  case h_10 => exact .unexpected h _ _

theorem binaryOperation_prepend {t : Token} {operator : BinaryOperator} {left : Expression}
    {power : Precedence} (h : BinaryOperator.ofToken? t.kind = some operator) :
    binaryOperation inner left power (s.prepend (t :: ts)) = (inner power >>= fun right =>
      pure (.binary operator left right ⟨left.span.start, right.span.stop⟩)) (s.prepend ts) := by
  have ht : t.kind ≠ .endOfFile := by
    intro hkind
    simp [hkind, BinaryOperator.ofToken?] at h
  change binaryOperation inner left power ⟨t :: (ts ++ s.tokens), s.finish⟩ = _
  unfold binaryOperation
  rw [current_bind_apply, current_cons]
  simp only [h]
  rw [advance_bind_apply, advance_cons ht]
  rfl

theorem extend_same (h : LineStops s s') {power : Precedence} {left : Expression}
    (hinner : inner.Same inner' s s' ts.length) (hlimit : ts.length ≤ limit)
    (hlimit' : ts.length ≤ limit') :
    Same (extend inner limit power left) (extend inner' limit' power left) s s' ts := by
  induction limit generalizing limit' ts left with
  | zero =>
    obtain rfl : ts = [] := List.eq_nil_of_length_eq_zero (by omega)
    exact ⟨_, [], List.suffix_refl [], extend_stop (h.stopsAt _), extend_stop (h.symm.stopsAt _)⟩
  | succ limit ih =>
    cases ts with
    | nil => exact ⟨_, [], List.suffix_refl [], extend_stop (h.stopsAt _), extend_stop (h.symm.stopsAt _)⟩
    | cons t ts =>
      simp only [List.length_cons] at hinner hlimit hlimit'
      obtain ⟨limit', rfl⟩ : ∃ n, limit' = n + 1 := ⟨limit' - 1, by omega⟩
      unfold extend
      refine .current h (fun t t' ht ht' => by rw [ht, ht']) ?_
      split
      · exact .pure _
      · rename_i operator hoperator
        split
        · refine .of_eq (List.suffix_cons t ts) (bind_congr (binaryOperation_prepend hoperator))
            (bind_congr (binaryOperation_prepend hoperator)) ?_
          refine .bind (.bind (hinner _ ts (by omega)) fun right rest _ => .pure _) fun e rest hrest => ?_
          have hle := hrest.length_le
          exact ih (fun power ts hts => hinner power ts (by omega)) (by omega) (by omega)
        · exact .pure _

theorem expressionWithin_same (h : LineStops s s') (power : Precedence) (hlimit : ts.length < limit)
    (hlimit' : ts.length < limit') :
    Same (expressionWithin limit power) (expressionWithin limit' power) s s' ts := by
  induction limit generalizing limit' power ts with
  | zero => omega
  | succ limit ih =>
    obtain ⟨limit', rfl⟩ : ∃ n, limit' = n + 1 := ⟨limit' - 1, by omega⟩
    have hinner : Inner.Same (expressionWithin limit) (expressionWithin limit') s s' ts.length :=
      fun power ts hts => ih power (by omega) (by omega)
    refine .bind (operand_same h hinner (by omega) (by omega)) fun left rest hrest => ?_
    have hle := hrest.length_le
    exact extend_same h (fun power ts hts => hinner power ts (by omega)) (by omega) (by omega)

theorem expression_same (h : LineStops s s') (power : Precedence) :
    Same (expression power) (expression power) s s' ts := by
  refine .of_eq (List.suffix_refl ts) rfl rfl (expressionWithin_same h power ?_ ?_) <;>
    simp only [prepend, List.length_append] <;> omega

theorem speech_stop (h : s.current.kind.isContent = false) (stop : Position) :
    speech limit stop s = (.ok (.ofString "", stop), s) := by
  cases limit with
  | zero => rfl
  | succ limit =>
    rw [speech, current_bind_apply]
    generalize s.current.kind = kind at h
    cases kind <;> first | rfl | cases h

theorem speech_same (h : LineStops s s') {stop : Position} (hlimit : ts.length ≤ limit)
    (hlimit' : ts.length ≤ limit') : Same (speech limit stop) (speech limit' stop) s s' ts := by
  induction limit generalizing limit' ts stop with
  | zero =>
    obtain rfl : ts = [] := List.eq_nil_of_length_eq_zero (by omega)
    exact ⟨_, [], List.suffix_refl [], speech_stop h.isContent_eq stop, speech_stop h.symm.isContent_eq stop⟩
  | succ limit ih =>
    cases ts with
    | nil =>
      exact ⟨_, [], List.suffix_refl [], speech_stop h.isContent_eq stop,
        speech_stop h.symm.isContent_eq stop⟩
    | cons t ts =>
      simp only [List.length_cons] at hlimit hlimit'
      obtain ⟨limit', rfl⟩ : ∃ n, limit' = n + 1 := ⟨limit' - 1, by omega⟩
      unfold speech
      refine .current h (fun t t' ht ht' => by rw [ht, ht']) ?_
      split
      case h_1 hkind =>
        refine .advance h (by rw [hkind]; rfl) fun _ _ hts => ?_
        obtain ⟨rfl, rfl⟩ := List.cons.inj hts
        exact .bind (ih (by omega) (by omega)) fun part rest _ => .pure _
      case h_2 hkind =>
        refine .advance h (by rw [hkind]; rfl) fun _ _ hts => ?_
        obtain ⟨rfl, rfl⟩ := List.cons.inj hts
        refine .bind (expression_same h _) fun e mid hmid => ?_
        refine .bind (.expect h rfl) fun close rest hrest => ?_
        have hle := (hrest.trans hmid).length_le
        exact .bind (ih (by omega) (by omega)) fun part rest _ => .pure _
      case h_3 => exact .pure _

theorem nodeReference_same (h : LineStops s s') : Same nodeReference nodeReference s s' ts := by
  unfold nodeReference
  refine .current h (fun t t' ht ht' => by rw [ht, ht']; rfl) ?_
  split
  · exact .unexpected h _ _
  · refine .bind (.expect h rfl) fun colon rest _ => ?_
    exact .bind (.expectName h _) fun name rest _ => .pure _

theorem condition_same (h : LineStops s s') : Same condition condition s s' ts := by
  unfold condition
  refine .current h (fun t t' ht ht' => by rw [ht, ht']) ?_
  split
  · rename_i hkind
    refine .advance h (by rw [hkind]; rfl) fun comma rest _ => ?_
    refine .bind (.expectAs h rfl _ _) fun word rest _ => ?_
    refine .bind (.expectAs h rfl _ _) fun colon rest _ => ?_
    exact .bind (expression_same h _) fun e rest _ => .pure _
  · exact .pure _

namespace SameLine

variable {p q : Parse α} {f g : α → Parse β}

theorem bind (h : Same p q s s' ts) (hf : ∀ a rest, rest <:+ ts → SameLine (f a) (g a) s s' rest) :
    SameLine (p >>= f) (q >>= g) s s' ts := by
  obtain ⟨e | a, mid, hmid, hp, hq⟩ := h
  · exact .inl ⟨e, mid, hmid, bind_of_error hp, bind_of_error hq⟩
  · rcases hf a mid hmid with ⟨e, rest, hrest, hfa, hga⟩ | ⟨hend, b, hfa, hga⟩
    · exact .inl ⟨e, rest, hrest.trans hmid, (bind_of_ok hp).trans hfa, (bind_of_ok hq).trans hga⟩
    · exact .inr ⟨hend, b, (bind_of_ok hp).trans hfa, (bind_of_ok hq).trans hga⟩

theorem of_eq {p' q' : Parse α} {rest : List Token} (hrest : rest <:+ ts)
    (hp : p (s.prepend ts) = p' (s.prepend rest)) (hq : q (s'.prepend ts) = q' (s'.prepend rest))
    (h : SameLine p' q' s s' rest) : SameLine p q s s' ts := by
  rcases h with ⟨e, left, hleft, hp', hq'⟩ | ⟨hend, a, hp', hq'⟩
  · exact .inl ⟨e, left, hleft.trans hrest, hp.trans hp', hq.trans hq'⟩
  · exact .inr ⟨hend, a, hp.trans hp', hq.trans hq'⟩

theorem current {f g : Token → Parse β} (h : LineStops s s') (hg : EndBlind g)
    (hf : SameLine (f (s.prepend ts).current) (g (s.prepend ts).current) s s' ts) :
    SameLine (Parse.current >>= f) (Parse.current >>= g) s s' ts := by
  refine hf.of_eq (List.suffix_refl ts) rfl ?_
  rw [current_bind_apply, hg.apply_eq (current_prepend h.alike).symm]

theorem advance {f g : Token → Parse β} (h : LineStops s s')
    (hkind : (s.prepend ts).current.kind.isContent = true)
    (hf : ∀ t rest, ts = t :: rest → SameLine (f t) (g t) s s' rest) :
    SameLine (Parse.advance >>= f) (Parse.advance >>= g) s s' ts := by
  obtain ⟨t, rest, rfl⟩ := h.exists_cons hkind
  have ht : t.kind ≠ .endOfFile := TokenKind.ne_endOfFile hkind
  refine (hf t rest rfl).of_eq (List.suffix_cons t rest) ?_ ?_ <;>
    rw [advance_bind_apply, advance_prepend ht] <;> rfl

theorem unexpected (h : LineStops s s') (what : String) (hint : Option String) :
    SameLine (Parse.unexpected (α := α) what hint) (Parse.unexpected what hint) s s' ts := by
  refine .inl ⟨_, ts, List.suffix_refl ts, rfl, ?_⟩
  rw [Parse.unexpected, ← h.unexpected_eq]

theorem lineEnd (h : LineStops s s') (hts : ∀ t ∈ ts, t.kind.isContent = true) (what : String)
    (hint : Option String) (a : α) :
    SameLine (Parse.expectAs .newline what hint >>= fun _ => pure a)
      (Parse.expectAs .newline what hint >>= fun _ => pure a) s s' ts := by
  by_cases hkind : (s.prepend ts).current.kind = .newline
  · cases ts with
    | cons t ts =>
      have ht := hts t (List.mem_cons_self ..)
      rw [show t.kind = .newline from hkind] at ht
      cases ht
    | nil =>
      have hkind' : s'.kind = .newline := h.kind_eq ▸ hkind
      have hread : Parse.expectAs .newline what hint s = (.ok s.current, s.advance) := if_pos hkind
      have hread' : Parse.expectAs .newline what hint s' = (.ok s'.current, s'.advance) := if_pos hkind'
      exact .inr ⟨hkind, a, bind_of_ok hread, bind_of_ok hread'⟩
  · have hkind' : (s'.prepend ts).kind ≠ .newline := h.kind_prepend ts ▸ hkind
    refine .of_eq (List.suffix_refl ts) ?_ ?_ (unexpected h what hint)
    · exact bind_of_error (if_neg hkind)
    · exact bind_of_error (if_neg hkind')

end SameLine

variable (hts : ∀ t ∈ ts, t.kind.isContent = true)

include hts

theorem assignment_same (h : LineStops s s') (hkind : (s.prepend ts).current.kind = .atSign) :
    SameLine assignment assignment s s' ts := by
  unfold assignment
  refine .advance h (by rw [hkind]; rfl) fun sign ts₁ hts₁ => ?_
  refine .bind (.expectName h _) fun name ts₂ hts₂ => .current h (fun t t' ht ht' => by rw [ht, ht']) ?_
  split
  · exact .unexpected h _ _
  · rename_i operator hoperator
    have hmark : (s.prepend ts₂).current.kind.isContent = true := by
      generalize (s.prepend ts₂).current.kind = kind at hoperator
      cases kind <;> first | rfl | cases hoperator
    refine .advance h hmark fun mark ts₃ hts₃ => ?_
    refine .bind (expression_same h _) fun value ts₄ hts₄ => ?_
    refine .lineEnd h (fun t ht => hts t ?_) _ _ _
    subst hts₁
    subst hts₃
    exact .tail _ (hts₂.subset (.tail _ (hts₄.subset ht)))

theorem say_same (h : LineStops s s') (hkind : (s.prepend ts).current.kind = .sayWord) :
    SameLine say say s s' ts := by
  -- the bound on the parts of the text is the number of tokens that are left
  refine .of_eq (List.suffix_refl ts) rfl rfl ?_
  refine .advance h (by rw [hkind]; rfl) fun word ts₁ hts₁ => ?_
  subst hts₁
  refine .bind (speech_same h ?_ ?_) fun part ts₂ hts₂ => ?_
  · simp only [prepend, List.length_append, List.length_cons]
    omega
  · simp only [prepend, List.length_append, List.length_cons]
    omega
  · exact .lineEnd h (fun t ht => hts t (.tail _ (hts₂.subset ht))) _ _ _

theorem choice_same (h : LineStops s s') (hkind : (s.prepend ts).current.kind = .choiceWord) :
    SameLine choice choice s s' ts := by
  unfold choice
  refine .advance h (by rw [hkind]; rfl) fun word ts₁ hts₁ => ?_
  refine .bind (.expect h rfl) fun text ts₂ hts₂ => .current h (fun t t' ht ht' => by rw [ht, ht']) ?_
  split
  · exact .unexpected h _ _
  · refine .bind (.expectAs h rfl _ _) fun comma ts₃ hts₃ => ?_
    refine .bind (nodeReference_same h) fun target ts₄ hts₄ => ?_
    refine .bind (condition_same h) fun guard? ts₅ hts₅ => ?_
    refine .lineEnd h (fun t ht => hts t ?_) _ _ _
    subst hts₁
    exact .tail _ ((hts₅.trans (hts₄.trans (hts₃.trans hts₂))).subset ht)

theorem goto_same (h : LineStops s s') (hkind : (s.prepend ts).current.kind = .gotoWord) :
    SameLine goto goto s s' ts := by
  unfold goto
  refine .advance h (by rw [hkind]; rfl) fun word ts₁ hts₁ => ?_
  refine .bind (nodeReference_same h) fun target ts₂ hts₂ => ?_
  refine .lineEnd h (fun t ht => hts t ?_) _ _ _
  subst hts₁
  exact .tail _ (hts₂.subset ht)

/-- A statement is read or refused alike whatever stands behind its line. -/
theorem statement_same (h : LineStops s s') : SameLine statement statement s s' ts := by
  unfold statement
  refine .current h (fun t t' ht ht' => by rw [ht, ht']) ?_
  split
  case h_1 hkind => exact assignment_same hts h hkind
  case h_2 hkind => exact say_same hts h hkind
  case h_3 hkind => exact choice_same hts h hkind
  case h_4 hkind => exact goto_same hts h hkind
  case h_5 | h_6 | h_7 => exact .unexpected h _ _

end Parse

end DialogueScript
