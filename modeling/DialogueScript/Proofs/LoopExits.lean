import DialogueScript.Proofs.ParseProgress

namespace DialogueScript

open TokenStream Grammar

theorem TokenStream.kind_of_length_le_zero {s : TokenStream} (h : s.tokens.length ≤ 0) : s.kind = .endOfFile := by
  obtain ⟨ts, finish⟩ := s
  obtain rfl : ts = [] := List.eq_nil_of_length_eq_zero (Nat.le_zero.1 h)
  rfl

namespace Parse

variable {α β : Type} {s : TokenStream}

/-- On this stream the parser takes tokens from the front, and that an expression is missing it says only of a token
with which none begins. -/
structure Seeks (p : Parse α) (s : TokenStream) : Prop where
  length_le : ∀ a rest, p s = (.ok a, rest) → rest.tokens.length ≤ s.tokens.length
  starts : ∀ rest, p s = (.error (rest.unexpected "expression" none), rest) → startsExpression rest.kind = false

theorem seeks_pure (a : α) : Seeks (pure a) s where
  length_le b rest h := by
    obtain ⟨-, rfl⟩ := pure_eq_ok.1 h
    exact Nat.le_refl _
  starts rest h := by cases h

theorem seeks_fail {e : ScriptError} (h : ∀ found hint, e.cause ≠ .unexpectedToken "expression" found hint) :
    Seeks (fail e : Parse α) s where
  length_le a rest hread := absurd hread fail_ne_ok
  starts rest hread := by
    cases hread
    exact absurd rfl (h _ _)

theorem seeks_unexpected {what : String} {hint : Option String} (h : what = "expression" → hint ≠ none) :
    Seeks (unexpected what hint : Parse α) s where
  length_le a rest hread := absurd hread unexpected_ne_ok
  starts rest hread := by
    obtain ⟨he, rfl⟩ := Prod.mk.inj hread
    obtain ⟨hwhat, -, hhint⟩ := ErrorCause.unexpectedToken.inj (congrArg ScriptError.cause (Except.error.inj he))
    exact absurd hhint (h hwhat)

theorem seeks_missing (h : startsExpression s.kind = false) : Seeks (unexpected "expression" none : Parse α) s where
  length_le a rest hread := absurd hread unexpected_ne_ok
  starts rest hread := by
    obtain ⟨-, rfl⟩ := Prod.mk.inj hread
    exact h

theorem seeks_bind {p : Parse α} {f : α → Parse β} (hp : Seeks p s)
    (hf : ∀ a mid, mid.tokens.length ≤ s.tokens.length → Seeks (f a) mid) : Seeks (p >>= f) s where
  length_le b rest hread := by
    obtain ⟨a, mid, hfirst, hread⟩ := bind_eq_ok.1 hread
    have hle := hp.length_le a mid hfirst
    exact ((hf a mid hle).length_le b rest hread).trans hle
  starts rest hread := by
    rcases hfirst : p s with ⟨e | a, mid⟩
    · rw [bind_of_error hfirst] at hread
      cases hread
      exact hp.starts _ hfirst
    · rw [bind_of_ok hfirst] at hread
      exact (hf a mid (hp.length_le a mid hfirst)).starts rest hread

theorem seeks_current_bind {f : Token → Parse β} (h : Seeks (f s.current) s) : Seeks (current >>= f) s :=
  ⟨h.length_le, h.starts⟩

theorem seeks_following_bind {f : Token → Parse β} (h : Seeks (f s.following) s) : Seeks (following >>= f) s :=
  ⟨h.length_le, h.starts⟩

theorem seeks_advance_bind {f : Token → Parse β} (h : Seeks (f s.current) s.advance) : Seeks (advance >>= f) s where
  length_le b rest hread := (h.length_le b rest hread).trans (leftOf_advance s).length_le
  starts := h.starts

theorem seeks_expectAs {what : String} (h : what ≠ "expression") (kind : TokenKind) (hint : Option String) :
    Seeks (expectAs kind what hint) s where
  length_le a rest hread := by
    have hleft := leaves_expectAs kind what hint s
    rw [hread] at hleft
    exact hleft.length_le
  starts rest hread := by
    unfold expectAs at hread
    split at hread
    · cases hread
    · exact (seeks_unexpected (α := Token) fun hwhat => absurd hwhat h).starts rest hread

theorem seeks_literal : Seeks literal s := by
  have hvalue : ∀ value : Literal, Seeks (pure value >>= fun value => advance >>= fun _ =>
      pure (Expression.literal value s.current.span)) s :=
    fun value => seeks_bind (seeks_pure value) fun _ mid _ => seeks_advance_bind (seeks_pure _)
  apply seeks_current_bind
  split
  case h_1 =>
    split
    · exact hvalue _
    · exact seeks_bind (seeks_fail fun _ _ => nofun) fun _ _ _ => seeks_advance_bind (seeks_pure _)
  case h_2 | h_3 | h_4 => exact hvalue _
  case h_5 =>
    exact seeks_bind (seeks_unexpected (by decide)) fun _ _ _ => seeks_advance_bind (seeks_pure _)

theorem seeks_variableUse : Seeks variableUse s := by
  refine seeks_advance_bind (seeks_bind (seeks_current_bind ?_) fun _ _ _ => seeks_pure _)
  split
  · exact seeks_unexpected fun hwhat => absurd hwhat (by decide)
  · exact seeks_expectAs (by decide) _ _

section Inner

variable {inner : Inner} {bound limit : Nat} (hinner : ∀ power s, s.tokens.length < bound → Seeks (inner power) s)

include hinner

/-- An argument that is missing for the bound alone is missing where no tokens are left. -/
theorem seeks_arguments (h : s.tokens.length < bound) (hlimit : s.tokens.length ≤ limit) :
    Seeks (arguments inner limit) s := by
  induction limit generalizing s with
  | zero =>
    apply seeks_missing
    rw [kind_of_length_le_zero hlimit]
    rfl
  | succ limit ih =>
    refine seeks_bind (hinner _ s h) fun e mid hle => seeks_current_bind ?_
    split
    · rename_i hcomma
      have hlt : mid.advance.tokens.length < mid.tokens.length := length_advance (by rw [kind, hcomma]; decide)
      exact seeks_advance_bind (seeks_bind (ih (by omega) (by omega)) fun _ _ _ => seeks_pure _)
    · exact seeks_pure _

theorem seeks_functionCall (h : s.tokens.length ≤ bound) (hlimit : s.tokens.length ≤ limit)
    (hname : s.kind = .identifier) : Seeks (functionCall inner limit) s := by
  have hclose : ∀ (args : List Expression) (mid : TokenStream), Seeks (expect .closeParen >>= fun close =>
      pure (Expression.call s.current.value args ⟨s.current.span.start, close.span.stop⟩)) mid :=
    fun args mid => seeks_bind (seeks_expectAs (by decide) _ _) fun _ _ _ => seeks_pure _
  have hlt : s.advance.tokens.length < s.tokens.length := length_advance (by rw [hname]; decide)
  have hle := (leftOf_advance s.advance).length_le
  refine seeks_current_bind (seeks_following_bind ?_)
  split
  · refine seeks_advance_bind (seeks_advance_bind (seeks_current_bind ?_))
    dsimp only
    split
    · exact seeks_bind (seeks_pure _) fun _ _ _ => hclose _ _
    · exact seeks_bind (seeks_arguments hinner (by omega) (by omega)) fun _ _ _ => hclose _ _
  · exact seeks_unexpected nofun

theorem seeks_unaryOperation (h : s.tokens.length ≤ bound) (hsign : s.kind ≠ .endOfFile) :
    Seeks (unaryOperation inner) s := by
  have hlt := length_advance hsign
  apply seeks_current_bind
  split
  · exact seeks_unexpected (by decide)
  · exact seeks_advance_bind (seeks_bind (hinner _ _ (by omega)) fun _ _ _ => seeks_pure _)

theorem seeks_parenthesized (h : s.tokens.length ≤ bound) (hopening : s.kind ≠ .endOfFile) :
    Seeks (parenthesized inner) s := by
  have hlt := length_advance hopening
  refine seeks_advance_bind (seeks_bind (hinner _ _ (by omega)) fun _ _ _ => ?_)
  exact seeks_bind (seeks_expectAs (by decide) _ _) fun _ _ _ => seeks_pure _

theorem seeks_binaryOperation (h : s.tokens.length ≤ bound) (left : Expression) (power : Precedence) :
    Seeks (binaryOperation inner left power) s := by
  apply seeks_current_bind
  split
  · exact seeks_unexpected (by decide)
  · rename_i operator hoperator
    have hlt : s.advance.tokens.length < s.tokens.length := length_advance (operator_ne_endOfFile hoperator)
    exact seeks_advance_bind (seeks_bind (hinner _ _ (by omega)) fun _ _ _ => seeks_pure _)

theorem seeks_operand (h : s.tokens.length ≤ bound) (hlimit : s.tokens.length ≤ limit) :
    Seeks (operand inner limit) s := by
  apply seeks_current_bind
  split
  case h_1 | h_2 | h_3 | h_4 => exact seeks_literal
  case h_5 => exact seeks_variableUse
  case h_6 hkind => exact seeks_functionCall hinner h hlimit hkind
  case h_7 hkind | h_8 hkind => exact seeks_unaryOperation hinner h (by rw [kind, hkind]; decide)
  case h_9 hkind => exact seeks_parenthesized hinner h (by rw [kind, hkind]; decide)
  case h_10 =>
    apply seeks_missing
    unfold startsExpression
    split <;> first | rfl | contradiction

theorem seeks_extend (h : s.tokens.length ≤ bound) (power : Precedence) (left : Expression) :
    Seeks (extend inner limit power left) s := by
  induction limit generalizing s left with
  | zero => exact seeks_pure _
  | succ limit ih =>
    apply seeks_current_bind
    split
    · exact seeks_pure _
    · split
      · exact seeks_bind (seeks_binaryOperation hinner h _ _) fun e mid hle => ih (hle.trans h) e
      · exact seeks_pure _

end Inner

theorem seeks_expressionWithin {limit : Nat} (power : Precedence) (h : s.tokens.length < limit) :
    Seeks (expressionWithin limit power) s := by
  induction limit generalizing s power with
  | zero => exact absurd h (Nat.not_lt_zero _)
  | succ limit ih =>
    have hinner : ∀ power s, s.tokens.length < limit → Seeks (expressionWithin limit power) s :=
      fun power s hlt => ih power hlt
    have hle := Nat.le_of_lt_succ h
    exact seeks_bind (seeks_operand hinner hle hle) fun left mid hmid => seeks_extend hinner (hmid.trans hle) power left

theorem seeks_expression (power : Precedence) : Seeks (expression power) s :=
  have hwithin := seeks_expressionWithin power (Nat.lt_succ_self s.tokens.length)
  ⟨hwithin.length_le, hwithin.starts⟩

theorem rank_le_of_expression {power : Precedence} {e : Expression} {rest : TokenStream}
    (h : expression power s = (.ok e, rest)) (operator : BinaryOperator)
    (hoperator : BinaryOperator.ofToken? rest.kind = some operator) : operator.precedence.rank ≤ power.rank := by
  obtain ⟨left, rfl, -, hstop⟩ := expression_sound h
  cases left with
  | nil => cases hoperator
  | cons t left => exact hstop t rfl operator hoperator

theorem kind_speech {limit : Nat} {stop : Position} {text : Speech × Position} {left : TokenStream}
    (hlimit : s.tokens.length ≤ limit) (h : speech limit stop s = (.ok text, left)) :
    left.kind ≠ .string ∧ left.kind ≠ .placeholderStart := by
  induction limit generalizing s stop text with
  | zero =>
    obtain ⟨-, rfl⟩ := pure_eq_ok.1 h
    rw [kind_of_length_le_zero hlimit]
    decide
  | succ limit ih =>
    unfold speech at h
    rw [current_bind_apply] at h
    obtain ⟨p, hp, h⟩ := exists_applied h
    split at hp <;> subst hp
    case h_1 hkind =>
      have hlt : s.advance.tokens.length < s.tokens.length := length_advance (by rw [kind, hkind]; decide)
      rw [advance_bind_apply] at h
      obtain ⟨part, mid, hread, h⟩ := bind_eq_ok.1 h
      obtain ⟨-, rfl⟩ := pure_eq_ok.1 h
      exact ih (by omega) hread
    case h_2 hkind =>
      have hlt : s.advance.tokens.length < s.tokens.length := length_advance (by rw [kind, hkind]; decide)
      rw [advance_bind_apply] at h
      obtain ⟨e, mid, he, h⟩ := bind_eq_ok.1 h
      obtain ⟨close, mid', hclose, h⟩ := bind_eq_ok.1 h
      obtain ⟨part, mid'', hread, h⟩ := bind_eq_ok.1 h
      obtain ⟨-, rfl⟩ := pure_eq_ok.1 h
      have hle := (seeks_expression _).length_le e mid he
      have hle' := (seeks_expectAs (by decide) .placeholderEnd none).length_le close mid' hclose
      exact ih (by omega) hread
    case h_3 hstring hplaceholder =>
      obtain ⟨-, rfl⟩ := pure_eq_ok.1 h
      exact ⟨hstring, hplaceholder⟩

end Parse

/-- A block is read up to the end of it or of the file. -/
theorem Block.kind_parseWithin {limit : Nat} {s : TokenStream} (h : s.tokens.length ≤ limit) :
    (parseWithin limit s).rest.kind = .dedent ∨ (parseWithin limit s).rest.kind = .endOfFile := by
  induction limit generalizing s with
  | zero => exact .inr (kind_of_length_le_zero h)
  | succ limit ih =>
    unfold parseWithin
    split
    case h_1 hdedent => exact .inl hdedent
    case h_2 hend => exact .inr hend
    case h_3 hnewline =>
      have hlt : s.advance.tokens.length < s.tokens.length := length_advance (by rw [hnewline]; decide)
      exact ih (by omega)
    case h_4 hindent =>
      have hlt : s.advance.tokens.length < s.tokens.length := length_advance (by rw [hindent]; decide)
      have hle := (leftOf_skipBlock hindent).length_le
      exact ih (by omega)
    case h_5 hdedent hend hnewline hindent =>
      have hlt := length_advance hend
      have hleft := Parse.leaves_statement s
      rcases hread : Parse.statement s with ⟨e | st, rest⟩ <;> rw [hread] at hleft
      · have hcontent : s.kind.isContent = true := TokenKind.isContent_of_ne hdedent hend hnewline hindent
        have hle : rest.skipStatement.tokens.length ≤ s.advance.tokens.length :=
          (leftOf_skipStatement hcontent hleft).length_le
        exact ih (by omega)
      · have hle := (Parse.leftOf_statement hread).length_le
        exact ih (by omega)

namespace Parser

variable {p after : Parser}

theorem kind_nextNode (h : p.nextNode = (none, after)) : after.stream.kind = .endOfFile := by
  induction p using tries_induction with
  | endOfFile p hend =>
    rw [nextNode_of_endOfFile hend] at h
    obtain ⟨-, rfl⟩ := Prod.mk.inj h
    exact hend
  | node p n after' hend hnode ih =>
    rw [nextNode_of_node hend hnode] at h
    cases h
  | error p e after' hend hnode ih => exact ih (nextNode_of_error hend hnode ▸ h)

end Parser

end DialogueScript
