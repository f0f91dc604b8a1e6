import DialogueScript.Proofs.ExpressionSound

namespace DialogueScript.Parse

open Grammar TokenStream

variable {inner : Inner} {limit : Nat} {ts rest : List Token} {finish : Position} {e : Expression}

theorem literal_number {t : Token} {x : Double} (hkind : t.kind = .number)
    (hx : Double.parse? t.value.toList = some x) :
    literal ⟨t :: ts, finish⟩ = (.ok (.literal (.number x) t.span), ⟨ts, finish⟩) := by
  unfold literal
  rw [current_bind_apply, current_cons]
  simp only [hkind, hx, pure_bind_apply, advance_bind_apply]
  rw [advance_cons (by simp [hkind])]
  rfl

theorem literal_text {t : Token} (hkind : t.kind = .string) :
    literal ⟨t :: ts, finish⟩ = (.ok (.literal (.text t.value) t.span), ⟨ts, finish⟩) := by
  unfold literal
  rw [current_bind_apply, current_cons]
  simp only [hkind, pure_bind_apply, advance_bind_apply]
  rw [advance_cons (by simp [hkind])]
  rfl

theorem literal_boolean {t : Token} (value : Bool)
    (hkind : t.kind = if value then .trueWord else .falseWord) :
    literal ⟨t :: ts, finish⟩ = (.ok (.literal (.boolean value) t.span), ⟨ts, finish⟩) := by
  unfold literal
  rw [current_bind_apply, current_cons]
  cases value with
  | true =>
    simp only [hkind, ↓reduceIte, pure_bind_apply, advance_bind_apply]
    rw [advance_cons (by simp [hkind])]
    rfl
  | false =>
    simp only [hkind, Bool.false_eq_true, ↓reduceIte, pure_bind_apply, advance_bind_apply]
    rw [advance_cons (by simp [hkind])]
    rfl

theorem variableUse_variable {sign name : Token} (hsign : sign.kind = .atSign)
    (hname : name.kind = .identifier) :
    variableUse ⟨sign :: name :: ts, finish⟩ =
      (.ok (.var name.value ⟨sign.span.start, name.span.stop⟩), ⟨ts, finish⟩) := by
  unfold variableUse
  rw [advance_bind_apply, advance_cons (by simp [hsign]),
    bind_of_ok (expectName_eq_ok.2 ⟨ts, rfl, hname, rfl⟩)]
  rfl

theorem functionCall_emptyCall {name opening close : Token} (hname : name.kind = .identifier)
    (hopening : opening.kind = .openParen) (hclose : close.kind = .closeParen) :
    functionCall inner limit ⟨name :: opening :: close :: ts, finish⟩ =
      (.ok (.call name.value [] ⟨name.span.start, close.span.stop⟩), ⟨ts, finish⟩) := by
  unfold functionCall
  rw [current_bind_apply, following_bind_apply, following_cons_cons, if_pos hopening,
    advance_bind_apply, advance_cons (by simp [hname]), advance_bind_apply,
    advance_cons (by simp [hopening]), current_bind_apply, current_cons]
  simp only [hclose, ↓reduceIte]
  rw [pure_bind_apply, bind_of_ok ((expect_eq_ok (by decide)).2 ⟨ts, rfl, hclose, rfl⟩)]
  rfl

theorem functionCall_call {name opening close : Token} {args : List Expression}
    (hname : name.kind = .identifier) (hopening : opening.kind = .openParen)
    (hclose : close.kind = .closeParen) (hfirst : kind ⟨ts, finish⟩ ≠ .closeParen)
    (hargs : arguments inner limit ⟨ts, finish⟩ = (.ok args, ⟨close :: rest, finish⟩)) :
    functionCall inner limit ⟨name :: opening :: ts, finish⟩ =
      (.ok (.call name.value args ⟨name.span.start, close.span.stop⟩), ⟨rest, finish⟩) := by
  unfold functionCall
  rw [current_bind_apply, following_bind_apply, following_cons_cons, if_pos hopening,
    advance_bind_apply, advance_cons (by simp [hname]), advance_bind_apply,
    advance_cons (by simp [hopening]), current_bind_apply]
  change (TokenStream.current ⟨ts, finish⟩).kind ≠ .closeParen at hfirst
  simp only [hfirst, ↓reduceIte]
  rw [bind_of_ok hargs, bind_of_ok ((expect_eq_ok (by decide)).2 ⟨rest, rfl, hclose, rfl⟩)]
  rfl

theorem unaryOperation_unary {sign : Token} {operator : UnaryOperator}
    (hsign : UnaryOperator.ofToken? sign.kind = some operator)
    (he : inner .unary ⟨ts, finish⟩ = (.ok e, ⟨rest, finish⟩)) :
    unaryOperation inner ⟨sign :: ts, finish⟩ =
      (.ok (.unary operator e ⟨sign.span.start, e.span.stop⟩), ⟨rest, finish⟩) := by
  have hkind : sign.kind ≠ .endOfFile := by
    intro hkind
    simp [hkind, UnaryOperator.ofToken?] at hsign
  unfold unaryOperation
  rw [current_bind_apply, current_cons]
  simp only [hsign]
  rw [advance_bind_apply, advance_cons hkind, bind_of_ok he]
  rfl

theorem parenthesized_parenthesized {opening close : Token} (hopening : opening.kind = .openParen)
    (hclose : close.kind = .closeParen)
    (he : inner .lowest ⟨ts, finish⟩ = (.ok e, ⟨close :: rest, finish⟩)) :
    parenthesized inner ⟨opening :: ts, finish⟩ = (.ok e, ⟨rest, finish⟩) := by
  unfold parenthesized
  rw [advance_bind_apply, advance_cons (by simp [hopening]), bind_of_ok he,
    bind_of_ok ((expect_eq_ok (by decide)).2 ⟨rest, rfl, hclose, rfl⟩)]
  rfl

theorem operand_literal {t : Token} (hkind : t.kind = .number ∨ t.kind = .string ∨
    t.kind = .trueWord ∨ t.kind = .falseWord) :
    operand inner limit ⟨t :: ts, finish⟩ = literal ⟨t :: ts, finish⟩ := by
  unfold operand
  rw [current_bind_apply, current_cons]
  rcases hkind with hkind | hkind | hkind | hkind <;> simp only [hkind]

theorem operand_variable {sign : Token} (hsign : sign.kind = .atSign) :
    operand inner limit ⟨sign :: ts, finish⟩ = variableUse ⟨sign :: ts, finish⟩ := by
  unfold operand
  rw [current_bind_apply, current_cons]
  simp only [hsign]

theorem operand_call {name : Token} (hname : name.kind = .identifier) :
    operand inner limit ⟨name :: ts, finish⟩ = functionCall inner limit ⟨name :: ts, finish⟩ := by
  unfold operand
  rw [current_bind_apply, current_cons]
  simp only [hname]

theorem operand_unary {sign : Token} {operator : UnaryOperator}
    (hsign : UnaryOperator.ofToken? sign.kind = some operator) :
    operand inner limit ⟨sign :: ts, finish⟩ = unaryOperation inner ⟨sign :: ts, finish⟩ := by
  have hkind : sign.kind = .not ∨ sign.kind = .minus := by
    generalize sign.kind = kind at hsign
    cases kind <;> simp_all [UnaryOperator.ofToken?]
  unfold operand
  rw [current_bind_apply, current_cons]
  rcases hkind with hkind | hkind <;> simp only [hkind]

theorem operand_parenthesized {opening : Token} (hopening : opening.kind = .openParen) :
    operand inner limit ⟨opening :: ts, finish⟩ = parenthesized inner ⟨opening :: ts, finish⟩ := by
  unfold operand
  rw [current_bind_apply, current_cons]
  simp only [hopening]

theorem extend_operator {power : Precedence} {t : Token} {operator : BinaryOperator}
    {left right : Expression} (hoperator : BinaryOperator.ofToken? t.kind = some operator)
    (hpower : power.rank < operator.precedence.rank)
    (hright : inner operator.precedence ⟨ts, finish⟩ = (.ok right, ⟨rest, finish⟩)) :
    extend inner (limit + 1) power left ⟨t :: ts, finish⟩ =
      extend inner limit power
        (.binary operator left right ⟨left.span.start, right.span.stop⟩) ⟨rest, finish⟩ := by
  have hkind : t.kind ≠ .endOfFile := operator_ne_endOfFile hoperator
  have hoperation : binaryOperation inner left operator.precedence ⟨t :: ts, finish⟩ =
      (.ok (.binary operator left right ⟨left.span.start, right.span.stop⟩), ⟨rest, finish⟩) := by
    unfold binaryOperation
    rw [current_bind_apply, current_cons]
    simp only [hoperator]
    rw [advance_bind_apply, advance_cons hkind, bind_of_ok hright]
    rfl
  rw [extend, current_bind_apply, current_cons]
  simp only [hoperator, hpower, ↓reduceIte]
  rw [bind_of_ok hoperation]

theorem extend_stop {power : Precedence} {left : Expression} (hstop : StopsAt power.rank ts) :
    extend inner limit power left ⟨ts, finish⟩ = (.ok left, ⟨ts, finish⟩) := by
  cases limit with
  | zero => rfl
  | succ limit =>
    rw [extend, current_bind_apply]
    cases ts with
    | nil => rfl
    | cons t ts =>
      rw [current_cons]
      cases hoperator : BinaryOperator.ofToken? t.kind with
      | none => rfl
      | some operator =>
        have hle := hstop t rfl operator hoperator
        simp only [Nat.not_lt.2 hle, ↓reduceIte]
        rfl

end DialogueScript.Parse

namespace DialogueScript.Grammar

open Parse

theorem Derives.starts {phrase : Phrase} {ts rest : List Token} (h : Derives phrase ts rest) :
    ∃ t tail, ts = t :: tail ∧ startsExpression t.kind = true := by
  induction h with
  | number hkind | text hkind | yes hkind | no hkind => exact ⟨_, _, rfl, by rw [hkind]; rfl⟩
  | «variable» hkind | emptyCall hkind | call hkind | parenthesized hkind =>
    exact ⟨_, _, rfl, by rw [hkind]; rfl⟩
  | @unary sign operator e ts rest hsign =>
    refine ⟨_, _, rfl, ?_⟩
    rw [signs_lookup] at hsign
    generalize sign.kind = kind at hsign
    cases kind <;> first | rfl | cases hsign
  | binary _ _ _ ih | operand _ _ ih | lastArgument _ ih | argument _ _ _ ih => exact ih

/-- What a phrase is to the parser. An expression brings the loop that extends it to the tokens
behind it; `limit` and `left` bound the depth and the rounds that remain. -/
def Phrase.IsRead : Phrase → List Token → List Token → Prop
  | .expression tier e, ts, rest => ∀ power limit finish,
    (Tier.above power).rank ≤ tier.rank → StopsAt tier.rank rest → ts.length ≤ limit + rest.length →
    ∃ left, limit + rest.length ≤ left + ts.length ∧
      expressionWithin (limit + 1) power ⟨ts, finish⟩ =
        extend (expressionWithin limit) left power e ⟨rest, finish⟩
  | .arguments es, ts, rest => ∀ limit left finish,
    (∃ close tail, rest = close :: tail ∧ close.kind = .closeParen) →
    ts.length < limit + rest.length → ts.length ≤ left + rest.length →
    Parse.arguments (expressionWithin limit) left ⟨ts, finish⟩ = (.ok es, ⟨rest, finish⟩)

theorem isRead_of_operand {tier : Tier} {e : Expression} {ts rest : List Token}
    (hlt : rest.length < ts.length)
    (h : ∀ limit finish, ts.length ≤ limit + rest.length →
      Parse.operand (expressionWithin limit) limit ⟨ts, finish⟩ = (.ok e, ⟨rest, finish⟩)) :
    (Phrase.expression tier e).IsRead ts rest := by
  intro power limit finish _ _ hlimit
  exact ⟨limit, by omega, bind_of_ok (h limit finish hlimit)⟩

theorem Phrase.IsRead.eq_ok {tier : Tier} {e : Expression} {ts rest : List Token}
    (h : (Phrase.expression tier e).IsRead ts rest) (hlt : rest.length < ts.length)
    (power : Precedence) (limit : Nat) (finish : Position)
    (htier : (Tier.above power).rank ≤ tier.rank) (hstop : StopsAt power.rank rest)
    (hlimit : ts.length < limit + rest.length) :
    expressionWithin limit power ⟨ts, finish⟩ = (.ok e, ⟨rest, finish⟩) := by
  obtain ⟨limit, rfl⟩ : ∃ n, limit = n + 1 := ⟨limit - 1, by omega⟩
  have hrank : StopsAt tier.rank rest := by
    by_cases hbinary : tier.rank ≤ 5
    · exact hstop.mono (Nat.le_of_lt (Tier.lt_of_above_le htier hbinary))
    · exact (stopsAt_five rest).mono (by omega)
  obtain ⟨left, -, heq⟩ := h power limit finish htier hrank (by omega)
  rw [heq, extend_stop hstop]

theorem Derives.isRead {phrase : Phrase} {ts rest : List Token} (h : Derives phrase ts rest) :
    phrase.IsRead ts rest := by
  have hlt := h.length_lt
  -- the derivation builds a chain of operators from the right and the parser from the left; they meet in the loop
  induction h with
  | number hkind hx =>
    refine isRead_of_operand hlt fun limit finish _ => ?_
    rw [operand_literal (by simp [hkind]), literal_number hkind hx]
  | text hkind =>
    refine isRead_of_operand hlt fun limit finish _ => ?_
    rw [operand_literal (by simp [hkind]), literal_text hkind]
  | yes hkind =>
    refine isRead_of_operand hlt fun limit finish _ => ?_
    rw [operand_literal (by simp [hkind]), literal_boolean true hkind]
  | no hkind =>
    refine isRead_of_operand hlt fun limit finish _ => ?_
    rw [operand_literal (by simp [hkind]), literal_boolean false hkind]
  | «variable» hsign hname =>
    refine isRead_of_operand hlt fun limit finish _ => ?_
    rw [operand_variable hsign, variableUse_variable hsign hname]
  | emptyCall hname hopening hclose =>
    refine isRead_of_operand hlt fun limit finish _ => ?_
    rw [operand_call hname, functionCall_emptyCall hname hopening hclose]
  | @call name opening close args ts rest hname hopening hclose hargs ih =>
    have hlength := hargs.length_lt
    simp only [List.length_cons] at hlength
    refine isRead_of_operand hlt fun limit finish hlimit => ?_
    simp only [List.length_cons] at hlimit
    -- arguments that are there do not look like an empty list
    have hfirst : TokenStream.kind ⟨ts, finish⟩ ≠ .closeParen := by
      obtain ⟨first, tail, rfl, hfirst⟩ := hargs.starts
      intro hkind
      rw [TokenStream.kind_cons] at hkind
      simp [hkind, startsExpression] at hfirst
    have hread := ih hargs.length_lt limit limit finish ⟨close, rest, rfl, hclose⟩
      (by simp only [List.length_cons]; omega) (by simp only [List.length_cons]; omega)
    rw [operand_call hname, functionCall_call hname hopening hclose hfirst hread]
  | @parenthesized opening close e ts rest hopening hclose he ih =>
    have hlength := he.length_lt
    simp only [List.length_cons] at hlength
    refine isRead_of_operand hlt fun limit finish hlimit => ?_
    simp only [List.length_cons] at hlimit
    have hread := (ih he.length_lt).eq_ok he.length_lt .lowest limit finish (by decide)
      (stopsAt_cons (by simp [hclose, BinaryOperator.ofToken?]) _ _)
      (by simp only [List.length_cons]; omega)
    rw [operand_parenthesized hopening, parenthesized_parenthesized hopening hclose hread]
  | @unary sign operator e ts rest hsign he ih =>
    rw [signs_lookup] at hsign
    refine isRead_of_operand hlt fun limit finish hlimit => ?_
    simp only [List.length_cons] at hlimit
    have hread := (ih he.length_lt).eq_ok he.length_lt .unary limit finish (by decide)
      ((stopsAt_five rest).mono (by decide)) (by omega)
    rw [operand_unary hsign, unaryOperation_unary hsign hread]
  | @binary tier sign operator left right ts mid rest hsign hleft hright ihl ihr =>
    obtain ⟨hoperator, hrank⟩ := Tier.operator?_eq_some.1 hsign
    obtain ⟨tier', hrank', hnext⟩ := Tier.exists_rank_eq operator
    obtain rfl : tier' = tier := Tier.eq_of_rank_eq (hrank'.trans hrank)
    have hlength := hleft.length_lt
    have hlength' := hright.length_lt
    simp only [List.length_cons] at hlength
    intro power limit finish hpower hstop hlimit
    -- the loop of the left operand goes on with this operator
    have hstop' : StopsAt tier'.rank (sign :: mid) := by
      intro t ht o ho
      obtain rfl : sign = t := by simpa using ht
      obtain rfl : operator = o := by simpa [hoperator] using ho
      omega
    obtain ⟨rounds, hrounds, heq⟩ := ihl hleft.length_lt power limit finish hpower hstop'
      (by simp only [List.length_cons]; omega)
    simp only [List.length_cons] at hrounds
    obtain ⟨rounds, rfl⟩ : ∃ n, rounds = n + 1 := ⟨rounds - 1, by omega⟩
    have hread := (ihr hright.length_lt).eq_ok hright.length_lt operator.precedence limit finish
      (hnext ▸ Nat.le_refl _) (hrank ▸ hstop) (by omega)
    have hbinary := operator_rank_le_five operator
    -- so the loop takes the operator, and has one round less for what follows
    have htight : power.rank < operator.precedence.rank := by
      rw [hrank]
      exact Tier.lt_of_above_le hpower (by omega)
    exact ⟨rounds, by omega, heq.trans (extend_operator hoperator htight hread)⟩
  | @operand tier e ts rest hne he ih =>
    have hnext := Tier.rank_next hne
    intro power limit finish hpower hstop hlimit
    -- an operand stands for itself: the loop of its tier makes no round
    exact ih hlt power limit finish (by omega) (hstop.mono (by omega)) hlimit
  | @lastArgument e ts rest he ih =>
    intro limit left finish hclose hlimit hleft
    obtain ⟨close, tail, rfl, hkind⟩ := hclose
    obtain ⟨left, rfl⟩ : ∃ n, left = n + 1 := ⟨left - 1, by omega⟩
    have hread := (ih hlt).eq_ok hlt .lowest limit finish (by decide)
      (stopsAt_cons (by simp [hkind, BinaryOperator.ofToken?]) _ _) hlimit
    rw [Parse.arguments, bind_of_ok hread, current_bind_apply, TokenStream.current_cons]
    simp only [hkind, reduceCtorEq, ↓reduceIte]
    rfl
  | @argument e es comma ts mid rest hcomma he hes ihe ihes =>
    have hlength := he.length_lt
    have hlength' := hes.length_lt
    simp only [List.length_cons] at hlength
    intro limit left finish hclose hlimit hleft
    obtain ⟨left, rfl⟩ : ∃ n, left = n + 1 := ⟨left - 1, by omega⟩
    have hread := (ihe he.length_lt).eq_ok he.length_lt .lowest limit finish (by decide)
      (stopsAt_cons (by simp [hcomma, BinaryOperator.ofToken?]) _ _)
      (by simp only [List.length_cons]; omega)
    have hreads := ihes hlength' limit left finish hclose (by omega) (by omega)
    rw [Parse.arguments, bind_of_ok hread, current_bind_apply, TokenStream.current_cons]
    simp only [hcomma, ↓reduceIte]
    rw [advance_bind_apply, TokenStream.advance_cons (by simp [hcomma]), bind_of_ok hreads]
    rfl

end DialogueScript.Grammar

namespace DialogueScript.Parse

open Grammar

/-- The operator-precedence parser reads exactly the expressions of the grammar, as far as they go. -/
theorem expression_eq_ok {power : Precedence} {ts : List Token} {finish : Position} {e : Expression}
    {s' : TokenStream} :
    expression power ⟨ts, finish⟩ = (.ok e, s') ↔
      ∃ rest, s' = ⟨rest, finish⟩ ∧ Derives (.expression (.above power) e) ts rest ∧
        StopsAt power.rank rest := by
  constructor
  · exact expression_sound
  · rintro ⟨rest, rfl, he, hstop⟩
    have hlt := he.length_lt
    exact he.isRead.eq_ok hlt power (ts.length + 1) finish (Nat.le_refl _) hstop (by omega)

end DialogueScript.Parse
