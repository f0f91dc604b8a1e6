import DialogueScript.Proofs.Grammar
import DialogueScript.Proofs.ParseOutcome

namespace DialogueScript.Grammar

namespace Tier

def rank : Tier → Nat
  | disjunction => 1
  | conjunction => 2
  | comparison => 3
  | sum => 4
  | product => 5
  | unary => 6
  | primary => 7

/-- The loosest tier whose binary operators bind tighter than `power`. Signs bind tighter than all of
them, so they are allowed at every power. -/
def above : Precedence → Tier
  | .lowest => disjunction
  | .logicalOr => conjunction
  | .logicalAnd => comparison
  | .relational => sum
  | .additive => product
  | .multiplicative | .unary => unary

theorem operator?_eq_filter (tier : Tier) (kind : TokenKind) :
    tier.operator? kind =
      (BinaryOperator.ofToken? kind).filter fun operator => operator.precedence.rank = tier.rank := by
  cases tier <;> cases kind <;> rfl

theorem operator?_eq_some {tier : Tier} {kind : TokenKind} {operator : BinaryOperator} :
    tier.operator? kind = some operator ↔
      BinaryOperator.ofToken? kind = some operator ∧ operator.precedence.rank = tier.rank := by
  simp [operator?_eq_filter, Option.filter_eq_some_iff]

theorem rank_above_le (power : Precedence) : (above power).rank ≤ power.rank + 1 := by
  cases power <;> decide

theorem lt_of_above_le {power : Precedence} {rank : Nat} (h : (above power).rank ≤ rank)
    (hbinary : rank ≤ 5) : power.rank < rank := by
  cases power <;> simp only [above, Tier.rank, Precedence.rank] at h ⊢ <;> omega

theorem rank_next {tier : Tier} (h : tier ≠ primary) : tier.next.rank = tier.rank + 1 := by
  cases tier <;> simp_all [next, rank]

theorem rank_pos (tier : Tier) : 0 < tier.rank := by cases tier <;> decide

theorem rank_le_seven (tier : Tier) : tier.rank ≤ 7 := by cases tier <;> decide

theorem eq_of_rank_eq {a b : Tier} (h : a.rank = b.rank) : a = b := by
  cases a <;> cases b <;> first | rfl | cases h

theorem exists_rank_eq (operator : BinaryOperator) :
    ∃ tier : Tier, tier.rank = operator.precedence.rank ∧ tier.next = above operator.precedence := by
  cases operator
  case or => exact ⟨disjunction, rfl, rfl⟩
  case and => exact ⟨conjunction, rfl, rfl⟩
  case equals | notEquals | less | lessEquals | greater | greaterEquals =>
    exact ⟨comparison, rfl, rfl⟩
  case add | subtract => exact ⟨sum, rfl, rfl⟩
  case multiply | divide => exact ⟨product, rfl, rfl⟩

end Tier

theorem operator_ne_endOfFile {kind : TokenKind} {operator : BinaryOperator}
    (h : BinaryOperator.ofToken? kind = some operator) : kind ≠ .endOfFile := by
  rintro rfl
  cases h

theorem operator_rank_le_five (operator : BinaryOperator) : operator.precedence.rank ≤ 5 := by
  cases operator <;> decide

theorem signs_lookup (kind : TokenKind) : signs.lookup kind = UnaryOperator.ofToken? kind := by
  cases kind <;> rfl

theorem assignments_lookup (kind : TokenKind) :
    assignments.lookup kind = AssignOperator.ofToken? kind := by
  cases kind <;> rfl

/-- No binary operator that binds tighter than `rank` comes first. -/
def StopsAt (rank : Nat) (ts : List Token) : Prop :=
  ∀ t ∈ ts.head?, ∀ operator ∈ BinaryOperator.ofToken? t.kind, operator.precedence.rank ≤ rank

theorem StopsAt.mono {low high : Nat} {ts : List Token} (h : StopsAt low ts) (hle : low ≤ high) :
    StopsAt high ts := fun t ht operator hoperator => Nat.le_trans (h t ht operator hoperator) hle

theorem stopsAt_five (ts : List Token) : StopsAt 5 ts :=
  fun _ _ operator _ => operator_rank_le_five operator

theorem stopsAt_cons {t : Token} (h : BinaryOperator.ofToken? t.kind = none) (rank : Nat)
    (ts : List Token) : StopsAt rank (t :: ts) := by
  intro u hu operator hoperator
  obtain rfl : t = u := by simpa using hu
  simp [h] at hoperator

namespace Derives

/-- An expression of a tier is one of every looser tier. -/
theorem loosen {high low : Tier} {e : Expression} {ts rest : List Token}
    (h : Derives (.expression high e) ts rest) (hle : low.rank ≤ high.rank) :
    Derives (.expression low e) ts rest := by
  by_cases heq : low = high
  · exact heq ▸ h
  · have hlt : low.rank < high.rank := Nat.lt_of_le_of_ne hle fun hr => heq (Tier.eq_of_rank_eq hr)
    have hne : low ≠ .primary := by
      rintro rfl
      exact absurd (high.rank_le_seven) (by simpa [Tier.rank] using hlt)
    have hnext := Tier.rank_next hne
    exact .operand hne (loosen h (by omega))
termination_by 7 - low.rank
decreasing_by
  have := high.rank_le_seven
  omega

theorem length_lt {phrase : Phrase} {ts rest : List Token} (h : Derives phrase ts rest) :
    rest.length < ts.length := by
  induction h with
  | number | text | yes | no | «variable» | emptyCall => simp only [List.length_cons]; omega
  | call | parenthesized | unary | binary | argument => simp only [List.length_cons] at *; omega
  | operand _ _ ih | lastArgument _ ih => exact ih

end Derives

end DialogueScript.Grammar

namespace DialogueScript.Parse

open Grammar TokenStream

/-- On streams of at most `bound` tokens, `inner` reads expressions of the tiers above the precedence
that it is given, and reads them as far as they go. -/
def Inner.Sound (inner : Inner) (bound : Nat) : Prop :=
  ∀ power ts finish e s', ts.length ≤ bound → inner power ⟨ts, finish⟩ = (.ok e, s') →
    ∃ rest, s' = ⟨rest, finish⟩ ∧ Derives (.expression (.above power) e) ts rest ∧
      StopsAt power.rank rest

variable {inner : Inner} {bound limit : Nat} {ts : List Token} {finish : Position} {e : Expression}
  {s' : TokenStream}

theorem takes_current {t : Token} {value : Literal} (ht : t.kind ≠ .endOfFile)
    (h : (pure value >>= fun value => advance >>= fun _ => pure (.literal value t.span))
      ⟨t :: ts, finish⟩ = (.ok e, s')) :
    e = .literal value t.span ∧ s' = ⟨ts, finish⟩ := by
  rw [pure_bind_apply, advance_bind_apply, advance_cons ht] at h
  obtain ⟨rfl, rfl⟩ := pure_eq_ok.1 h
  exact ⟨rfl, rfl⟩

theorem literal_sound (h : literal ⟨ts, finish⟩ = (.ok e, s')) :
    ∃ rest, s' = ⟨rest, finish⟩ ∧ Derives (.expression .primary e) ts rest := by
  cases ts with
  | nil => exact absurd h unexpected_ne_ok
  | cons t rest =>
    unfold literal at h
    rw [current_bind_apply, current_cons] at h
    obtain ⟨p, hp, h⟩ := exists_applied h
    split at hp <;> subst hp
    case h_1 hkind =>
      obtain ⟨p, hp, h⟩ := exists_applied h
      split at hp <;> subst hp
      · rename_i x hx
        obtain ⟨rfl, rfl⟩ := takes_current (by simp [hkind]) h
        exact ⟨rest, rfl, .number hkind hx⟩
      · obtain ⟨_, _, hfail, -⟩ := bind_eq_ok.1 h
        exact absurd hfail fail_ne_ok
    case h_2 hkind =>
      obtain ⟨rfl, rfl⟩ := takes_current (by simp [hkind]) h
      exact ⟨rest, rfl, .text hkind⟩
    case h_3 hkind =>
      obtain ⟨rfl, rfl⟩ := takes_current (by simp [hkind]) h
      exact ⟨rest, rfl, .yes hkind⟩
    case h_4 hkind =>
      obtain ⟨rfl, rfl⟩ := takes_current (by simp [hkind]) h
      exact ⟨rest, rfl, .no hkind⟩
    case h_5 =>
      obtain ⟨_, _, hfail, -⟩ := bind_eq_ok.1 h
      exact absurd hfail unexpected_ne_ok

theorem variableUse_sound {sign : Token} (hsign : sign.kind = .atSign)
    (h : variableUse ⟨sign :: ts, finish⟩ = (.ok e, s')) :
    ∃ rest, s' = ⟨rest, finish⟩ ∧ Derives (.expression .primary e) (sign :: ts) rest := by
  unfold variableUse at h
  rw [advance_bind_apply, advance_cons (by simp [hsign]), current_cons] at h
  obtain ⟨name, _, hname, h⟩ := bind_eq_ok.1 h
  obtain ⟨rest, rfl, hkind, rfl⟩ := expectName_eq_ok.1 hname
  obtain ⟨rfl, rfl⟩ := pure_eq_ok.1 h
  exact ⟨rest, rfl, .variable hsign hkind⟩

theorem arguments_sound (hinner : inner.Sound bound) {args : List Expression}
    (hbound : ts.length ≤ bound) (h : arguments inner limit ⟨ts, finish⟩ = (.ok args, s')) :
    ∃ rest, s' = ⟨rest, finish⟩ ∧ Derives (.arguments args) ts rest := by
  induction limit generalizing ts args s' with
  | zero => exact absurd h unexpected_ne_ok
  | succ limit ih =>
    unfold arguments at h
    obtain ⟨e, _, hread, h⟩ := bind_eq_ok.1 h
    -- an argument ends where the expression does; what follows it is not asked for here
    obtain ⟨mid, rfl, he, -⟩ := hinner _ _ _ _ _ hbound hread
    rw [current_bind_apply] at h
    split at h
    · rename_i hkind
      obtain ⟨comma, mid, rfl, hcomma⟩ := eq_cons_of_kind hkind (by decide)
      rw [advance_bind_apply, advance_cons (by simp [hcomma])] at h
      obtain ⟨es, _, hread, h⟩ := bind_eq_ok.1 h
      have hlength := he.length_lt
      simp only [List.length_cons] at hlength
      obtain ⟨rest, rfl, hes⟩ := ih (by omega) hread
      obtain ⟨rfl, rfl⟩ := pure_eq_ok.1 h
      exact ⟨rest, rfl, .argument hcomma he hes⟩
    · obtain ⟨rfl, rfl⟩ := pure_eq_ok.1 h
      exact ⟨mid, rfl, .lastArgument he⟩

theorem functionCall_sound (hinner : inner.Sound bound) {name : Token} (hbound : ts.length ≤ bound)
    (hname : name.kind = .identifier)
    (h : functionCall inner limit ⟨name :: ts, finish⟩ = (.ok e, s')) :
    ∃ rest, s' = ⟨rest, finish⟩ ∧ Derives (.expression .primary e) (name :: ts) rest := by
  unfold functionCall at h
  rw [current_bind_apply, current_cons, following_bind_apply] at h
  split at h
  · rename_i hkind
    change kind ⟨ts, finish⟩ = .openParen at hkind
    obtain ⟨opening, ts, rfl, hopening⟩ := eq_cons_of_kind hkind (by decide)
    rw [advance_bind_apply, advance_cons (by simp [hname]), advance_bind_apply,
      advance_cons (by simp [hopening]), current_bind_apply] at h
    simp only [List.length_cons] at hbound
    split at h
    · rw [pure_bind_apply] at h
      obtain ⟨close, _, hexpect, h⟩ := bind_eq_ok.1 h
      obtain ⟨rest, rfl, hclose, rfl⟩ := (expect_eq_ok (by decide)).1 hexpect
      obtain ⟨rfl, rfl⟩ := pure_eq_ok.1 h
      exact ⟨rest, rfl, .emptyCall hname hopening hclose⟩
    · obtain ⟨args, _, hread, h⟩ := bind_eq_ok.1 h
      obtain ⟨mid, rfl, hargs⟩ := arguments_sound hinner (by omega) hread
      obtain ⟨close, _, hexpect, h⟩ := bind_eq_ok.1 h
      obtain ⟨rest, rfl, hclose, rfl⟩ := (expect_eq_ok (by decide)).1 hexpect
      obtain ⟨rfl, rfl⟩ := pure_eq_ok.1 h
      exact ⟨rest, rfl, .call hname hopening hclose hargs⟩
  · exact absurd h unexpected_ne_ok

theorem unaryOperation_sound (hinner : inner.Sound bound) {sign : Token} (hbound : ts.length ≤ bound)
    (hsign : sign.kind ≠ .endOfFile)
    (h : unaryOperation inner ⟨sign :: ts, finish⟩ = (.ok e, s')) :
    ∃ rest, s' = ⟨rest, finish⟩ ∧ Derives (.expression .unary e) (sign :: ts) rest := by
  unfold unaryOperation at h
  rw [current_bind_apply, current_cons] at h
  obtain ⟨p, hp, h⟩ := exists_applied h
  split at hp <;> subst hp
  · exact absurd h unexpected_ne_ok
  · rename_i operator hoperator
    rw [advance_bind_apply, advance_cons hsign, current_cons] at h
    obtain ⟨e, _, hread, h⟩ := bind_eq_ok.1 h
    obtain ⟨rest, rfl, he, -⟩ := hinner _ _ _ _ _ hbound hread
    obtain ⟨rfl, rfl⟩ := pure_eq_ok.1 h
    exact ⟨rest, rfl, .unary ((signs_lookup _).trans hoperator) he⟩

theorem parenthesized_sound (hinner : inner.Sound bound) {opening : Token}
    (hbound : ts.length ≤ bound) (hopening : opening.kind = .openParen)
    (h : parenthesized inner ⟨opening :: ts, finish⟩ = (.ok e, s')) :
    ∃ rest, s' = ⟨rest, finish⟩ ∧ Derives (.expression .primary e) (opening :: ts) rest := by
  unfold parenthesized at h
  rw [advance_bind_apply, advance_cons (by simp [hopening])] at h
  obtain ⟨e, _, hread, h⟩ := bind_eq_ok.1 h
  obtain ⟨mid, rfl, he, -⟩ := hinner _ _ _ _ _ hbound hread
  obtain ⟨close, _, hexpect, h⟩ := bind_eq_ok.1 h
  obtain ⟨rest, rfl, hclose, rfl⟩ := (expect_eq_ok (by decide)).1 hexpect
  obtain ⟨rfl, rfl⟩ := pure_eq_ok.1 h
  exact ⟨rest, rfl, .parenthesized hopening hclose he⟩

theorem operand_sound (hinner : inner.Sound bound) (hbound : ts.length ≤ bound + 1)
    (h : operand inner limit ⟨ts, finish⟩ = (.ok e, s')) :
    ∃ rest, s' = ⟨rest, finish⟩ ∧ Derives (.expression .unary e) ts rest := by
  cases ts with
  | nil => exact absurd h unexpected_ne_ok
  | cons t ts =>
    simp only [List.length_cons] at hbound
    unfold operand at h
    rw [current_bind_apply, current_cons] at h
    have ofPrimary : (∃ rest, s' = ⟨rest, finish⟩ ∧ Derives (.expression .primary e) (t :: ts) rest) →
        ∃ rest, s' = ⟨rest, finish⟩ ∧ Derives (.expression .unary e) (t :: ts) rest := by
      rintro ⟨rest, hs, he⟩
      exact ⟨rest, hs, he.loosen (by decide)⟩
    obtain ⟨p, hp, h⟩ := exists_applied h
    split at hp <;> subst hp
    case h_1 | h_2 | h_3 | h_4 => exact ofPrimary (literal_sound h)
    case h_5 hkind => exact ofPrimary (variableUse_sound hkind h)
    case h_6 hkind => exact ofPrimary (functionCall_sound hinner (by omega) hkind h)
    case h_7 hkind | h_8 hkind => exact unaryOperation_sound hinner (by omega) (by simp [hkind]) h
    case h_9 hkind => exact ofPrimary (parenthesized_sound hinner (by omega) hkind h)
    case h_10 => exact absurd h unexpected_ne_ok

theorem binaryOperation_sound (hinner : inner.Sound bound) {left : Expression} {tier : Tier} {t : Token}
    {mid : List Token} {operator : BinaryOperator} (hbound : mid.length ≤ bound)
    (hoperator : BinaryOperator.ofToken? t.kind = some operator)
    (hleft : Derives (.expression tier left) ts (t :: mid))
    (htier : operator.precedence.rank ≤ tier.rank)
    (h : binaryOperation inner left operator.precedence ⟨t :: mid, finish⟩ = (.ok e, s')) :
    ∃ (tier : Tier) (rest : List Token), s' = ⟨rest, finish⟩ ∧ tier.rank = operator.precedence.rank ∧
      Derives (.expression tier e) ts rest ∧ StopsAt tier.rank rest ∧ rest.length < mid.length := by
  have hkind : t.kind ≠ .endOfFile := operator_ne_endOfFile hoperator
  unfold binaryOperation at h
  rw [current_bind_apply, current_cons] at h
  simp only [hoperator] at h
  rw [advance_bind_apply, advance_cons hkind] at h
  obtain ⟨right, _, hread, h⟩ := bind_eq_ok.1 h
  obtain ⟨rest, rfl, hright, hstop⟩ := hinner _ _ _ _ _ hbound hread
  obtain ⟨rfl, rfl⟩ := pure_eq_ok.1 h
  obtain ⟨tier', hrank, hnext⟩ := Tier.exists_rank_eq operator
  -- the right operand is read at the power of the operator, so it lies in the next tier
  refine ⟨tier', rest, rfl, hrank, ?_, hrank ▸ hstop, hright.length_lt⟩
  have hsign : tier'.operator? t.kind = some operator :=
    Tier.operator?_eq_some.2 ⟨hoperator, hrank.symm⟩
  exact .binary hsign (hleft.loosen (by omega)) (hnext ▸ hright)

/-- The loop. The operators in `left` bind at least as tightly as `tier`, and what follows does not
bind tighter than that. -/
theorem extend_sound (hinner : inner.Sound bound) {power : Precedence} {left : Expression} {tier : Tier}
    {mid : List Token} (hmid : mid.length ≤ limit) (hbound : mid.length ≤ bound)
    (hleft : Derives (.expression tier left) ts mid) (htier : (Tier.above power).rank ≤ tier.rank)
    (hstop : StopsAt tier.rank mid)
    (h : extend inner limit power left ⟨mid, finish⟩ = (.ok e, s')) :
    ∃ rest, s' = ⟨rest, finish⟩ ∧ Derives (.expression (.above power) e) ts rest ∧
      StopsAt power.rank rest := by
  induction limit generalizing left tier mid with
  | zero =>
    -- no rounds are left, but no tokens either
    obtain rfl : mid = [] := List.eq_nil_of_length_eq_zero (by omega)
    obtain ⟨rfl, rfl⟩ := pure_eq_ok.1 h
    exact ⟨[], rfl, hleft.loosen htier, by simp [StopsAt]⟩
  | succ limit ih =>
    unfold extend at h
    rw [current_bind_apply] at h
    cases mid with
    | nil =>
      obtain ⟨rfl, rfl⟩ := pure_eq_ok.1 h
      exact ⟨[], rfl, hleft.loosen htier, by simp [StopsAt]⟩
    | cons t mid =>
      rw [current_cons] at h
      obtain ⟨p, hp, h⟩ := exists_applied h
      split at hp <;> subst hp
      · rename_i hnone
        obtain ⟨rfl, rfl⟩ := pure_eq_ok.1 h
        exact ⟨_, rfl, hleft.loosen htier, stopsAt_cons hnone _ _⟩
      · rename_i operator hoperator
        split at h
        · rename_i hpower
          -- another round: the expression so far becomes the left operand
          have htight : operator.precedence.rank ≤ tier.rank := hstop t rfl operator hoperator
          simp only [List.length_cons] at hmid hbound
          obtain ⟨e', _, hread, h⟩ := bind_eq_ok.1 h
          obtain ⟨tier', mid', rfl, hrank, he', hstop', hshorter⟩ :=
            binaryOperation_sound hinner (by omega) hoperator hleft htight hread
          have habove := Tier.rank_above_le power
          exact ih (by omega) (by omega) he' (by omega) hstop' h
        · rename_i hpower
          obtain ⟨rfl, rfl⟩ := pure_eq_ok.1 h
          -- the operator does not bind tighter than `power`, which is what has to be shown of it
          refine ⟨_, rfl, hleft.loosen htier, ?_⟩
          intro u hu operator' hoperator'
          obtain rfl : t = u := by simpa using hu
          obtain rfl : operator = operator' := by simpa [hoperator] using hoperator'
          omega

theorem expressionWithin_sound (limit : Nat) : Inner.Sound (expressionWithin (limit + 1)) limit := by
  induction limit with
  | zero =>
    intro power ts finish e s' hbound h
    obtain rfl : ts = [] := List.eq_nil_of_length_eq_zero (by omega)
    obtain ⟨left, mid, hread, -⟩ := bind_eq_ok.1 h
    exact absurd hread unexpected_ne_ok
  | succ limit ih =>
    intro power ts finish e s' hbound h
    obtain ⟨left, _, hread, h⟩ := bind_eq_ok.1 h
    obtain ⟨mid, rfl, hleft⟩ := operand_sound ih hbound hread
    have hlength := hleft.length_lt
    -- an operand is a unary expression, and behind it any operator may stand
    have habove : (Tier.above power).rank ≤ Tier.unary.rank := by cases power <;> decide
    exact extend_sound ih (by omega) (by omega) hleft habove
      ((stopsAt_five mid).mono (by decide)) h

/-- An expression that is read is one of the grammar, as long as its operators bind tighter than
`power`. -/
theorem expression_sound {power : Precedence} (h : expression power ⟨ts, finish⟩ = (.ok e, s')) :
    ∃ rest, s' = ⟨rest, finish⟩ ∧ Derives (.expression (.above power) e) ts rest ∧
      StopsAt power.rank rest :=
  expressionWithin_sound ts.length power ts finish e s' (Nat.le_refl _) h

end DialogueScript.Parse
