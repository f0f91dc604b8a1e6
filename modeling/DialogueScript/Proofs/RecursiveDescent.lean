import DialogueScript.Proofs.ExpressionComplete

namespace DialogueScript.Grammar

/-- Something read off the front of fewer than `bound` tokens, and the tokens behind it. -/
structure Found (α : Type) (bound : Nat) where
  value : α
  rest : List Token
  shorter : rest.length < bound

namespace Found

variable {α β : Type} {bound bound' : Nat}

def map (f : α → β) (x : Found α bound) : Found β bound := ⟨f x.value, x.rest, x.shorter⟩

def weaken (h : bound ≤ bound') (x : Found α bound) : Found α bound' :=
  ⟨x.value, x.rest, Nat.lt_of_lt_of_le x.shorter h⟩

/-- Takes one token of the given kind from behind `x`; `f` gets that token too. -/
def closedBy (kind : TokenKind) (f : α → Token → β) (x : Found α bound) : Option (Found β bound) :=
  match x with
  | ⟨value, close :: rest, h⟩ =>
    if close.kind = kind then some ⟨f value close, rest, Nat.lt_of_succ_lt h⟩ else none
  | ⟨_, [], _⟩ => none

end Found

namespace Descent

mutual

def primary (ts : List Token) : Option (Found Expression ts.length) :=
  match ts with
  | [] => none
  | t :: ts =>
    match t.kind with
    | .number =>
      (Double.parse? t.value.toList).map fun x =>
        ⟨.literal (.number x) t.span, ts, Nat.lt_succ_self _⟩
    | .string => some ⟨.literal (.text t.value) t.span, ts, Nat.lt_succ_self _⟩
    | .trueWord => some ⟨.literal (.boolean true) t.span, ts, Nat.lt_succ_self _⟩
    | .falseWord => some ⟨.literal (.boolean false) t.span, ts, Nat.lt_succ_self _⟩
    | .atSign =>
      (Found.mk t ts (Nat.lt_succ_self _)).closedBy .identifier fun sign name =>
        .var name.value ⟨sign.span.start, name.span.stop⟩
    | .identifier =>
      match ts with
      | [] => none
      | opening :: ts =>
        if opening.kind = .openParen then
          ((call ts).bind (Found.closedBy .closeParen fun args close =>
            .call t.value args ⟨t.span.start, close.span.stop⟩)).map (Found.weaken (Nat.le_succ _))
        else none
    | .openParen =>
      ((tier .disjunction ts).bind (Found.closedBy .closeParen fun e _ => e)).map
        (Found.weaken (Nat.le_succ _))
    | _ => none
termination_by (ts.length, 0)

def call (ts : List Token) : Option (Found (List Expression) (ts.length + 1)) :=
  match ts with
  | [] => none
  | t :: ts =>
    if t.kind = .closeParen then some ⟨[], t :: ts, Nat.lt_succ_self _⟩
    else (arguments (t :: ts)).map (Found.weaken (Nat.le_succ _))
termination_by (ts.length, 9)

def arguments (ts : List Token) : Option (Found (List Expression) ts.length) :=
  match tier .disjunction ts with
  | none => none
  | some ⟨e, [], h⟩ => some ⟨[e], [], h⟩
  | some ⟨e, t :: mid, h⟩ =>
    if t.kind = .comma then
      (arguments mid).map fun es => (es.map (e :: ·)).weaken (Nat.le_of_succ_le (Nat.le_of_lt h))
    else some ⟨[e], t :: mid, h⟩
termination_by (ts.length, 8)
decreasing_by
  · exact Prod.Lex.right _ (by decide)
  · exact Prod.Lex.left _ _ (by simp at h; omega)

def tier (level : Tier) (ts : List Token) : Option (Found Expression ts.length) :=
  match level with
  | .primary => primary ts
  | .unary =>
    match ts with
    | [] => none
    | sign :: ts =>
      match signs.lookup sign.kind with
      | some operator =>
        (tier .unary ts).map fun e =>
          (e.map fun e => .unary operator e ⟨sign.span.start, e.span.stop⟩).weaken (Nat.le_succ _)
      | none => primary (sign :: ts)
  | level@.disjunction | level@.conjunction | level@.comparison | level@.sum | level@.product =>
    match tier level.next ts with
    | none => none
    | some ⟨left, mid, h⟩ => (chain level left mid).map (Found.weaken h)
termination_by (ts.length, 8 - level.rank)
decreasing_by
  all_goals simp_wf
  all_goals rw [Prod.lex_def]
  all_goals simp [*, Tier.next, Tier.rank]

/-- Goes on with the operators of one tier behind `left`, each with an operand of the next tier. -/
def chain (level : Tier) (left : Expression) (ts : List Token) :
    Option (Found Expression (ts.length + 1)) :=
  match ts with
  | [] => some ⟨left, [], Nat.lt_succ_self _⟩
  | sign :: ts =>
    match level.operator? sign.kind with
    | none => some ⟨left, sign :: ts, Nat.lt_succ_self _⟩
    | some operator =>
      match tier level.next ts with
      | none => none
      | some ⟨right, mid, h⟩ =>
        (chain level (.binary operator left right ⟨left.span.start, right.span.stop⟩) mid).map
          (Found.weaken (Nat.le_trans h (Nat.le_add_right _ 2)))
termination_by (ts.length, 9)

end

theorem closedBy_eq_some {α β : Type} {bound : Nat} {kind : TokenKind} {f : α → Token → β}
    {x : Found α bound} {value : β} {rest : List Token} {hlt : rest.length < bound}
    (h : x.closedBy kind f = some ⟨value, rest, hlt⟩) :
    ∃ close, x.rest = close :: rest ∧ close.kind = kind ∧ value = f x.value close := by
  rcases x with ⟨value, _ | ⟨close, rest⟩, hlt⟩
  · cases h
  · simp only [Found.closedBy] at h
    split at h
    · rename_i hkind
      cases h
      exact ⟨close, rfl, hkind, rfl⟩
    · cases h

theorem tier_primary (ts : List Token) : tier .primary ts = primary ts := by rw [tier]

theorem tier_unary_cons (sign : Token) (ts : List Token) :
    tier .unary (sign :: ts) =
      match signs.lookup sign.kind with
      | some operator =>
        (tier .unary ts).map fun e =>
          (e.map fun e => .unary operator e ⟨sign.span.start, e.span.stop⟩).weaken (Nat.le_succ _)
      | none => primary (sign :: ts) := by
  rw [tier]

theorem tier_binary {level : Tier} (h : level.rank ≤ 5) (ts : List Token) :
    tier level ts =
      match tier level.next ts with
      | none => none
      | some ⟨left, mid, h⟩ => (chain level left mid).map (Found.weaken h) := by
  cases level
  case unary | primary => exact absurd h (by decide)
  all_goals rw [tier]

/-- A level reads expressions of its tier, as far as they go. -/
def LevelSound (level : Tier) (ts : List Token) : Prop :=
  ∀ e rest hlt, tier level ts = some ⟨e, rest, hlt⟩ →
    Derives (.expression level e) ts rest ∧ StopsAt (level.rank - 1) rest

def SoundBelow (bound : Nat) : Prop := ∀ ts, ts.length < bound → ∀ level, LevelSound level ts

theorem arguments_sound {bound : Nat} (ih : SoundBelow bound) {ts : List Token} {es : List Expression}
    {rest : List Token} (hts : ts.length < bound) {hlt : rest.length < ts.length}
    (h : arguments ts = some ⟨es, rest, hlt⟩) :
    Derives (.arguments es) ts rest := by
  unfold arguments at h
  split at h
  · cases h
  · rename_i he
    cases h
    exact .lastArgument (ih ts hts _ _ _ _ he).1
  · rename_i e t mid hmid he
    have hread := (ih ts hts _ _ _ _ he).1
    split at h
    · rename_i hcomma
      obtain ⟨⟨_, _, _⟩, hy, hfound⟩ := Option.map_eq_some_iff.1 h
      cases hfound
      have hshorter : mid.length < ts.length := Nat.lt_of_succ_lt hmid
      exact .argument hcomma hread (arguments_sound ih (by omega) hy)
    · cases h
      exact .lastArgument hread
termination_by ts.length

variable {bound : Nat} {e : Expression} {ts rest : List Token}

theorem call_sound (ih : SoundBelow bound) {es : List Expression} (hts : ts.length < bound)
    {hlt : rest.length < ts.length + 1} (h : call ts = some ⟨es, rest, hlt⟩) :
    (es = [] ∧ rest = ts) ∨ Derives (.arguments es) ts rest := by
  unfold call at h
  cases ts with
  | nil => cases h
  | cons t ts =>
    dsimp only at h
    split at h
    -- a closing parenthesis is left to the caller
    · cases h
      exact .inl ⟨rfl, rfl⟩
    · obtain ⟨⟨_, _, _⟩, hy, hfound⟩ := Option.map_eq_some_iff.1 h
      cases hfound
      exact .inr (arguments_sound ih hts hy)

theorem primary_sound (ih : SoundBelow ts.length) {hlt : rest.length < ts.length}
    (h : primary ts = some ⟨e, rest, hlt⟩) : Derives (.expression .primary e) ts rest := by
  unfold primary at h
  cases ts with
  | nil => cases h
  | cons t ts =>
    dsimp only at h
    split at h
    case h_1 hkind =>
      obtain ⟨number, hnumber, hfound⟩ := Option.map_eq_some_iff.1 h
      cases hfound
      exact .number hkind hnumber
    case h_2 hkind =>
      cases h
      exact .text hkind
    case h_3 hkind =>
      cases h
      exact .yes hkind
    case h_4 hkind =>
      cases h
      exact .no hkind
    case h_5 hkind =>
      obtain ⟨name, rfl, hname, rfl⟩ := closedBy_eq_some h
      exact .variable hkind hname
    case h_6 hkind =>
      cases ts with
      | nil => cases h
      | cons opening ts =>
        dsimp only at h
        split at h
        · rename_i hopening
          obtain ⟨⟨_, _, _⟩, hy, hfound⟩ := Option.map_eq_some_iff.1 h
          cases hfound
          obtain ⟨⟨args, mid, hmid⟩, hargs, hy⟩ := Option.bind_eq_some_iff.1 hy
          obtain ⟨close, rfl, hclose, rfl⟩ := closedBy_eq_some hy
          rcases call_sound ih (by simp only [List.length_cons]; omega) hargs with ⟨rfl, rfl⟩ | hread
          · exact .emptyCall hkind hopening hclose
          · exact .call hkind hopening hclose hread
        · cases h
    case h_7 hkind =>
      obtain ⟨⟨_, _, _⟩, hy, hfound⟩ := Option.map_eq_some_iff.1 h
      cases hfound
      obtain ⟨⟨e, mid, hmid⟩, he, hy⟩ := Option.bind_eq_some_iff.1 hy
      obtain ⟨close, rfl, hclose, rfl⟩ := closedBy_eq_some hy
      exact .parenthesized hkind hclose (ih ts (by simp) _ _ _ _ he).1
    case h_8 => cases h

theorem unary_sound (ih : SoundBelow ts.length) {hlt : rest.length < ts.length}
    (h : tier .unary ts = some ⟨e, rest, hlt⟩) : Derives (.expression .unary e) ts rest := by
  cases ts with
  | nil => simp at hlt
  | cons sign ts =>
    rw [tier_unary_cons] at h
    split at h
    · rename_i operator hsign
      obtain ⟨⟨_, _, _⟩, hy, hfound⟩ := Option.map_eq_some_iff.1 h
      cases hfound
      exact .unary hsign (ih ts (by simp) _ _ _ _ hy).1
    · exact .operand (by decide) (primary_sound ih h)

theorem chain_sound {bound : Nat} (ih : SoundBelow bound) {level : Tier} {whole ts : List Token}
    {left e : Expression} {rest : List Token} (hts : ts.length ≤ bound)
    {hlt : rest.length < ts.length + 1}
    (hleft : Derives (.expression level left) whole ts) (hstop : StopsAt level.rank ts)
    (h : chain level left ts = some ⟨e, rest, hlt⟩) :
    Derives (.expression level e) whole rest ∧ StopsAt (level.rank - 1) rest := by
  unfold chain at h
  cases ts with
  | nil =>
    cases h
    exact ⟨hleft, by simp [StopsAt]⟩
  | cons sign ts =>
    dsimp only at h
    split at h
    · rename_i hnone
      cases h
      -- an operator of this tier would have been taken, and none binds tighter
      refine ⟨hleft, ?_⟩
      intro t ht operator hoperator
      obtain rfl : sign = t := by simpa using ht
      have hle := hstop sign rfl operator hoperator
      have hne : operator.precedence.rank ≠ level.rank := by
        intro heq
        simp [Tier.operator?_eq_some.2 ⟨hoperator, heq⟩] at hnone
      omega
    · rename_i operator hsign
      split at h
      · cases h
      · rename_i right mid hmid hright
        obtain ⟨⟨_, _, _⟩, hy, hfound⟩ := Option.map_eq_some_iff.1 h
        cases hfound
        have hshorter : mid.length < (sign :: ts).length := Nat.lt_succ_of_lt hmid
        simp only [List.length_cons] at hts
        have hread := ih ts (by omega) _ _ _ _ hright
        have hnext : level.next.rank = level.rank + 1 := Tier.rank_next (by
          rintro rfl
          cases hsign)
        exact chain_sound ih (by omega) (.binary hsign hleft hread.1) (hread.2.mono (by omega)) hy
termination_by ts.length

theorem binary_sound {level : Tier} (hlevel : level.rank ≤ 5) (ih : SoundBelow ts.length)
    (hnext : LevelSound level.next ts) : LevelSound level ts := by
  have hne : level ≠ .primary := by
    rintro rfl
    exact absurd hlevel (by decide)
  have hrank := Tier.rank_next hne
  intro e rest hlt h
  rw [tier_binary hlevel] at h
  split at h
  · cases h
  · rename_i left mid hmid hleft
    obtain ⟨⟨_, _, _⟩, hy, hfound⟩ := Option.map_eq_some_iff.1 h
    cases hfound
    have hread := hnext _ _ _ hleft
    exact chain_sound ih (by omega) (.operand hne hread.1) (hread.2.mono (by omega)) hy

theorem soundBelow (bound : Nat) : SoundBelow bound := by
  induction bound with
  | zero => exact fun _ hts => absurd hts (Nat.not_lt_zero _)
  | succ bound ih =>
    intro ts hts
    -- the tiers are sound one after another, the tightest first
    have ih : SoundBelow ts.length := fun ts' hshort => ih ts' (by omega)
    have hprimary : LevelSound .primary ts := fun _ rest _ h =>
      ⟨primary_sound ih (tier_primary ts ▸ h), (stopsAt_five rest).mono (by decide)⟩
    have hunary : LevelSound .unary ts := fun _ rest _ h => ⟨unary_sound ih h, stopsAt_five rest⟩
    have hproduct : LevelSound .product ts := binary_sound (by decide) ih hunary
    have hsum : LevelSound .sum ts := binary_sound (by decide) ih hproduct
    have hcomparison : LevelSound .comparison ts := binary_sound (by decide) ih hsum
    have hconjunction : LevelSound .conjunction ts := binary_sound (by decide) ih hcomparison
    have hdisjunction : LevelSound .disjunction ts := binary_sound (by decide) ih hconjunction
    intro level
    cases level <;> assumption

/-- What a phrase is to the levels. Behind an expression its level goes on with the loop. -/
def IsFound : Phrase → List Token → List Token → Prop
  | .expression level e, ts, rest => StopsAt level.rank rest →
    ∀ e' rest' hlt, chain level e rest = some ⟨e', rest', hlt⟩ →
      ∃ hlt, tier level ts = some ⟨e', rest', hlt⟩
  | .arguments es, ts, rest => (∃ close tail, rest = close :: tail ∧ close.kind = .closeParen) →
    ∃ hlt, Descent.arguments ts = some ⟨es, rest, hlt⟩

theorem chain_stop {level : Tier} {left : Expression}
    (hstop : ∀ t ∈ ts.head?, level.operator? t.kind = none) :
    chain level left ts = some ⟨left, ts, Nat.lt_succ_self _⟩ := by
  unfold chain
  cases ts with
  | nil => rfl
  | cons t ts => simp only [hstop t rfl]

theorem operator?_of_stopsAt {level : Tier} (h : StopsAt (level.rank - 1) ts) :
    ∀ t ∈ ts.head?, level.operator? t.kind = none := by
  intro t ht
  cases hoperator : level.operator? t.kind with
  | none => rfl
  | some operator =>
    obtain ⟨hkind, hrank⟩ := Tier.operator?_eq_some.1 hoperator
    have hle := h t ht operator hkind
    have hpos : 0 < level.rank := by cases level <;> decide
    omega

theorem IsFound.eq_some {level : Tier} (h : IsFound (.expression level e) ts rest)
    (hstop : StopsAt (level.rank - 1) rest) : ∃ hlt, tier level ts = some ⟨e, rest, hlt⟩ :=
  h (hstop.mono (Nat.sub_le _ _)) _ _ _ (chain_stop (operator?_of_stopsAt hstop))

theorem isFound_of_eq_some {level : Tier} (hlevel : level.operators = [])
    (h : ∃ hlt, tier level ts = some ⟨e, rest, hlt⟩) : IsFound (.expression level e) ts rest := by
  intro _ e' rest' hlt' hchain
  rw [chain_stop (fun t _ => by simp [Tier.operator?, hlevel])] at hchain
  cases hchain
  exact h

theorem closedBy_cons {α β : Type} {kind : TokenKind} {f : α → Token → β} {value : α}
    {close : Token} (hkind : close.kind = kind) (hlt : (close :: rest).length < bound) :
    (Found.mk value (close :: rest) hlt).closedBy kind f =
      some ⟨f value close, rest, Nat.lt_of_succ_lt hlt⟩ := by
  simp [Found.closedBy, hkind]

theorem primary_found (h : ∃ hlt, primary ts = some ⟨e, rest, hlt⟩) :
    IsFound (.expression .primary e) ts rest := by
  obtain ⟨hlt, h⟩ := h
  exact isFound_of_eq_some rfl ⟨hlt, (tier_primary ts).trans h⟩

theorem primary_call {name opening close : Token} {args : List Expression}
    (hname : name.kind = .identifier) (hopening : opening.kind = .openParen)
    (hclose : close.kind = .closeParen)
    (h : ∃ hlt, call ts = some ⟨args, close :: rest, hlt⟩) :
    ∃ hlt, primary (name :: opening :: ts) =
      some ⟨.call name.value args ⟨name.span.start, close.span.stop⟩, rest, hlt⟩ := by
  obtain ⟨hlt, h⟩ := h
  simp only [List.length_cons] at hlt
  refine ⟨by simp only [List.length_cons]; omega, ?_⟩
  unfold primary
  simp only [hname, hopening, ↓reduceIte, h, Option.bind_some, closedBy_cons hclose, Option.map_some]
  rfl

theorem signs_lookup_of_primary (h : Derives (.expression .primary e) ts rest) :
    ∃ t tail, ts = t :: tail ∧ signs.lookup t.kind = none := by
  cases h with
  | number hkind | text hkind | yes hkind | no hkind => exact ⟨_, _, rfl, by rw [hkind]; rfl⟩
  | «variable» hkind | emptyCall hkind | call hkind | parenthesized hkind =>
    exact ⟨_, _, rfl, by rw [hkind]; rfl⟩
  | binary hsign => cases hsign
  | operand hne => exact absurd rfl hne

theorem isFound {phrase : Phrase} (h : Derives phrase ts rest) : IsFound phrase ts rest := by
  induction h with
  | number hkind hx =>
    refine primary_found ⟨Nat.lt_succ_self _, ?_⟩
    unfold primary
    simp only [hkind, hx, Option.map_some]
  | text hkind | yes hkind | no hkind =>
    refine primary_found ⟨Nat.lt_succ_self _, ?_⟩
    unfold primary
    simp only [hkind]
  | «variable» hsign hname =>
    refine primary_found ⟨by simp only [List.length_cons]; omega, ?_⟩
    unfold primary
    simp only [hsign, closedBy_cons hname]
  | emptyCall hname hopening hclose =>
    refine primary_found (primary_call hname hopening hclose ⟨Nat.lt_succ_self _, ?_⟩)
    unfold call
    simp only [hclose, ↓reduceIte]
  | call hname hopening hclose hargs ih =>
    obtain ⟨hlt, hread⟩ := ih ⟨_, _, rfl, hclose⟩
    obtain ⟨first, tail, rfl, hfirst⟩ := hargs.starts
    have hne : first.kind ≠ .closeParen := by
      intro hkind
      simp [hkind, Parse.startsExpression] at hfirst
    refine primary_found (primary_call hname hopening hclose ⟨Nat.lt_succ_of_lt hlt, ?_⟩)
    unfold call
    simp only [hne, ↓reduceIte, hread, Option.map_some]
    rfl
  | parenthesized hopening hclose he ih =>
    obtain ⟨hlt, hread⟩ := IsFound.eq_some ih
      (stopsAt_cons (by simp [hclose, BinaryOperator.ofToken?]) _ _)
    refine primary_found ⟨by simp only [List.length_cons] at hlt ⊢; omega, ?_⟩
    unfold primary
    simp only [hopening, hread, Option.bind_some, closedBy_cons hclose, Option.map_some]
    rfl
  | unary hsign he ih =>
    obtain ⟨hlt, hread⟩ := IsFound.eq_some ih (stopsAt_five _)
    refine isFound_of_eq_some rfl ⟨Nat.lt_succ_of_lt hlt, ?_⟩
    rw [tier_unary_cons]
    simp only [hsign, hread, Option.map_some]
    rfl
  | @binary level sign operator left right ts mid rest hsign hleft hright ihl ihr =>
    obtain ⟨hoperator, hrank⟩ := Tier.operator?_eq_some.1 hsign
    have hnext : level.next.rank = level.rank + 1 := Tier.rank_next (by
      rintro rfl
      cases hsign)
    intro hstop e' rest' hlt' hchain
    -- the right operand is read whole, and then the loop of the left one goes on as it did behind it
    obtain ⟨hlt, hread⟩ := IsFound.eq_some ihr (by simpa [hnext] using hstop)
    have hstop' : StopsAt level.rank (sign :: mid) := by
      intro t ht o ho
      obtain rfl : sign = t := by simpa using ht
      obtain rfl : operator = o := by simpa [hoperator] using ho
      omega
    refine ihl hstop' e' rest' (by simp only [List.length_cons]; omega) ?_
    unfold chain
    simp only [hsign, hread, hchain, Option.map_some]
    rfl
  | @operand level e ts rest hne he ih =>
    have hnext := Tier.rank_next hne
    by_cases hunary : level = .unary
    · subst hunary
      -- a primary is read as a unary expression because it begins with no sign
      obtain ⟨t, tail, rfl, hsign⟩ := signs_lookup_of_primary he
      obtain ⟨hlt, hread⟩ := IsFound.eq_some ih ((stopsAt_five rest).mono (by decide))
      refine isFound_of_eq_some rfl ⟨hlt, ?_⟩
      rw [tier_unary_cons]
      simp only [hsign]
      exact (tier_primary _).symm.trans hread
    · have hbinary : level.rank ≤ 5 := by
        cases level <;> first | decide | exact absurd rfl hne | exact absurd rfl hunary
      intro hstop e' rest' hlt' hchain
      obtain ⟨hlt, hread⟩ := IsFound.eq_some ih (by simpa [hnext] using hstop)
      refine ⟨by omega, ?_⟩
      rw [tier_binary hbinary]
      simp only [hread, hchain, Option.map_some]
      rfl
  | @lastArgument e ts rest he ih =>
    rintro ⟨close, tail, rfl, hclose⟩
    obtain ⟨hlt, hread⟩ := IsFound.eq_some ih
      (stopsAt_cons (by simp [hclose, BinaryOperator.ofToken?]) _ _)
    refine ⟨hlt, ?_⟩
    unfold arguments
    simp only [hread, hclose, reduceCtorEq, ↓reduceIte]
  | @argument e es comma ts mid rest hcomma he hes ihe ihes =>
    intro hclose
    obtain ⟨hlt, hread⟩ := IsFound.eq_some ihe
      (stopsAt_cons (by simp [hcomma, BinaryOperator.ofToken?]) _ _)
    obtain ⟨hlt', hreads⟩ := ihes hclose
    refine ⟨(Derives.argument hcomma he hes).length_lt, ?_⟩
    unfold arguments
    simp only [hread, hcomma, ↓reduceIte, hreads, Option.map_some]
    rfl

end Descent

/-- Reads an expression of the given tier off the front of `ts`; gives the expression and the tokens
behind it. -/
def descend (level : Tier) (ts : List Token) : Option (Expression × List Token) :=
  (Descent.tier level ts).map fun x => (x.value, x.rest)

theorem descend_eq_some {level : Tier} {ts rest : List Token} {e : Expression} :
    descend level ts = some (e, rest) ↔
      Derives (.expression level e) ts rest ∧ StopsAt (level.rank - 1) rest := by
  unfold descend
  constructor
  · intro h
    obtain ⟨⟨_, _, hlt⟩, hread, hfound⟩ := Option.map_eq_some_iff.1 h
    cases hfound
    exact Descent.soundBelow (ts.length + 1) ts (Nat.lt_succ_self _) level _ _ _ hread
  · rintro ⟨he, hstop⟩
    obtain ⟨hlt, hread⟩ := (Descent.isFound he).eq_some hstop
    rw [hread, Option.map_some]

/-- Reading by precedences and reading level by level succeed on the same tokens, give the same
expression and leave the same tokens. A sign is read at every power, that of the signs included. -/
theorem expression_eq_ok_iff_descend (power : Precedence) (s : TokenStream) (e : Expression)
    (s' : TokenStream) :
    Parse.expression power s = (.ok e, s') ↔
      descend (.above power) s.tokens = some (e, s'.tokens) ∧ s'.finish = s.finish := by
  obtain ⟨ts, finish⟩ := s
  obtain ⟨rest, finish'⟩ := s'
  have hstop : StopsAt ((Tier.above power).rank - 1) rest ↔ StopsAt power.rank rest := by
    cases power <;> first
      | exact Iff.rfl
      | exact iff_of_true (stopsAt_five rest) ((stopsAt_five rest).mono (by decide))
  rw [Parse.expression_eq_ok, descend_eq_some, hstop]
  constructor
  · rintro ⟨_, ⟨⟩, he⟩
    exact ⟨he, rfl⟩
  · rintro ⟨he, rfl⟩
    exact ⟨rest, rfl, he⟩

end DialogueScript.Grammar
