import DialogueScript.Proofs.Scanning
import DialogueScript.Proofs.TreeLexemes
import DialogueScript.Unplaced

namespace DialogueScript

open Grammar Scanner Lexeme

namespace Expression

/-- What can be written such that it reads back. -/
structure Writable (e : Expression) : Prop where
  lexical : ∀ p ∈ e.parts, p.Lexical
  finite : ∀ x ∈ e.numbers, x.isFinite = true

variable {operator : BinaryOperator} {sign : UnaryOperator} {a b e : Expression} {name : String}
  {args : List Expression} {span : Span}

theorem Writable.root (h : e.Writable) : e.Lexical := by
  apply h.lexical
  cases e <;> exact List.mem_cons_self

theorem Writable.left (h : (binary operator a b span).Writable) : a.Writable := by
  constructor
  · exact fun p hp => h.lexical p (List.mem_cons_of_mem _ (List.mem_append_left _ hp))
  · exact fun x hx => h.finite x (by rw [numbers_binary]; exact List.mem_append_left _ hx)

theorem Writable.right (h : (binary operator a b span).Writable) : b.Writable := by
  constructor
  · exact fun p hp => h.lexical p (List.mem_cons_of_mem _ (List.mem_append_right _ hp))
  · exact fun x hx => h.finite x (by rw [numbers_binary]; exact List.mem_append_right _ hx)

theorem Writable.operand (h : (unary sign e span).Writable) : e.Writable := by
  constructor
  · exact fun p hp => h.lexical p (List.mem_cons_of_mem _ hp)
  · exact fun x hx => h.finite x (by rwa [numbers_unary])

theorem parts_subset_partsOfAll (he : e ∈ args) : ∀ p ∈ e.parts, p ∈ partsOfAll args := by
  induction args with
  | nil => cases he
  | cons first args ih =>
    intro p hp
    rcases List.mem_cons.1 he with rfl | he
    · exact List.mem_append_left _ hp
    · exact List.mem_append_right _ (ih he p hp)

theorem Writable.argument (h : (call name args span).Writable) (he : e ∈ args) : e.Writable := by
  have hparts := parts_subset_partsOfAll he
  constructor
  · exact fun p hp => h.lexical p (List.mem_cons_of_mem _ (hparts p hp))
  · intro x hx
    apply h.finite
    rw [numbers_call]
    obtain ⟨p, hp, hx⟩ := List.mem_filterMap.1 hx
    exact List.mem_filterMap.2 ⟨p, hparts p hp, hx⟩

theorem Writable.number {x : Double} (h : (literal (.number x) span).Writable) :
    ∃ units hunits, x = .finite false units hunits := by
  obtain ⟨m, den, hx⟩ := h.root
  have hfinite : x.isFinite = true := h.finite x (List.mem_singleton.2 rfl)
  rw [hx] at hfinite ⊢
  exact Double.exists_finite_of_isFinite hfinite

theorem Writable.leads (h : e.Writable) : Leads e.render.toList := by
  cases e with
  | literal value span =>
    cases value with
    | number x =>
      obtain ⟨units, hunits, rfl⟩ := h.number
      obtain ⟨whole, fraction, htext, hwhole, hdigits, -⟩ := Double.print_finite hunits
      obtain ⟨c, rest, rfl⟩ := List.exists_cons_of_ne_nil hwhole
      simp only [render, Literal.render, ToString.toString, String.toList_ofList, htext]
      -- a finite number is written without a sign
      exact leads_of_isWordChar (isWordChar_of_isDigit (hdigits c (by simp)))
    | text text => exact ⟨'"', by simp [render, Literal.render, stringLiteral], by decide, by decide⟩
    | boolean value =>
      cases value
      · exact ⟨'f', by simp [render, Literal.render], by decide, by decide⟩
      · exact ⟨'t', by simp [render, Literal.render], by decide, by decide⟩
  | var name span => exact ⟨'@', by simp [render], by decide, by decide⟩
  | binary operator a b span => exact ⟨'(', by simp [render], by decide, by decide⟩
  | unary sign e span =>
    cases sign
    · exact ⟨'!', by simp [render, UnaryOperator.symbol], by decide, by decide⟩
    · exact ⟨'-', by simp [render, UnaryOperator.symbol], by decide, by decide⟩
  | call name args span =>
    simp only [render, String.toList_append]
    exact (((leads_of_isName h.root).append _).append _).append _

end Expression

/-- Tokens from which the grammar derives an expression that differs from `e` in nothing but places. -/
def SpellsExpression (e : Expression) (ts : List Token) : Prop :=
  ∃ e', e'.unplaced = e.unplaced ∧ ∀ rest, Derives (.expression .unary e') (ts ++ rest) rest

def SpellsArguments (es : List Expression) (ts : List Token) : Prop :=
  ∃ es', Expression.unplacedAll es' = Expression.unplacedAll es ∧
    ∀ rest, Derives (.arguments es') (ts ++ rest) rest

namespace Expression

theorem spells_token (e' : Expression) {e : Expression} {t : Token} (he : e'.unplaced = e.unplaced)
    (h : ∀ rest, Derives (.expression .primary e') (t :: rest) rest) : SpellsExpression e [t] :=
  ⟨e', he, fun rest => (h rest).loosen (by decide)⟩

theorem spells_binary {operator : BinaryOperator} {a b : Expression} {span : Span}
    {opening sign close : Token} {ts us : List Token} (hopening : opening.kind = .openParen)
    (hsign : BinaryOperator.ofToken? sign.kind = some operator) (hclose : close.kind = .closeParen)
    (ha : SpellsExpression a ts) (hb : SpellsExpression b us) :
    SpellsExpression (binary operator a b span) (opening :: (ts ++ sign :: (us ++ [close]))) := by
  obtain ⟨a', haa', ha⟩ := ha
  obtain ⟨b', hbb', hb⟩ := hb
  obtain ⟨tier, hrank, -⟩ := Tier.exists_rank_eq operator
  have hbinary := operator_rank_le_five operator
  have hunary : Tier.rank .unary = 6 := rfl
  have hdisjunction : Tier.rank .disjunction = 1 := rfl
  have hpositive := tier.rank_pos
  have hne : tier ≠ .primary := by
    rintro rfl
    simp only [Tier.rank] at hrank
    omega
  have hnext := Tier.rank_next hne
  refine ⟨binary operator a' b' ⟨a'.span.start, b'.span.stop⟩, ?_, ?_⟩
  · simp only [unplaced, haa', hbb']
  · intro rest
    -- both operands are unary expressions, in parentheses if they are binary
    have hleft : Derives (.expression tier a') _ _ :=
      (ha (sign :: (us ++ close :: rest))).loosen (by omega)
    have hright : Derives (.expression tier.next b') _ _ := (hb (close :: rest)).loosen (by omega)
    have hwhole := Derives.binary (Tier.operator?_eq_some.2 ⟨hsign, hrank.symm⟩) hleft hright
    have hinner : Derives (.expression .disjunction _) _ _ := hwhole.loosen (by omega)
    have houter : Derives (.expression .unary _) _ _ :=
      (Derives.parenthesized hopening hclose hinner).loosen (by decide)
    simpa using houter

theorem spells_unary {sign : UnaryOperator} {e : Expression} {span : Span} {t : Token}
    {ts : List Token} (ht : UnaryOperator.ofToken? t.kind = some sign) (he : SpellsExpression e ts) :
    SpellsExpression (unary sign e span) (t :: ts) := by
  obtain ⟨e', hee', he⟩ := he
  refine ⟨unary sign e' ⟨t.span.start, e'.span.stop⟩, ?_, ?_⟩
  · simp only [unplaced, hee']
  · exact fun rest => .unary ((signs_lookup _).trans ht) (he rest)

theorem spells_emptyCall {name opening close : Token} {span : Span} (hname : name.kind = .identifier)
    (hopening : opening.kind = .openParen) (hclose : close.kind = .closeParen) :
    SpellsExpression (call name.value [] span) [name, opening, close] := by
  refine ⟨call name.value [] ⟨name.span.start, close.span.stop⟩, rfl, fun rest => ?_⟩
  have hcall : Derives (.expression .primary _) _ rest := .emptyCall hname hopening hclose
  exact hcall.loosen (by decide)

theorem spells_call {name opening close : Token} {args : List Expression} {span : Span}
    {ts : List Token} (hname : name.kind = .identifier) (hopening : opening.kind = .openParen)
    (hclose : close.kind = .closeParen) (hargs : SpellsArguments args ts) :
    SpellsExpression (call name.value args span) (name :: opening :: (ts ++ [close])) := by
  obtain ⟨args', hsame, hargs⟩ := hargs
  refine ⟨call name.value args' ⟨name.span.start, close.span.stop⟩, ?_, ?_⟩
  · simp only [unplaced, hsame]
  · intro rest
    have hcall := Derives.call hname hopening hclose (hargs (close :: rest))
    have houter : Derives (.expression .unary _) _ _ := hcall.loosen (by decide)
    simpa using houter

theorem spells_disjunction {e : Expression} {ts : List Token} (h : SpellsExpression e ts) :
    ∃ e', e'.unplaced = e.unplaced ∧ ∀ rest, Derives (.expression .disjunction e') (ts ++ rest) rest := by
  obtain ⟨e', hee', he⟩ := h
  exact ⟨e', hee', fun rest => (he rest).loosen (by decide)⟩

theorem spells_lastArgument {e : Expression} {ts : List Token} (he : SpellsExpression e ts) :
    SpellsArguments [e] ts := by
  obtain ⟨e', hee', he⟩ := spells_disjunction he
  exact ⟨[e'], by simp only [unplacedAll, hee'], fun rest => .lastArgument (he rest)⟩

theorem spells_argument {e : Expression} {es : List Expression} {comma : Token} {ts us : List Token}
    (hcomma : comma.kind = .comma) (he : SpellsExpression e ts) (hes : SpellsArguments es us) :
    SpellsArguments (e :: es) (ts ++ comma :: us) := by
  obtain ⟨e', hee', he⟩ := spells_disjunction he
  obtain ⟨es', hees', hes⟩ := hes
  refine ⟨e' :: es', by simp only [unplacedAll, hee', hees'], fun rest => ?_⟩
  have hall := Derives.argument hcomma (he (comma :: (us ++ rest))) (hes rest)
  simpa using hall

end Expression

namespace Scanner

/-- From `s` on, the text in front of `k` is scanned without an error to tokens with the property `P`. -/
def Writes (s : Scanner) (k : List Char) (P : List Token → Prop) : Prop :=
  ∃ ts c, c.rest = k ∧ Scans s ts (s.moved c) ∧ P ts

variable {s : Scanner} {k : List Char}

theorem mem_marks_binary (operator : BinaryOperator) :
    ∃ m ∈ TokenKind.marks, m.1 = operator.symbol ∧ BinaryOperator.ofToken? m.2 = some operator := by
  cases operator <;> decide

theorem mem_marks_unary (sign : UnaryOperator) :
    ∃ m ∈ TokenKind.marks, m.1 = sign.symbol ∧ UnaryOperator.ofToken? m.2 = some sign := by
  cases sign <;> decide

theorem writes_number {x : Double} {span : Span}
    (he : (Expression.literal (.number x) span).Writable) (hs : s.Ready)
    (hrest : s.cursor.rest = (Expression.literal (.number x) span).render.toList ++ k) (hk : Breaks k) :
    s.Writes k (SpellsExpression (.literal (.number x) span)) := by
  obtain ⟨units, hunits, rfl⟩ := he.number
  obtain ⟨whole, fraction, htext, hwhole, hdigits, hreads⟩ := Double.print_finite hunits
  have hrender : (Expression.literal (.number (.finite false units hunits)) span).render.toList =
      decimalText whole fraction := by
    simp only [Expression.render, Literal.render, ToString.toString, String.toList_ofList, htext]
  rw [hrender] at hrest
  obtain ⟨t, c, hkind, hvalue, hc, hscans⟩ :=
    scans_lexeme hs hrest (read?_numeral ⟨whole, fraction, rfl, hwhole, hdigits⟩ hk) rfl
  refine ⟨[t], c, hc, hscans, ?_⟩
  have hparse : Double.parse? t.value.toList = some (.finite false units hunits) := by
    rw [hvalue, String.toList_ofList, hreads]
  exact Expression.spells_token (.literal (.number (.finite false units hunits)) t.span) rfl fun rest =>
    .number hkind hparse

theorem writes_text {text : String} {span : Span} (htext : IsPlain text.toList) (hs : s.Ready)
    (hrest : s.cursor.rest = (Expression.literal (.text text) span).render.toList ++ k) :
    s.Writes k (SpellsExpression (.literal (.text text) span)) := by
  obtain ⟨t, c, hkind, rfl, hc, hscans⟩ := scans_string hs htext hrest
  exact ⟨[t], c, hc, hscans, Expression.spells_token (.literal (.text t.value) t.span) rfl fun rest =>
    .text hkind⟩

theorem writes_boolean {value : Bool} {span : Span} (hs : s.Ready)
    (hrest : s.cursor.rest = (Expression.literal (.boolean value) span).render.toList ++ k)
    (hk : Breaks k) : s.Writes k (SpellsExpression (.literal (.boolean value) span)) := by
  cases value with
  | true =>
    obtain ⟨t, c, hkind, hc, hscans⟩ := scans_keyword (m := ("true", .trueWord)) (by decide) hs hrest hk
    exact ⟨[t], c, hc, hscans, Expression.spells_token (.literal (.boolean true) t.span) rfl fun rest =>
      .yes hkind⟩
  | false =>
    obtain ⟨t, c, hkind, hc, hscans⟩ := scans_keyword (m := ("false", .falseWord)) (by decide) hs hrest hk
    exact ⟨[t], c, hc, hscans, Expression.spells_token (.literal (.boolean false) t.span) rfl fun rest =>
      .no hkind⟩

theorem writes_variable {name : String} {span : Span} (hname : IsName name.toList) (hs : s.Ready)
    (hrest : s.cursor.rest = (Expression.var name span).render.toList ++ k) (hk : Breaks k) :
    s.Writes k (SpellsExpression (.var name span)) := by
  have hrender : (Expression.var name span).render.toList ++ k = "@".toList ++ (name.toList ++ k) := by
    simp [Expression.render]
  rw [hrender] at hrest
  have hhead := ((leads_of_isName hname).append k).head?_ne
  obtain ⟨sign, c, hsign, hc, hscans⟩ := scans_mark (m := ("@", .atSign)) (by decide) hs hrest hhead
  obtain ⟨t, c', hkind, rfl, hc', hscans'⟩ := scans_name hname (hs.moved c) hc hk
  refine ⟨[sign, t], c', hc', hscans.trans hscans', ?_⟩
  refine ⟨.var t.value ⟨sign.span.start, t.span.stop⟩, rfl, fun rest => ?_⟩
  have hvariable : Derives (.expression .primary _) _ rest := .variable hsign hkind
  exact hvariable.loosen (by decide)

end Scanner

namespace Expression

/-- Wherever words and marks are read, the canonical text of `e` is scanned to tokens that spell `e`. -/
def IsWritten (e : Expression) : Prop :=
  ∀ s k, Scanner.Ready s → s.cursor.rest = e.render.toList ++ k → Breaks k →
    s.Writes k (SpellsExpression e)

def AreWritten (es : List Expression) : Prop :=
  ∀ s k, Scanner.Ready s → s.cursor.rest = (renderArguments es).toList ++ k → Breaks k →
    s.Writes k (SpellsArguments es)

theorem isWritten_binary {operator : BinaryOperator} {a b : Expression} {span : Span}
    (he : (binary operator a b span).Writable) (ha : a.IsWritten) (hb : b.IsWritten) :
    (binary operator a b span).IsWritten := by
  intro s k hs hrest hk
  obtain ⟨m, hm, hsymbol, hoperator⟩ := mem_marks_binary operator
  have hrender : (binary operator a b span).render.toList ++ k = "(".toList ++ (a.render.toList ++
      ' ' :: (m.1.toList ++ ' ' :: (b.render.toList ++ (")".toList ++ k)))) := by
    simp [render, hsymbol]
  rw [hrender] at hrest
  obtain ⟨opening, c₁, hopening, hc₁, hscans₁⟩ := scans_mark (m := ("(", .openParen)) (by decide) hs hrest
    (he.left.leads.append _).head?_ne
  obtain ⟨ts, c₂, hc₂, hscans₂, hspells⟩ := ha _ _ (hs.moved c₁) hc₁ (breaks_cons (by decide) _)
  obtain ⟨c₃, hc₃, hscans₃⟩ := scans_blank (hs.moved c₂) rfl hc₂ (mark_not_blank hm _)
  obtain ⟨sign, c₄, hsign, hc₄, hscans₄⟩ := scans_spacedMark hm (hs.moved c₃) hc₃
    (he.right.leads.append _).not_blank
  obtain ⟨us, c₅, hc₅, hscans₅, hspells'⟩ := hb _ _ (hs.moved c₄) hc₄ (breaks_cons (by decide) _)
  obtain ⟨close, c₆, hclose, hc₆, hscans₆⟩ := scans_mark (m := (")", .closeParen)) (by decide) (hs.moved c₅)
    hc₅ hk.head?_ne
  refine ⟨_, c₆, hc₆, hscans₁.trans (hscans₂.trans (hscans₃.trans (hscans₄.trans
    (hscans₅.trans hscans₆)))), ?_⟩
  exact spells_binary hopening (hsign ▸ hoperator) hclose hspells hspells'

theorem isWritten_unary {sign : UnaryOperator} {e : Expression} {span : Span}
    (hwritable : e.Writable) (he : e.IsWritten) : (unary sign e span).IsWritten := by
  intro s k hs hrest hk
  obtain ⟨m, hm, hsymbol, hsign⟩ := mem_marks_unary sign
  have hrender : (unary sign e span).render.toList ++ k = m.1.toList ++ (e.render.toList ++ k) := by
    simp [render, hsymbol]
  rw [hrender] at hrest
  obtain ⟨t, c₁, hkind, hc₁, hscans₁⟩ := scans_mark hm hs hrest (hwritable.leads.append k).head?_ne
  obtain ⟨ts, c₂, hc₂, hscans₂, hspells⟩ := he _ _ (hs.moved c₁) hc₁ hk
  exact ⟨_, c₂, hc₂, hscans₁.trans hscans₂, spells_unary (hkind ▸ hsign) hspells⟩

theorem isWritten_call {name : String} {args : List Expression} {span : Span}
    (hname : IsName name.toList) (hargs : args ≠ [] → AreWritten args)
    (hlead : args ≠ [] → Leads (renderArguments args).toList) : (call name args span).IsWritten := by
  intro s k hs hrest hk
  have hrender : (call name args span).render.toList ++ k = name.toList ++ ("(".toList ++
      ((renderArguments args).toList ++ (")".toList ++ k))) := by
    simp [render]
  rw [hrender] at hrest
  obtain ⟨t, c₁, hkind, rfl, hc₁, hscans₁⟩ := scans_name hname hs hrest (breaks_cons (by decide) _)
  by_cases hnil : args = []
  · subst hnil
    -- an empty list of arguments has a form of its own in the grammar
    obtain ⟨opening, c₂, hopening, hc₂, hscans₂⟩ := scans_mark (m := ("(", .openParen)) (by decide)
      (hs.moved c₁) hc₁ (by simp [renderArguments])
    obtain ⟨close, c₃, hclose, hc₃, hscans₃⟩ := scans_mark (m := (")", .closeParen)) (by decide)
      (hs.moved c₂) hc₂ hk.head?_ne
    exact ⟨_, c₃, hc₃, hscans₁.trans (hscans₂.trans hscans₃), spells_emptyCall hkind hopening hclose⟩
  · obtain ⟨opening, c₂, hopening, hc₂, hscans₂⟩ := scans_mark (m := ("(", .openParen)) (by decide)
      (hs.moved c₁) hc₁ ((hlead hnil).append _).head?_ne
    obtain ⟨ts, c₃, hc₃, hscans₃, hspells⟩ := hargs hnil _ _ (hs.moved c₂) hc₂ (breaks_cons (by decide) _)
    obtain ⟨close, c₄, hclose, hc₄, hscans₄⟩ := scans_mark (m := (")", .closeParen)) (by decide)
      (hs.moved c₃) hc₃ hk.head?_ne
    exact ⟨_, c₄, hc₄, hscans₁.trans (hscans₂.trans (hscans₃.trans hscans₄)),
      spells_call hkind hopening hclose hspells⟩

theorem areWritten_singleton {e : Expression} (he : e.IsWritten) : AreWritten [e] := by
  intro s k hs hrest hk
  obtain ⟨ts, c, hc, hscans, hspells⟩ := he s k hs hrest hk
  exact ⟨ts, c, hc, hscans, spells_lastArgument hspells⟩

theorem areWritten_cons {e : Expression} {es : List Expression} (hne : es ≠ []) (he : e.IsWritten)
    (hlead : Leads (renderArguments es).toList) (hes : AreWritten es) : AreWritten (e :: es) := by
  intro s k hs hrest hk
  have hrender : (renderArguments (e :: es)).toList ++ k = e.render.toList ++ (",".toList ++
      ' ' :: ((renderArguments es).toList ++ k)) := by
    obtain ⟨e', es, rfl⟩ := List.exists_cons_of_ne_nil hne
    simp [renderArguments]
  rw [hrender] at hrest
  obtain ⟨ts, c₁, hc₁, hscans₁, hspells⟩ := he _ _ hs hrest (breaks_cons (by decide) _)
  obtain ⟨comma, c₂, hcomma, hc₂, hscans₂⟩ := scans_spacedMark (m := (",", .comma)) (by decide)
    (hs.moved c₁) hc₁ (hlead.append _).not_blank
  obtain ⟨us, c₃, hc₃, hscans₃, hspells'⟩ := hes _ _ (hs.moved c₂) hc₂ hk
  exact ⟨_, c₃, hc₃, hscans₁.trans (hscans₂.trans hscans₃),
    spells_argument hcomma hspells hspells'⟩

theorem leads_renderArguments {es : List Expression} (h : ∀ e ∈ es, e.Writable) (hne : es ≠ []) :
    Leads (renderArguments es).toList := by
  obtain ⟨e, es, rfl⟩ := List.exists_cons_of_ne_nil hne
  have hlead : Leads e.render.toList := (h e List.mem_cons_self).leads
  cases es with
  | nil => exact hlead
  | cons e' es =>
    simp only [renderArguments, String.toList_append]
    exact (hlead.append _).append _

mutual

theorem Writable.isWritten : ∀ {e : Expression}, e.Writable → e.IsWritten
  | literal (.number _) _, h => fun _ _ hs hrest hk => Scanner.writes_number h hs hrest hk
  | literal (.text _) _, h => fun _ _ hs hrest _ => Scanner.writes_text h.root hs hrest
  | literal (.boolean _) _, _ => fun _ _ hs hrest hk => Scanner.writes_boolean hs hrest hk
  | var _ _, h => fun _ _ hs hrest hk => Scanner.writes_variable h.root hs hrest hk
  | binary _ _ _ _, h => isWritten_binary h h.left.isWritten h.right.isWritten
  | unary _ _ _, h => isWritten_unary h.operand h.operand.isWritten
  | call _ _ _, h =>
    have hargs := fun _ he => h.argument he
    isWritten_call h.root (areWritten_of_writable hargs) (leads_renderArguments hargs)

theorem areWritten_of_writable :
    ∀ {es : List Expression}, (∀ e ∈ es, e.Writable) → es ≠ [] → AreWritten es
  | [], _, hne => absurd rfl hne
  | [_], h, _ => areWritten_singleton (h _ List.mem_cons_self).isWritten
  | _ :: e' :: es, h, _ =>
    have hrest : ∀ e ∈ e' :: es, e.Writable := fun e he => h e (List.mem_cons_of_mem _ he)
    areWritten_cons (by simp) (h _ List.mem_cons_self).isWritten
      (leads_renderArguments hrest (by simp)) (areWritten_of_writable hrest (by simp))

end

end Expression

end DialogueScript
