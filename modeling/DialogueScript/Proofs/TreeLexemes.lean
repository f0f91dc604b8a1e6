import DialogueScript.Proofs.Renderable
import DialogueScript.Proofs.TreeTokens

namespace DialogueScript

/-- What an expression looks like at its root if it was read from a text. -/
def Expression.Lexical : Expression → Prop
  | literal (.number x) _ => ∃ m den, x = .ofRatio false m den
  | literal (.text text) _ => IsPlain text.toList
  | var name _ | call name _ _ => IsName name.toList
  | literal (.boolean _) _ | binary .. | unary .. => True

def Statement.Named : Statement → Prop
  | assign name .. => IsName name.toList
  | say .. => True
  | choice text target .. => IsPlain text.toList ∧ IsName target.toList
  | goto target .. => IsName target.toList

structure Statement.Lexical (s : Statement) : Prop where
  expressions : ∀ e ∈ s.expressions, ∀ p ∈ e.parts, p.Lexical
  named : s.Named

structure Node.Lexical (node : Node) : Prop where
  id : IsName node.id.toList
  statements : ∀ s ∈ node.statements, s.Lexical

theorem Token.isName {t : Token} (h : t.Formed) (hkind : t.kind = .identifier) :
    IsName t.value.toList := by
  unfold Token.Formed at h
  rwa [hkind] at h

theorem Token.isNumeral {t : Token} (h : t.Formed) (hkind : t.kind = .number) :
    IsNumeral t.value.toList := by
  unfold Token.Formed at h
  rwa [hkind] at h

theorem Token.isPlain {t : Token} (h : t.Formed) (hkind : t.kind = .string) :
    IsPlain t.value.toList := by
  unfold Token.Formed at h
  rwa [hkind] at h

namespace Grammar

variable {ts rest : List Token}

/-- At its root an expression looks like its tokens. -/
theorem Derives.lexical {phrase : Phrase} (h : Derives phrase ts rest) (hts : ∀ t ∈ ts, t.Formed)
    {tier : Tier} {e : Expression} (hphrase : phrase = .expression tier e) : e.Lexical := by
  induction h generalizing tier e with
  | @number t x ts hkind hx =>
    obtain ⟨whole, fraction, htext, hwhole, hdigits⟩ := Token.isNumeral (hts t (by simp)) hkind
    cases hphrase
    -- a numeral has no sign, so what it denotes is not negative
    rw [htext, Double.parse?_decimalText hwhole hdigits] at hx
    exact ⟨_, _, (Option.some.inj hx).symm⟩
  | @text t ts hkind =>
    cases hphrase
    exact Token.isPlain (hts t (by simp)) hkind
  | @«variable» sign name ts hsign hname =>
    cases hphrase
    exact Token.isName (hts name (by simp)) hname
  | @emptyCall name opening close ts hname =>
    cases hphrase
    exact Token.isName (hts name (by simp)) hname
  | @call name opening close args ts rest hname =>
    cases hphrase
    exact Token.isName (hts name (by simp)) hname
  | yes | no | unary | binary =>
    cases hphrase
    trivial
  | parenthesized hopening hclose he ih =>
    cases hphrase
    exact ih (fun t ht => hts t (by simp [ht])) rfl
  | operand hne he ih =>
    cases hphrase
    exact ih hts rfl
  | lastArgument | argument => cases hphrase

theorem Spelled.lexical {e : Expression} (h : Spelled ts e) (hts : ∀ t ∈ ts, t.Formed) : e.Lexical := by
  obtain ⟨us, rest, tier, hsuffix, he⟩ := h
  exact he.lexical (fun t ht => hts t (hsuffix.mem ht)) rfl

theorem Line.named {s : Statement} (h : Line s ts rest) (hts : ∀ t ∈ ts, t.Formed) : s.Named := by
  cases h with
  | @assign sign name mark operator value lineEnd ts rest hsign hname =>
    exact Token.isName (hts name (by simp)) hname
  | say => trivial
  | @choice word text comma colon name guard? lineEnd ts rest hword htext hcomma hcolon hname =>
    exact ⟨Token.isPlain (hts text (by simp)) htext, Token.isName (hts name (by simp)) hname⟩
  | @goto word colon name lineEnd rest hword hcolon hname => exact Token.isName (hts name (by simp)) hname

theorem Line.lexical {s : Statement} (h : Line s ts rest) (hts : ∀ t ∈ ts, t.Formed) : s.Lexical :=
  ⟨fun e he p hp => ((h.spelled e he).part p hp).lexical hts, h.named hts⟩

theorem NodeText.lexical {node : Node} (h : NodeText node ts rest) (hts : ∀ t ∈ ts, t.Formed) :
    node.Lexical := by
  refine ⟨?_, fun s hs => ?_⟩
  · obtain ⟨-, hname, -, -, -⟩ := h
    exact Token.isName (hts _ (by simp)) hname
  · obtain ⟨us, rest', hsuffix, hline⟩ := h.statement s hs
    exact hline.lexical fun t ht => hts t (hsuffix.mem ht)

theorem Script.lexical {program : Program} (h : Script program ts) (hts : ∀ t ∈ ts, t.Formed) :
    ∀ node ∈ program, node.Lexical := by
  intro node hnode
  obtain ⟨us, rest, hsuffix, htext⟩ := h.node_text node hnode
  exact htext.lexical fun t ht => hts t (hsuffix.mem ht)

end Grammar

end DialogueScript
