import DialogueScript.Proofs.ProgramParsing

namespace DialogueScript.Grammar

variable {ts us rest : List Token}

theorem Passes.suffix (h : Passes ts rest) : rest <:+ ts := by
  obtain ⟨passed, rfl, -⟩ := h
  exact List.suffix_append passed rest

theorem suffix_cons {t : Token} (h : us <:+ ts) : us <:+ t :: ts := h.trans (List.suffix_cons t ts)

/-- What is left of the tokens at some place begins with the expression. -/
def Spelled (ts : List Token) (e : Expression) : Prop :=
  ∃ us rest tier, us <:+ ts ∧ Derives (.expression tier e) us rest

theorem Spelled.mono {e : Expression} (h : Spelled us e) (hts : us <:+ ts) : Spelled ts e := by
  obtain ⟨us', rest, tier, hsuffix, he⟩ := h
  exact ⟨us', rest, tier, hsuffix.trans hts, he⟩

theorem Derives.spelled {e : Expression} {tier : Tier} (h : Derives (.expression tier e) ts rest) :
    Spelled ts e :=
  ⟨ts, rest, tier, List.suffix_rfl, h⟩

theorem Derives.part {phrase : Phrase} (h : Derives phrase ts rest) : ∀ p ∈ phrase.parts, Spelled ts p := by
  induction h with
  | number hkind hx => exact List.forall_mem_singleton.2 (Derives.number hkind hx).spelled
  | text hkind => exact List.forall_mem_singleton.2 (Derives.text hkind).spelled
  | yes hkind => exact List.forall_mem_singleton.2 (Derives.yes hkind).spelled
  | no hkind => exact List.forall_mem_singleton.2 (Derives.no hkind).spelled
  | «variable» hsign hname => exact List.forall_mem_singleton.2 (Derives.variable hsign hname).spelled
  | emptyCall hname hopening hclose =>
    exact List.forall_mem_singleton.2 (Derives.emptyCall hname hopening hclose).spelled
  | call hname hopening hclose hargs ih =>
    exact List.forall_mem_cons.2 ⟨(Derives.call hname hopening hclose hargs).spelled,
      fun p hp => (ih p hp).mono (suffix_cons (List.suffix_cons _ _))⟩
  | parenthesized _ _ _ ih => exact fun p hp => (ih p hp).mono (List.suffix_cons _ _)
  | unary hsign he ih =>
    exact List.forall_mem_cons.2 ⟨(Derives.unary hsign he).spelled,
      fun p hp => (ih p hp).mono (List.suffix_cons _ _)⟩
  | binary hsign hleft hright ihl ihr =>
    have hright' := (List.suffix_cons _ _).trans hleft.passes.suffix
    exact List.forall_mem_cons.2 ⟨(Derives.binary hsign hleft hright).spelled,
      List.forall_mem_append.2 ⟨ihl, fun p hp => (ihr p hp).mono hright'⟩⟩
  | operand _ _ ih => exact ih
  | lastArgument _ ih => exact List.forall_mem_append.2 ⟨ih, List.forall_mem_nil _⟩
  | argument _ he _ ihe ihes =>
    have hrest := (List.suffix_cons _ _).trans he.passes.suffix
    exact List.forall_mem_append.2 ⟨ihe, fun p hp => (ihes p hp).mono hrest⟩

theorem Parts.spelled {stop stop' : Position} {speech : Speech} (h : Parts stop speech stop' ts rest) :
    ∀ e ∈ speech.placeholders.map (·.1), Spelled ts e := by
  induction h with
  | nil => exact List.forall_mem_nil _
  | text _ _ ih => exact fun e he => (ih e he).mono (List.suffix_cons _ _)
  | placeholder _ _ he _ ih =>
    have hrest := (List.suffix_cons _ _).trans he.passes.suffix
    exact List.forall_mem_cons.2 ⟨he.spelled.mono (List.suffix_cons _ _),
      fun e' he' => (ih e' he').mono (suffix_cons hrest)⟩

theorem Guard.spelled {guard? : Option Expression} (h : Guard guard? ts rest) :
    ∀ e ∈ guard?.toList, Spelled ts e := by
  cases h with
  | absent => exact List.forall_mem_nil _
  | present _ _ _ he => exact List.forall_mem_singleton.2 (he.spelled.mono ⟨[_, _, _], rfl⟩)

theorem Line.spelled {s : Statement} (h : Line s ts rest) : ∀ e ∈ s.expressions, Spelled ts e := by
  cases h with
  | assign _ _ _ _ hvalue => exact List.forall_mem_singleton.2 (hvalue.spelled.mono ⟨[_, _, _], rfl⟩)
  | say _ _ hspeech => exact fun e he => (hspeech.spelled e he).mono (List.suffix_cons _ _)
  | choice _ _ _ _ _ _ hguard => exact fun e he => (hguard.spelled e he).mono ⟨[_, _, _, _, _], rfl⟩
  | goto => exact List.forall_mem_nil _

theorem Spelled.part {e : Expression} (h : Spelled ts e) : ∀ p ∈ e.parts, Spelled ts p := by
  obtain ⟨us, rest, tier, hsuffix, he⟩ := h
  exact fun p hp => (he.part p hp).mono hsuffix

theorem Body.statement {ss : List Statement} (h : Body ss ts rest) :
    ∀ s ∈ ss, ∃ us rest', us <:+ ts ∧ Line s us rest' := by
  induction h with
  | nil => exact List.forall_mem_nil _
  | newline _ _ ih =>
    intro s hs
    obtain ⟨us, rest', hsuffix, hline⟩ := ih s hs
    exact ⟨us, rest', suffix_cons hsuffix, hline⟩
  | line hline _ ih =>
    refine List.forall_mem_cons.2 ⟨⟨_, _, List.suffix_rfl, hline⟩, fun s hs => ?_⟩
    obtain ⟨us, rest', hsuffix, hline'⟩ := ih s hs
    exact ⟨us, rest', hsuffix.trans hline.passes.suffix, hline'⟩

theorem NodeText.statement {node : Node} (h : NodeText node ts rest) :
    ∀ s ∈ node.statements, ∃ us rest', us <:+ ts ∧ Line s us rest' := by
  obtain ⟨-, -, -, -, hblock⟩ := h
  cases hblock with
  | absent => exact List.forall_mem_nil _
  | present _ _ hbody =>
    intro s hs
    obtain ⟨us, rest', hsuffix, hline⟩ := hbody.statement s hs
    exact ⟨us, rest', hsuffix.trans ⟨[_, _, _, _], rfl⟩, hline⟩

theorem Script.node_text {program : Program} (h : Script program ts) :
    ∀ node ∈ program, ∃ us rest, us <:+ ts ∧ NodeText node us rest := by
  induction h with
  | done => exact List.forall_mem_nil _
  | newline _ _ ih =>
    intro node hnode
    obtain ⟨us, rest, hsuffix, htext⟩ := ih node hnode
    exact ⟨us, rest, suffix_cons hsuffix, htext⟩
  | node hnode _ ih =>
    refine List.forall_mem_cons.2 ⟨⟨_, _, List.suffix_rfl, hnode⟩, fun node' hnode' => ?_⟩
    obtain ⟨us, rest, hsuffix, htext⟩ := ih node' hnode'
    exact ⟨us, rest, hsuffix.trans hnode.passes.suffix, htext⟩

/-- The statements of a script are lines of it. -/
theorem Script.statement {program : Program} (h : Script program ts) :
    ∀ node ∈ program, ∀ s ∈ node.statements, ∃ us rest, us <:+ ts ∧ Line s us rest := by
  intro node hnode s hs
  obtain ⟨us, rest, hsuffix, htext⟩ := h.node_text node hnode
  obtain ⟨us', rest', hsuffix', hline⟩ := htext.statement s hs
  exact ⟨us', rest', hsuffix'.trans hsuffix, hline⟩

end DialogueScript.Grammar
