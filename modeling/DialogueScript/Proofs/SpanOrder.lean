import DialogueScript.Proofs.NodeLoop
import DialogueScript.Proofs.TokenSpans
import DialogueScript.Proofs.Validity

namespace DialogueScript

structure Span.Marked (marks : Position → Prop) (s : Span) : Prop where
  forward : s.start ≤ s.stop
  start : marks s.start
  stop : marks s.stop

/-- The span holds the others, one behind the other. -/
structure Span.HoldsInOrder (s : Span) (inner : List Span) : Prop where
  within : ∀ i ∈ inner, s.start ≤ i.start ∧ i.stop ≤ s.stop
  apart : inner.Pairwise fun i j => i.stop ≤ j.start

def Expression.children : Expression → List Expression
  | literal .. | var .. => []
  | binary _ left right _ => [left, right]
  | unary _ operand _ => [operand]
  | call _ arguments _ => arguments

structure Expression.Nested (marks : Position → Prop) (e : Expression) : Prop where
  marked : e.span.Marked marks
  order : e.span.HoldsInOrder (e.children.map Expression.span)

/-- The spans of what stands in a statement, in the order of the text: of its expressions, and of the text and
the target that it names. -/
def Statement.partSpans : Statement → List Span
  | assign _ _ value _ => [value.span]
  | say speech _ => speech.placeholders.map (·.1.span)
  | choice _ _ condition _ textSpan targetSpan => textSpan :: targetSpan :: condition.toList.map Expression.span
  | goto _ _ targetSpan => [targetSpan]

structure Statement.Nested (marks : Position → Prop) (s : Statement) : Prop where
  marked : s.span.Marked marks
  parts : ∀ part ∈ s.partSpans, part.Marked marks
  order : s.span.HoldsInOrder s.partSpans
  expressions : ∀ e ∈ s.expressions, ∀ p ∈ e.parts, p.Nested marks

structure Node.Nested (marks : Position → Prop) (node : Node) : Prop where
  marked : node.span.Marked marks
  order : node.span.HoldsInOrder (node.statements.map Statement.span)
  statements : ∀ s ∈ node.statements, s.Nested marks

/-- The spans stand one behind the other between `first` and `last`. -/
def InOrder (marks : Position → Prop) (first : Position) : List Span → Position → Prop
  | [], last => first ≤ last
  | s :: rest, last => first ≤ s.start ∧ s.Marked marks ∧ InOrder marks s.stop rest last

namespace InOrder

variable {marks : Position → Prop} {first first' mid last last' : Position} {s : Span} {spans more : List Span}

theorem le (h : InOrder marks first spans last) : first ≤ last := by
  induction spans generalizing first with
  | nil => exact h
  | cons s spans ih =>
    obtain ⟨hle, hmarked, hrest⟩ := h
    exact hle.trans (hmarked.forward.trans (ih hrest))

theorem mono (h : InOrder marks first spans last) (hfirst : first' ≤ first) (hlast : last ≤ last') :
    InOrder marks first' spans last' := by
  induction spans generalizing first first' with
  | nil => exact hfirst.trans (h.trans hlast)
  | cons s spans ih =>
    obtain ⟨hle, hmarked, hrest⟩ := h
    exact ⟨hfirst.trans hle, hmarked, ih hrest le_rfl⟩

theorem append (h : InOrder marks first spans mid) (h' : InOrder marks mid more last) :
    InOrder marks first (spans ++ more) last := by
  induction spans generalizing first with
  | nil => exact h'.mono h le_rfl
  | cons s spans ih =>
    obtain ⟨hle, hmarked, hrest⟩ := h
    exact ⟨hle, hmarked, ih hrest⟩

theorem singleton (h : s.Marked marks) (hfirst : first ≤ s.start) (hlast : s.stop ≤ last) :
    InOrder marks first [s] last :=
  ⟨hfirst, h, hlast⟩

theorem suffix (h : InOrder marks first more last) (hsuffix : spans <:+ more) :
    InOrder marks first spans last := by
  induction more generalizing first with
  | nil =>
    rw [List.suffix_nil.1 hsuffix]
    exact h
  | cons s more ih =>
    rcases List.suffix_cons_iff.1 hsuffix with rfl | hsuffix
    · exact h
    · obtain ⟨hle, hmarked, hrest⟩ := h
      exact (ih hrest hsuffix).mono (hle.trans hmarked.forward) le_rfl

theorem marked (h : InOrder marks first spans last) : ∀ s ∈ spans, s.Marked marks := by
  induction spans generalizing first with
  | nil => exact List.forall_mem_nil _
  | cons s spans ih =>
    obtain ⟨hle, hmarked, hrest⟩ := h
    exact List.forall_mem_cons.2 ⟨hmarked, ih hrest⟩

theorem holds (h : InOrder marks first spans last) : Span.HoldsInOrder ⟨first, last⟩ spans := by
  induction spans generalizing first with
  | nil => exact ⟨List.forall_mem_nil _, .nil⟩
  | cons s spans ih =>
    obtain ⟨hle, hmarked, hrest⟩ := h
    obtain ⟨hwithin, hapart⟩ := ih hrest
    have hfirst := hle.trans hmarked.forward
    refine ⟨List.forall_mem_cons.2 ⟨⟨hle, hrest.le⟩, fun i hi => ?_⟩, .cons (fun i hi => ?_) hapart⟩
    · exact ⟨hfirst.trans (hwithin i hi).1, (hwithin i hi).2⟩
    · exact (hwithin i hi).1

end InOrder

namespace Grammar

variable {marks : Position → Prop} {first last : Position} {ts rest : List Token}

def Phrase.spans : Phrase → List Span
  | expression _ e => [e.span]
  | arguments es => es.map Expression.span

theorem inOrder_cons {t : Token} (h : InOrder marks first ((t :: ts).map Token.span) last) :
    first ≤ t.span.start ∧ t.span.Marked marks ∧ InOrder marks t.span.stop (ts.map Token.span) last := h

theorem nested_leaf {e : Expression} (hchildren : e.children = []) (hparts : e.parts = [e])
    (hmarked : e.span.Marked marks) : ∀ p ∈ e.parts, p.Nested marks := by
  rw [hparts, List.forall_mem_singleton]
  refine ⟨hmarked, ?_⟩
  rw [hchildren]
  exact ⟨List.forall_mem_nil _, .nil⟩

theorem Derives.nested {phrase : Phrase} (h : Derives phrase ts rest)
    (hts : InOrder marks first (ts.map Token.span) last) :
    ∃ mid, InOrder marks first phrase.spans mid ∧ InOrder marks mid (rest.map Token.span) last ∧
      ∀ p ∈ phrase.parts, p.Nested marks := by
  induction h generalizing first with
  | number | text | yes | no =>
    obtain ⟨hle, hmarked, hrest⟩ := inOrder_cons hts
    exact ⟨_, .singleton hmarked hle le_rfl, hrest, nested_leaf rfl rfl hmarked⟩
  | @«variable» sign name =>
    obtain ⟨hle, hsign, hts⟩ := inOrder_cons hts
    obtain ⟨hgap, hname, hrest⟩ := inOrder_cons hts
    have hmarked : Span.Marked marks ⟨sign.span.start, name.span.stop⟩ :=
      ⟨hsign.forward.trans (hgap.trans hname.forward), hsign.start, hname.stop⟩
    exact ⟨_, .singleton hmarked hle le_rfl, hrest, nested_leaf rfl rfl hmarked⟩
  | @emptyCall name opening close =>
    obtain ⟨hle, hname, hts⟩ := inOrder_cons hts
    obtain ⟨hgap, hopening, hts⟩ := inOrder_cons hts
    obtain ⟨hgap', hclose, hrest⟩ := inOrder_cons hts
    have hmarked : Span.Marked marks ⟨name.span.start, close.span.stop⟩ :=
      ⟨(hname.forward.trans (hgap.trans hopening.forward)).trans (hgap'.trans hclose.forward),
        hname.start, hclose.stop⟩
    exact ⟨_, .singleton hmarked hle le_rfl, hrest, nested_leaf rfl rfl hmarked⟩
  | @call name opening close args ts rest _ _ _ _ ih =>
    obtain ⟨hle, hname, hts⟩ := inOrder_cons hts
    obtain ⟨hgap, hopening, hts⟩ := inOrder_cons hts
    obtain ⟨mid, hargs, hts, hparts⟩ := ih hts
    obtain ⟨hgap', hclose, hrest⟩ := inOrder_cons hts
    have hfirst := hname.forward.trans (hgap.trans hopening.forward)
    have hlast := hgap'.trans hclose.forward
    have hmarked : Span.Marked marks ⟨name.span.start, close.span.stop⟩ :=
      ⟨hfirst.trans (hargs.le.trans hlast), hname.start, hclose.stop⟩
    exact ⟨_, .singleton hmarked hle le_rfl, hrest,
      List.forall_mem_cons.2 ⟨⟨hmarked, (hargs.mono hfirst hlast).holds⟩, hparts⟩⟩
  | parenthesized _ _ _ ih =>
    obtain ⟨hle, hopening, hts⟩ := inOrder_cons hts
    obtain ⟨mid, he, hts, hparts⟩ := ih hts
    obtain ⟨hgap, hclose, hrest⟩ := inOrder_cons hts
    exact ⟨_, he.mono (hle.trans hopening.forward) (hgap.trans hclose.forward), hrest, hparts⟩
  | @unary sign operator e ts rest _ _ ih =>
    obtain ⟨hle, hsign, hts⟩ := inOrder_cons hts
    obtain ⟨mid, he, hrest, hparts⟩ := ih hts
    obtain ⟨hgap, hoperand, hmid⟩ := he
    have hmarked : Span.Marked marks ⟨sign.span.start, e.span.stop⟩ :=
      ⟨hsign.forward.trans (hgap.trans hoperand.forward), hsign.start, hoperand.stop⟩
    have hholds := InOrder.holds (.singleton hoperand (hsign.forward.trans hgap) le_rfl)
    exact ⟨mid, .singleton hmarked hle hmid, hrest, List.forall_mem_cons.2 ⟨⟨hmarked, hholds⟩, hparts⟩⟩
  | @binary tier sign operator left right ts mid rest _ _ _ ihl ihr =>
    obtain ⟨behind, hl, hts, hlparts⟩ := ihl hts
    obtain ⟨hgap, hsign, hts⟩ := inOrder_cons hts
    obtain ⟨behind', hr, hrest, hrparts⟩ := ihr hts
    obtain ⟨hle, hleft, hbehind⟩ := hl
    obtain ⟨hgap', hright, hbehind'⟩ := hr
    have hbetween := ((hbehind.trans hgap).trans hsign.forward).trans hgap'
    have hmarked : Span.Marked marks ⟨left.span.start, right.span.stop⟩ :=
      ⟨hleft.forward.trans (hbetween.trans hright.forward), hleft.start, hright.stop⟩
    have hholds := InOrder.holds (InOrder.append (.singleton hleft le_rfl le_rfl)
      (.singleton hright hbetween le_rfl))
    exact ⟨behind', .singleton hmarked hle hbehind', hrest,
      List.forall_mem_cons.2 ⟨⟨hmarked, hholds⟩, List.forall_mem_append.2 ⟨hlparts, hrparts⟩⟩⟩
  | operand _ _ ih => exact ih hts
  | lastArgument _ ih =>
    obtain ⟨mid, he, hrest, hparts⟩ := ih hts
    exact ⟨mid, he, hrest, List.forall_mem_append.2 ⟨hparts, List.forall_mem_nil _⟩⟩
  | argument _ _ _ ihe ihes =>
    obtain ⟨behind, he, hts, hparts⟩ := ihe hts
    obtain ⟨hgap, hcomma, hts⟩ := inOrder_cons hts
    obtain ⟨mid, hes, hrest, hparts'⟩ := ihes hts
    exact ⟨mid, he.append (hes.mono (hgap.trans hcomma.forward) le_rfl), hrest,
      List.forall_mem_append.2 ⟨hparts, hparts'⟩⟩

theorem Parts.nested {stop stop' : Position} {speech : Speech} (h : Parts stop speech stop' ts rest)
    (hts : InOrder marks stop (ts.map Token.span) last) (hstop : marks stop) :
    InOrder marks stop (speech.placeholders.map (·.1.span)) stop' ∧
      InOrder marks stop' (rest.map Token.span) last ∧ marks stop' ∧
      ∀ e ∈ speech.placeholders.map (·.1), ∀ p ∈ e.parts, p.Nested marks := by
  induction h with
  | nil => exact ⟨le_rfl, hts, hstop, List.forall_mem_nil _⟩
  | text _ _ ih =>
    obtain ⟨hgap, ht, hts⟩ := inOrder_cons hts
    obtain ⟨hspans, hrest, hstop', hparts⟩ := ih hts ht.stop
    exact ⟨hspans.mono (hgap.trans ht.forward) le_rfl, hrest, hstop', hparts⟩
  | placeholder _ _ he _ ih =>
    obtain ⟨hgap, hopening, hts⟩ := inOrder_cons hts
    obtain ⟨mid, hspan, hts, hhead⟩ := he.nested hts
    obtain ⟨hgap', hclose, hts⟩ := inOrder_cons hts
    obtain ⟨hspans, hrest, hstop', hparts⟩ := ih hts hclose.stop
    exact ⟨(hspan.mono (hgap.trans hopening.forward) (hgap'.trans hclose.forward)).append hspans, hrest,
      hstop', List.forall_mem_cons.2 ⟨hhead, hparts⟩⟩

theorem Guard.nested {guard? : Option Expression} (h : Guard guard? ts rest)
    (hts : InOrder marks first (ts.map Token.span) last) :
    ∃ mid, InOrder marks first (guard?.toList.map Expression.span) mid ∧
      InOrder marks mid (rest.map Token.span) last ∧ ∀ e ∈ guard?.toList, ∀ p ∈ e.parts, p.Nested marks := by
  cases h with
  | absent => exact ⟨first, le_rfl, hts, List.forall_mem_nil _⟩
  | present _ _ _ he =>
    obtain ⟨hle, hcomma, hts⟩ := inOrder_cons hts
    obtain ⟨hgap, hword, hts⟩ := inOrder_cons hts
    obtain ⟨hgap', hcolon, hts⟩ := inOrder_cons hts
    obtain ⟨mid, hspan, hrest, hparts⟩ := he.nested hts
    have hfirst := (hle.trans hcomma.forward).trans
      ((hgap.trans hword.forward).trans (hgap'.trans hcolon.forward))
    exact ⟨mid, hspan.mono hfirst le_rfl, hrest, List.forall_mem_singleton.2 hparts⟩

theorem Line.nested {s : Statement} (h : Line s ts rest) (hts : InOrder marks first (ts.map Token.span) last) :
    ∃ mid, InOrder marks first [s.span] mid ∧ InOrder marks mid (rest.map Token.span) last ∧ s.Nested marks := by
  cases h with
  | @assign sign name mark operator value lineEnd ts _ _ _ _ _ hvalue =>
    obtain ⟨hle, hsign, hts⟩ := inOrder_cons hts
    obtain ⟨hname_le, hname, hts⟩ := inOrder_cons hts
    obtain ⟨hmark_le, hmark, hts⟩ := inOrder_cons hts
    obtain ⟨mid, ⟨hfront, hspan, hbehind⟩, hts, hparts⟩ := hvalue.nested hts
    obtain ⟨hend_le, hend, hrest⟩ := inOrder_cons hts
    have hfirst := ((hsign.forward.trans (hname_le.trans hname.forward)).trans
      (hmark_le.trans hmark.forward)).trans hfront
    have hmarked : Span.Marked marks ⟨sign.span.start, value.span.stop⟩ :=
      ⟨hfirst.trans hspan.forward, hsign.start, hspan.stop⟩
    exact ⟨_, .singleton hmarked hle (hbehind.trans (hend_le.trans hend.forward)), hrest, hmarked,
      List.forall_mem_singleton.2 hspan, InOrder.holds (.singleton hspan hfirst le_rfl),
      List.forall_mem_singleton.2 hparts⟩
  | @say word speech stop lineEnd ts _ _ _ hspeech =>
    obtain ⟨hle, hword, hts⟩ := inOrder_cons hts
    obtain ⟨hspans, hts, hstop, hparts⟩ := hspeech.nested hts hword.stop
    obtain ⟨hend_le, hend, hrest⟩ := inOrder_cons hts
    have hmarked : Span.Marked marks ⟨word.span.start, stop⟩ :=
      ⟨hword.forward.trans hspans.le, hword.start, hstop⟩
    exact ⟨_, .singleton hmarked hle (hend_le.trans hend.forward), hrest, hmarked, hspans.marked,
      (hspans.mono hword.forward le_rfl).holds, hparts⟩
  | @choice word text comma colon name guard? lineEnd ts _ _ _ _ _ _ _ hguard =>
    obtain ⟨hle, hword, hts⟩ := inOrder_cons hts
    obtain ⟨htext_le, htext, hts⟩ := inOrder_cons hts
    obtain ⟨hcomma_le, hcomma, hts⟩ := inOrder_cons hts
    obtain ⟨hcolon_le, hcolon, hts⟩ := inOrder_cons hts
    obtain ⟨hname_le, hname, hts⟩ := inOrder_cons hts
    have htarget : Span.Marked marks ⟨colon.span.start, name.span.stop⟩ :=
      ⟨hcolon.forward.trans (hname_le.trans hname.forward), hcolon.start, hname.stop⟩
    -- a choice ends where its condition does, or else where its target does
    obtain ⟨hspans, hstop, hts, hparts⟩ : InOrder marks name.span.stop (guard?.toList.map Expression.span)
          ((guard?.map (·.span.stop)).getD name.span.stop) ∧
        marks ((guard?.map (·.span.stop)).getD name.span.stop) ∧
        InOrder marks ((guard?.map (·.span.stop)).getD name.span.stop) ((lineEnd :: rest).map Token.span) last ∧
        ∀ e ∈ guard?.toList, ∀ p ∈ e.parts, p.Nested marks := by
      obtain ⟨mid, hspans, hrest, hparts⟩ := hguard.nested hts
      cases guard? with
      | none => exact ⟨le_rfl, hname.stop, hrest.mono hspans le_rfl, hparts⟩
      | some e =>
        obtain ⟨hfront, hspan, hbehind⟩ := hspans
        exact ⟨.singleton hspan hfront le_rfl, hspan.stop, hrest.mono hbehind le_rfl, hparts⟩
    obtain ⟨hend_le, hend, hrest⟩ := inOrder_cons hts
    have hall : InOrder marks word.span.start
        (text.span :: ⟨colon.span.start, name.span.stop⟩ :: guard?.toList.map Expression.span)
        ((guard?.map (·.span.stop)).getD name.span.stop) :=
      ⟨hword.forward.trans htext_le, htext, (hcomma_le.trans hcomma.forward).trans hcolon_le, htarget, hspans⟩
    have hmarked : Span.Marked marks ⟨word.span.start, (guard?.map (·.span.stop)).getD name.span.stop⟩ :=
      ⟨hall.le, hword.start, hstop⟩
    exact ⟨_, .singleton hmarked hle (hend_le.trans hend.forward), hrest, hmarked, hall.marked, hall.holds,
      hparts⟩
  | @goto word colon name lineEnd =>
    obtain ⟨hle, hword, hts⟩ := inOrder_cons hts
    obtain ⟨hcolon_le, hcolon, hts⟩ := inOrder_cons hts
    obtain ⟨hname_le, hname, hts⟩ := inOrder_cons hts
    obtain ⟨hend_le, hend, hrest⟩ := inOrder_cons hts
    have htarget : Span.Marked marks ⟨colon.span.start, name.span.stop⟩ :=
      ⟨hcolon.forward.trans (hname_le.trans hname.forward), hcolon.start, hname.stop⟩
    have hall : InOrder marks word.span.start [⟨colon.span.start, name.span.stop⟩] name.span.stop :=
      .singleton htarget (hword.forward.trans hcolon_le) le_rfl
    have hmarked : Span.Marked marks ⟨word.span.start, name.span.stop⟩ :=
      ⟨hall.le, hword.start, hname.stop⟩
    exact ⟨_, .singleton hmarked hle (hend_le.trans hend.forward), hrest, hmarked, hall.marked, hall.holds,
      List.forall_mem_nil _⟩

end Grammar

open Grammar TokenStream

variable {marks : Position → Prop} {first last : Position}

namespace TokenStream

/-- The tokens of the stream stand one behind the other, up to `last`. -/
def Ordered (marks : Position → Prop) (first : Position) (s : TokenStream) (last : Position) : Prop :=
  InOrder marks first (s.tokens.map Token.span) last

theorem Ordered.leftOf {s rest : TokenStream} (h : s.Ordered marks first last) (hrest : rest.LeftOf s) :
    rest.Ordered marks first last :=
  h.suffix (hrest.suffix.map _)

end TokenStream

/-- The statements of a block are in order, whatever lines between them are passed over. -/
theorem Block.nested (limit : Nat) {s : TokenStream} (h : s.Ordered marks first last) :
    ∃ mid, InOrder marks first ((parseWithin limit s).statements.map Statement.span) mid ∧
      (parseWithin limit s).rest.Ordered marks mid last ∧
      ∀ st ∈ (parseWithin limit s).statements, st.Nested marks := by
  induction limit generalizing s first with
  | zero => exact ⟨first, le_rfl, h, List.forall_mem_nil _⟩
  | succ limit ih =>
    unfold parseWithin
    split
    case h_1 | h_2 => exact ⟨first, le_rfl, h, List.forall_mem_nil _⟩
    case h_3 => exact ih (h.leftOf (leftOf_advance s))
    case h_4 => exact ih (s := s.skipBlock) (h.leftOf ⟨afterBlock_suffix 0 s.tokens, rfl⟩)
    case h_5 =>
      have hleaves := Parse.leaves_statement s
      split <;> rename_i hread <;> rw [hread] at hleaves
      · obtain ⟨rest, rfl, hline⟩ := Parse.statement_sound hread
        obtain ⟨mid, hspan, hmid, hnested⟩ := hline.nested h
        obtain ⟨mid', hspans, hrest, hall⟩ := ih (s := ⟨rest, s.finish⟩) hmid
        exact ⟨mid', InOrder.append hspan hspans, hrest, List.forall_mem_cons.2 ⟨hnested, hall⟩⟩
      · exact ih (s := TokenStream.skipStatement _) ((h.leftOf hleaves).leftOf ⟨afterLine_suffix 0 _, rfl⟩)

namespace Parse

variable {s rest : TokenStream} {id : String} {hasBlock : Bool} {ss : List Statement} {stop : Position}
  {n : Node}

theorem nodeBlock_nested (h : s.Ordered marks first last) (hread : nodeBlock s = (.ok (hasBlock, ss), rest)) :
    ∃ mid, InOrder marks first (ss.map Statement.span) mid ∧ rest.Ordered marks mid last ∧
      ∀ st ∈ ss, st.Nested marks := by
  unfold nodeBlock at hread
  split at hread
  · cases hread
    exact Block.nested _ (h.leftOf (leftOf_advance s))
  · cases hread
    exact ⟨first, le_rfl, h, List.forall_mem_nil _⟩

theorem nodeFooter_ordered (h : s.Ordered marks first last)
    (hread : nodeFooter id hasBlock s = (.ok stop, rest)) :
    first ≤ stop ∧ marks stop ∧ rest.Ordered marks stop last := by
  obtain ⟨ts, finish⟩ := s
  cases hasBlock with
  | false =>
    obtain ⟨final, ts, rfl, -, rfl, rfl⟩ := nodeFooter_false_eq_ok.1 hread
    obtain ⟨hgap, hfinal, hrest⟩ := inOrder_cons h
    exact ⟨hgap.trans hfinal.forward, hfinal.stop, hrest⟩
  | true =>
    obtain ⟨dedent, final, ts, rfl, -, -, rfl, rfl⟩ := nodeFooter_true_eq_ok.1 hread
    obtain ⟨hgap, hdedent, h⟩ := inOrder_cons h
    obtain ⟨hgap', hfinal, hrest⟩ := inOrder_cons h
    exact ⟨(hgap.trans hdedent.forward).trans (hgap'.trans hfinal.forward), hfinal.stop, hrest⟩

theorem node_nested (h : s.Ordered marks first last) (hread : node s = (.ok n, rest)) :
    ∃ mid, InOrder marks first [n.span] mid ∧ rest.Ordered marks mid last ∧ n.Nested marks := by
  obtain ⟨ts, finish⟩ := s
  obtain ⟨⟨start, id⟩, _, hheader, hread⟩ := bind_eq_ok.1 hread
  obtain ⟨word, name, lineEnd, ts, rfl, -, -, -, rfl, -, rfl⟩ := nodeHeader_eq_ok.1 hheader
  obtain ⟨hle, hword, h⟩ := inOrder_cons h
  obtain ⟨hgap, hname, h⟩ := inOrder_cons h
  obtain ⟨hgap', hend, h⟩ := inOrder_cons h
  obtain ⟨⟨hasBlock, ss⟩, u, hblock, hread⟩ := bind_eq_ok.1 hread
  obtain ⟨mid, hspans, hmid, hall⟩ := nodeBlock_nested (s := ⟨ts, finish⟩) h hblock
  obtain ⟨stop, v, hfooter, hread⟩ := bind_eq_ok.1 hread
  obtain ⟨hlast, hstop, hrest⟩ := nodeFooter_ordered hmid hfooter
  obtain ⟨rfl, rfl⟩ := pure_eq_ok.1 hread
  have hfirst := (hword.forward.trans (hgap.trans hname.forward)).trans (hgap'.trans hend.forward)
  have hmarked : Span.Marked marks ⟨word.span.start, stop⟩ :=
    ⟨(hfirst.trans hspans.le).trans hlast, hword.start, hstop⟩
  exact ⟨stop, .singleton hmarked hle le_rfl, hrest, hmarked, (hspans.mono hfirst hlast).holds, hall⟩

end Parse

namespace Parser

variable {p : Parser}

theorem nodes_nested (h : p.stream.Ordered marks first last) :
    ∃ mid, InOrder marks first (p.nodes.1.map Node.span) mid ∧ ∀ n ∈ p.nodes.1, n.Nested marks := by
  induction p using tries_induction generalizing first with
  | endOfFile p hend =>
    rw [nodes_of_endOfFile hend]
    exact ⟨first, le_rfl, List.forall_mem_nil _⟩
  | node p n after hend hnode ih =>
    have hread := (node_eq p.skip).trans (by rw [hnode])
    obtain ⟨mid, hspan, hafter, hnested⟩ := Parse.node_nested (h.leftOf (leftOf_skipNewlines p.stream)) hread
    obtain ⟨mid', hspans, hall⟩ := ih hafter
    rw [nodes_of_node hend hnode]
    exact ⟨mid', InOrder.append hspan hspans, List.forall_mem_cons.2 ⟨hnested, hall⟩⟩
  | error p e after hend hnode ih =>
    have hleft := leftOf_node p.skip
    rw [hnode] at hleft
    rw [nodes_of_error hend hnode]
    exact ih (((h.leftOf (leftOf_skipNewlines p.stream)).leftOf hleft).leftOf (leftOf_skipToNode _))

end Parser

theorem Scanner.Tiles.inOrder {source : String} {tokens : List Token} {c : Cursor} (h : Tiles source tokens c)
    (hmarks : ∀ t ∈ tokens, marks t.span.start ∧ marks t.span.stop) :
    InOrder marks .start (tokens.map Token.span) c.position := by
  induction h with
  | start => exact le_rfl
  | @token tokens c d t text _ hpass _ hspan _ ih =>
    obtain ⟨htokens, ht⟩ := List.forall_mem_append.1 hmarks
    obtain ⟨hstart, hstop⟩ := List.forall_mem_singleton.1 ht
    have hlast : InOrder marks c.position [t.span] d.position := by
      refine .singleton ⟨?_, hstart, hstop⟩ ?_ ?_
      · rw [hspan]
        exact hpass.position
      · rw [hspan]
      · rw [hspan]
    rw [List.map_append]
    exact (ih htokens).append hlast
  | gap _ hpass _ _ ih => exact (ih hmarks).mono le_rfl hpass.position

theorem nested_of_lex (marks : Position → Prop) {source : String} {tokens : List Token}
    (hlex : lex source = .ok tokens)
    (hmarks : ∀ t ∈ tokens, marks t.span.start ∧ marks t.span.stop) :
    (∃ last, InOrder marks .start ((Parser.ofTokens tokens).nodes.1.map Node.span) last) ∧
      ∀ n ∈ (Parser.ofTokens tokens).nodes.1, n.Nested marks := by
  obtain ⟨c, htiles⟩ := Scanner.tiles_of_lex hlex
  obtain ⟨last, hspans, hall⟩ := Parser.nodes_nested (p := .ofTokens tokens) (htiles.inOrder hmarks)
  exact ⟨⟨last, hspans⟩, hall⟩

/-- The spans of a tree nest and follow the text, also where the parser has passed over errors. The spans of
the nodes come one behind the other. That of a node holds those of its statements one behind the other, that of
a statement those of its parts, and that of an expression those of its operands or arguments; and every span
goes forward. -/
theorem spans_nested {source : String} {tokens : List Token} (hlex : lex source = .ok tokens) :
    let nodes := (Parser.ofTokens tokens).nodes.1
    nodes.Pairwise (fun n m => n.span.stop ≤ m.span.start) ∧
      ∀ n ∈ nodes, n.span.start ≤ n.span.stop ∧ n.span.HoldsInOrder (n.statements.map Statement.span) ∧
        ∀ s ∈ n.statements, s.span.start ≤ s.span.stop ∧ s.span.HoldsInOrder s.partSpans ∧
          (∀ part ∈ s.partSpans, part.start ≤ part.stop) ∧
          ∀ e, s.Evaluates e → ∀ p, Expression.Within p e → p.span.start ≤ p.span.stop ∧
            p.span.HoldsInOrder (p.children.map Expression.span) := by
  dsimp only
  obtain ⟨⟨last, hspans⟩, hall⟩ := nested_of_lex (fun _ => True) hlex fun _ _ => ⟨trivial, trivial⟩
  refine ⟨List.pairwise_map.1 hspans.holds.apart, fun n hn => ?_⟩
  have hnode := hall n hn
  refine ⟨hnode.marked.forward, hnode.order, fun s hs => ?_⟩
  have hstatement := hnode.statements s hs
  refine ⟨hstatement.marked.forward, hstatement.order, fun part hpart => (hstatement.parts part hpart).forward,
    fun e he p hp => ?_⟩
  have hexpression := hstatement.expressions e (Statement.mem_expressions.2 he) p
    (Expression.mem_parts_iff_within.2 hp)
  exact ⟨hexpression.marked.forward, hexpression.order⟩

def strayLines : String := "node\nnode a\n  say b\n  choice \"é\", :a, if: (!@c)\nend\n"

def strayTokens : List Token := (Scanner.ofText strayLines).run.1

def strayNode : Node :=
  ⟨"a", [.choice "é" "a" (some (.unary .not (.var "c" ⟨⟨4, 25⟩, ⟨4, 27⟩⟩) ⟨⟨4, 24⟩, ⟨4, 27⟩⟩))
    ⟨⟨4, 3⟩, ⟨4, 27⟩⟩ ⟨⟨4, 10⟩, ⟨4, 13⟩⟩ ⟨⟨4, 15⟩, ⟨4, 17⟩⟩], ⟨⟨2, 1⟩, ⟨5, 4⟩⟩⟩

theorem spans_nested_strayLines : lex strayLines = .ok strayTokens ∧
    (Parser.ofTokens strayTokens).nodes.1 = [strayNode] ∧
    Span.HoldsInOrder ⟨⟨2, 1⟩, ⟨5, 4⟩⟩ [⟨⟨4, 3⟩, ⟨4, 27⟩⟩] ∧
    Span.HoldsInOrder ⟨⟨4, 3⟩, ⟨4, 27⟩⟩
      [⟨⟨4, 10⟩, ⟨4, 13⟩⟩, ⟨⟨4, 15⟩, ⟨4, 17⟩⟩, ⟨⟨4, 24⟩, ⟨4, 27⟩⟩] := by
  have hlex : lex strayLines = .ok strayTokens := by cbv
  have hnodes : (Parser.ofTokens strayTokens).nodes.1 = [strayNode] := by cbv
  obtain ⟨-, hall⟩ := spans_nested hlex
  obtain ⟨-, hstatements, hparts⟩ := hall strayNode (by rw [hnodes]; exact List.mem_singleton_self _)
  obtain ⟨-, hchoice, -⟩ := hparts _ (List.mem_singleton_self _)
  exact ⟨hlex, hnodes, hstatements, hchoice⟩

end DialogueScript
