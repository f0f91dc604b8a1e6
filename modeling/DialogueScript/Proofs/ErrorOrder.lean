import DialogueScript.Proofs.ErrorPlaces
import DialogueScript.Proofs.StreamEnd
import DialogueScript.Proofs.TokenOrder

namespace DialogueScript

open TokenStream

/-- The turn of a token of which an error says that it was found. -/
def turnOf (found : String) : Nat :=
  if found = TokenKind.newline.describe then 0 else if found = TokenKind.dedent.describe then 1
  else if found = TokenKind.indent.describe then 2 else 3

theorem turnOf_describe (t : Token) : turnOf t.describe = t.kind.turn := by
  obtain ⟨kind, value, span⟩ := t
  cases kind
  case identifier | number | string =>
    simp [turnOf, Token.describe, TokenKind.describe, TokenKind.turn, String.ext_iff, quotedString]
  all_goals rfl

theorem ErrorCause.TellsOf.turn_eq {cause : ErrorCause} {t u : Token} (h : cause.TellsOf t)
    (h' : cause.TellsOf u) : t.kind.turn = u.kind.turn := by
  cases cause with
  | unexpectedToken expected found hint =>
    rw [← turnOf_describe, ← turnOf_describe, ← show found = t.describe from h, ← show found = u.describe from h']
  | malformedNumber text => rw [h.1, h'.1]
  | unexpectedIndentation => rw [show t.kind = .indent from h, show u.kind = .indent from h']
  | _ => exact h.elim

/-- If `t` is the end of a block, then `u` starts behind it. Several ends of blocks can be at one place, and what an
error says of one of them would be so of the others. -/
def Token.Apart (t u : Token) : Prop := t.kind = .dedent → t.span.start < u.span.start

/-- One error is told of `t`, and a later one of `u` behind it. Then they cannot be told of the same token. -/
theorem Token.not_blamed {e later : ScriptError} {t u v : Token} (ht : e.Blames t) (hu : later.Blames u)
    (hbefore : t.Before u) (hapart : t.Apart u) (h : e.Blames v) : ¬ later.Blames v := by
  intro h'
  have hstart : t.span.start = u.span.start := by
    rw [← ht.position, ← hu.position, h.position, h'.position]
  have hturn : t.kind.turn = u.kind.turn := (ht.cause.turn_eq h.cause).trans (h'.cause.turn_eq hu.cause)
  have hplace : ¬ t.span.start < u.span.start := by
    rw [hstart]
    exact lt_irrefl _
  rcases hbefore with hlt | ⟨-, hlt | ⟨hdedent, -⟩⟩
  · exact hplace hlt
  · exact hlt.ne hturn
  · exact hplace (hapart hdedent)

/-- Each of the errors is told of a token of its own, in the order of the tokens. -/
def Tells (errors : List ScriptError) (ts : List Token) : Prop :=
  ∃ blamed : List Token, blamed.Sublist ts ∧ List.Forall₂ ScriptError.Blames errors blamed ∧
    blamed.Pairwise Token.Apart

namespace Tells

variable {e : ScriptError} {t : Token} {errors more : List ScriptError} {ts us : List Token}

theorem nil (ts : List Token) : Tells [] ts := ⟨[], List.nil_sublist ts, .nil, .nil⟩

theorem single (he : e.Blames t) (ht : t ∈ ts) : Tells [e] ts :=
  ⟨[t], List.singleton_sublist.2 ht, .cons he .nil, List.pairwise_singleton _ _⟩

theorem cons (he : e.Blames t) (ht : ∀ u ∈ ts, t.Apart u) (h : Tells errors ts) : Tells (e :: errors) (t :: ts) := by
  obtain ⟨blamed, hblamed, htold, hapart⟩ := h
  exact ⟨t :: blamed, hblamed.cons_cons t, .cons he htold,
    hapart.cons fun u hu => ht u (hblamed.subset hu)⟩

theorem mono (h : Tells errors ts) (hts : ts.Sublist us) : Tells errors us := by
  obtain ⟨blamed, hblamed, htold⟩ := h
  exact ⟨blamed, hblamed.trans hts, htold⟩

theorem append (h : Tells errors ts) (hts : ∀ t ∈ ts, t.kind ≠ .dedent) (hmore : Tells more us) :
    Tells (errors ++ more) (ts ++ us) := by
  obtain ⟨blamed, hblamed, htold, hapart⟩ := h
  obtain ⟨blamed', hblamed', htold', hapart'⟩ := hmore
  refine ⟨blamed ++ blamed', hblamed.append hblamed', List.rel_append htold htold',
    List.pairwise_append.2 ⟨hapart, hapart', fun t ht _ _ hdedent => ?_⟩⟩
  exact absurd hdedent (hts t (hblamed.subset ht))

theorem exists_mem (h : Tells errors ts) : ∀ e ∈ errors, ∃ t ∈ ts, e.Blames t := by
  obtain ⟨blamed, hblamed, htold, -⟩ := h
  intro e he
  obtain ⟨i, hi, rfl⟩ := List.getElem_of_mem he
  have hi' : i < blamed.length := htold.length_eq ▸ hi
  exact ⟨blamed[i], hblamed.subset (List.getElem_mem hi'), htold.get hi hi'⟩

theorem pairwise (h : Tells errors ts) (hts : ts.Pairwise Token.Before) {R : ScriptError → ScriptError → Prop}
    (hR : ∀ e later t u, e.Blames t → later.Blames u → t.Before u → t.Apart u → R e later) :
    errors.Pairwise R := by
  obtain ⟨blamed, hblamed, htold, hapart⟩ := h
  have hlength := htold.length_eq
  have hbefore := List.pairwise_iff_getElem.1 (hts.sublist hblamed)
  have hapart := List.pairwise_iff_getElem.1 hapart
  refine List.pairwise_iff_getElem.2 fun i j hi hj hlt => ?_
  have hi' : i < blamed.length := hlength ▸ hi
  have hj' : j < blamed.length := hlength ▸ hj
  exact hR _ _ _ _ (htold.get hi hi') (htold.get hj hj') (hbefore i j hi' hj' hlt) (hapart i j hi' hj' hlt)

end Tells

namespace TokenStream

/-- A stream at the end of the file, which is there as a token. -/
structure AtLast (s : TokenStream) : Prop where
  kind_eq : s.kind = .endOfFile
  ne_nil : s.tokens ≠ []

/-- The tokens of the stream come one behind the other as those of a text do. -/
structure Orderly (s : TokenStream) : Prop where
  kinds : (s.tokens.map Token.kind).IsChain TokenKind.Precedes
  places : s.tokens.Pairwise Token.Before

/-- The tokens of which an error can still be told where the next node is to be read: not the word of the node
that begins here, and nothing from the end of the file on. -/
def ahead (s : TokenStream) : List Token :=
  match s.kind with
  | .endOfFile => []
  | .nodeWord => s.tokens.tail
  | _ => s.tokens

variable {s rest : TokenStream} {ts : List Token} {t : Token}

theorem Orderly.leftOf (h : s.Orderly) (hrest : rest.LeftOf s) : rest.Orderly where
  kinds := h.kinds.suffix (hrest.suffix.map Token.kind)
  places := h.places.sublist hrest.suffix.sublist

namespace AtLast

theorem endsAlike (h : s.AtLast) : EndsAlike s s := .refl h.kind_eq

theorem tokens_prepend (h : s.AtLast) (ts : List Token) :
    (s.prepend ts).tokens = (s.prepend ts).current :: (s.prepend ts).tokens.tail := by
  obtain ⟨t, more, htokens⟩ := List.exists_cons_of_ne_nil (List.append_ne_nil_of_right_ne_nil ts h.ne_nil)
  rw [current, show (s.prepend ts).tokens = t :: more from htokens]
  rfl

end AtLast

theorem Orderly.kind_eq_newline (hs : s.AtLast) {content more : List Token}
    (h : (s.prepend (content ++ more)).Orderly) (hcontent : ∀ t ∈ content, t.kind.isContent = true)
    (hstop : (s.prepend more).kind.isContent = false)
    (hkind : (s.prepend (content ++ more)).kind.isContent = true) : (s.prepend more).kind = .newline := by
  cases hlast : content.getLast? with
  | none =>
    rw [List.getLast?_eq_none_iff.1 hlast] at hkind
    exact Bool.noConfusion (hstop.symm.trans hkind)
  | some t =>
    have hkinds := h.kinds
    rw [prepend_append, show (prepend content (s.prepend more)).tokens = content ++ _ from rfl,
      hs.tokens_prepend more, List.map_append, List.map_cons] at hkinds
    have hnext : t.kind.Precedes (s.prepend more).kind :=
      (List.isChain_append.1 hkinds).2.2 t.kind (by simp [hlast]) _ rfl
    have hline := (TokenKind.precedes_of_isContent (hcontent t (List.mem_of_getLast? hlast))).1 hnext
    exact hline.resolve_left fun hmore => Bool.noConfusion (hstop.symm.trans hmore)

theorem ahead_sublist (s : TokenStream) : s.ahead.Sublist s.tokens := by
  unfold ahead
  split
  · exact List.nil_sublist _
  · exact List.tail_sublist _
  · exact List.Sublist.refl _

theorem ahead_of_ne (hword : s.kind ≠ .nodeWord) (hend : s.kind ≠ .endOfFile) : s.ahead = s.tokens := by
  unfold ahead
  split
  · exact absurd ‹_› hend
  · exact absurd ‹_› hword
  · rfl

theorem ahead_skipNewlines (s : TokenStream) : s.skipNewlines.ahead.Sublist s.ahead := by
  by_cases hnode : s.AtNode
  · rw [hnode.skipNewlines]
  · obtain ⟨hword, hend⟩ := not_or.1 hnode
    rw [ahead_of_ne hword hend]
    exact (ahead_sublist _).trans (leftOf_skipNewlines s).suffix.sublist

theorem atNode_skipToNode (s : TokenStream) : s.skipToNode.AtNode := by
  have hhead := List.head?_dropWhile_not (fun t : Token => t.kind ≠ .nodeWord && t.kind ≠ .endOfFile) s.tokens
  unfold AtNode TokenStream.kind current skipToNode
  cases hdrop : s.tokens.dropWhile fun t => t.kind ≠ .nodeWord && t.kind ≠ .endOfFile with
  | nil => exact .inr rfl
  | cons t rest =>
    rw [hdrop] at hhead
    simpa [Classical.or_iff_not_imp_left] using hhead

theorem ahead_skipToNode (s : TokenStream) : s.skipToNode.ahead.Sublist s.skipToNode.tokens.tail := by
  unfold ahead
  split
  · exact List.nil_sublist _
  · exact List.Sublist.refl _
  · rename_i hend hword
    exact (atNode_skipToNode s).elim (absurd · hword) (absurd · hend)

/-- From the next node on, errors are told of tokens that start behind the one at which the parser stands. -/
theorem start_lt_of_mem_ahead (h : s.Orderly) (htokens : s.tokens = t :: ts) :
    ∀ u ∈ s.skipToNode.ahead, t.span.start < u.span.start := by
  intro u hu
  have hsuffix := htokens ▸ (leftOf_skipToNode s).suffix
  rcases atNode_skipToNode s with hword | hend
  · obtain ⟨word, more, hmore, hkind⟩ := s.skipToNode.exists_tokens (by rw [hword]; decide)
    rw [hmore] at hsuffix
    have hlater : word.span.start < u.span.start := by
      have hplaces := htokens ▸ h.places
      have hmem : u ∈ more := by simpa [ahead, hword, hmore] using hu
      refine (List.rel_of_pairwise_cons (hplaces.sublist hsuffix.sublist) hmem).start_lt ?_
      rw [hkind, hword]
      rfl
    rcases List.suffix_cons_iff.1 hsuffix with hfirst | hbehind
    · rwa [← (List.cons.inj hfirst).1]
    · have hplaces := htokens ▸ h.places
      exact lt_of_le_of_lt (List.rel_of_pairwise_cons hplaces (hbehind.mem List.mem_cons_self)).start_le hlater
  · rw [ahead, hend] at hu
    cases hu

theorem afterLine_suffix_tail (h : t.kind.isContent = true ∨ t.kind = .newline) (ts : List Token) :
    afterLine 0 (t :: ts) <:+ ts := by
  rw [afterLine]
  split
  case h_3 => exact List.suffix_refl ts
  case h_5 => exact afterLine_suffix 0 ts
  all_goals rename_i hkind; rw [hkind] at h; exact absurd h (by decide)

end TokenStream

variable {s rest : TokenStream} {ts : List Token} {e : ScriptError} {errors : List ScriptError}

theorem Parse.statement_blames (hs : s.AtLast) (horder : (s.prepend ts).Orderly)
    (hkind : (s.prepend ts).kind.isContent = true) (hread : statement (s.prepend ts) = (.error e, rest)) :
    ∃ passed t behind, ts = passed ++ t :: behind ∧ rest = s.prepend (t :: behind) ∧ e.Blames t ∧
      (t.kind.isContent = true ∨ t.kind = .newline) := by
  have hblames := blames_statement _ _ _ hread
  obtain ⟨content, more, rfl, hcontent, hstop⟩ := hs.endsAlike.lineStops.exists_line ts
  rcases statement_same hcontent hstop with ⟨e', left, ⟨passed, rfl⟩, hread', -⟩ | ⟨-, st, hread', -⟩ <;>
    rw [← prepend_append, hread] at hread' <;> cases hread'
  cases left with
  | cons t left =>
    refine ⟨passed, t, left ++ more, by simp, ?_, hblames, .inl (hcontent t (by simp))⟩
    rw [← prepend_append, List.cons_append]
  | nil =>
    -- all that is written on the line is read, so that the parser stops at its end
    simp only [List.append_nil] at hkind horder hcontent
    have hend := horder.kind_eq_newline hs hcontent hstop.isContent_eq hkind
    obtain ⟨t, behind, rfl⟩ := hs.endsAlike.exists_cons (by decide) hend
    exact ⟨passed, t, behind, by simp, rfl, hblames, .inr hend⟩

def onLines (ts : List Token) : List Token := ts.filter (·.kind ≠ .dedent)

theorem onLines_sublist (ts : List Token) : (onLines ts).Sublist ts := List.filter_sublist

theorem onLines_append (ts us : List Token) : onLines (ts ++ us) = onLines ts ++ onLines us := List.filter_append ..

theorem kind_of_mem_onLines : ∀ t ∈ onLines ts, t.kind ≠ .dedent := fun _ ht =>
  of_decide_eq_true (List.mem_filter.1 ht).2

theorem mem_onLines {t : Token} (ht : t ∈ ts) (hkind : t.kind ≠ .dedent) : t ∈ onLines ts :=
  List.mem_filter.2 ⟨ht, decide_eq_true hkind⟩

namespace Block

/-- What stands first in a block is read or passed over. If an error is told there, then of a token that is passed. -/
theorem readsTo_tells (hs : s.AtLast) {t : Token} (horder : (s.prepend (t :: ts)).Orderly)
    (hdedent : t.kind ≠ .dedent) (hend : t.kind ≠ .endOfFile) :
    ∃ passed left ss es, t :: ts = passed ++ left ∧ ReadsTo s (t :: ts) left ss es ∧ Tells es (onLines passed) := by
  have hadvance : (s.prepend (t :: ts)).advance = s.prepend ts := advance_prepend hend
  by_cases hnewline : t.kind = .newline
  · refine ⟨[t], ts, [], [], rfl, fun limit => ?_, .nil _⟩
    exact (parseWithin_of_newline (s := s.prepend (t :: ts)) hnewline).trans (by rw [hadvance]; rfl)
  by_cases hindent : t.kind = .indent
  · have hleft := leftOf_skipBlock (s := s.prepend (t :: ts)) hindent
    rw [hadvance, skipBlock_end hs.kind_eq] at hleft
    obtain ⟨passed, hpassed⟩ := suffix_of_leftOf_prepend hleft
    have hblames : ScriptError.Blames ⟨.unexpectedIndentation, t.span.start⟩ t := ⟨rfl, hindent⟩
    refine ⟨t :: passed, afterBlock 0 (t :: ts), [], _, congrArg (t :: ·) hpassed.symm, fun limit => ?_,
      .single hblames (mem_onLines List.mem_cons_self hdedent)⟩
    rw [← skipBlock_end hs.kind_eq]
    exact parseWithin_of_indent hindent
  have hcontent : t.kind.isContent = true := TokenKind.isContent_of_ne hdedent hend hnewline hindent
  rcases hread : Parse.statement (s.prepend (t :: ts)) with ⟨e | st, rest⟩
  · obtain ⟨before, blamed, behind, htokens, rfl, hblames, hplace⟩ :=
      Parse.statement_blames hs horder hcontent hread
    obtain ⟨passed, hpassed⟩ := afterLine_suffix_tail hplace behind
    have hmem : blamed ∈ before ++ blamed :: passed := List.mem_append_right _ List.mem_cons_self
    have hkind : blamed.kind ≠ .dedent := by
      intro hkind
      rw [hkind] at hplace
      exact absurd hplace (by decide)
    refine ⟨before ++ blamed :: passed, afterLine 0 (blamed :: behind), [], [e], ?_, fun limit => ?_,
      .single hblames (mem_onLines hmem hkind)⟩
    · rw [htokens, List.append_assoc, List.cons_append, hpassed]
    · rw [← skipStatement_end hs.kind_eq]
      exact parseWithin_of_error hcontent hread
  · obtain ⟨r, left, ⟨passed, hpassed⟩, hsame, -⟩ := Parse.statement_same_end hs.endsAlike (t :: ts)
    rw [hread] at hsame
    obtain ⟨rfl, rfl⟩ := Prod.mk.inj hsame
    exact ⟨passed, left, [st], [], hpassed.symm, fun limit => parseWithin_of_ok hcontent hread, .nil _⟩

/-- The errors in a block are told of tokens in it, in order, and not of the ends of blocks. -/
theorem parseWithin_tells (hs : s.AtLast) (horder : (s.prepend ts).Orderly) (limit : Nat) :
    ∃ passed left, ts = passed ++ left ∧ (parseWithin limit (s.prepend ts)).rest = s.prepend left ∧
      Tells (parseWithin limit (s.prepend ts)).errors (onLines passed) := by
  induction limit generalizing ts with
  | zero => exact ⟨[], ts, rfl, rfl, .nil _⟩
  | succ limit ih =>
    by_cases hclosed : (s.prepend ts).kind = .dedent ∨ (s.prepend ts).kind = .endOfFile
    · rw [parseWithin_of_closed hclosed]
      exact ⟨[], ts, rfl, rfl, .nil _⟩
    obtain ⟨hdedent, hend⟩ := not_or.1 hclosed
    obtain ⟨t, ts, rfl⟩ := hs.endsAlike.exists_cons hend rfl
    obtain ⟨first, left, ss, es, hfirst, hstep, htells⟩ := readsTo_tells hs horder hdedent hend
    obtain ⟨passed, rest, rfl, hrest, hmore⟩ :=
      ih (horder.leftOf (leftOf_prepend ⟨first, hfirst.symm⟩))
    rw [hstep]
    refine ⟨first ++ passed, rest, by rw [hfirst, List.append_assoc], hrest, ?_⟩
    rw [onLines_append]
    exact htells.append kind_of_mem_onLines hmore

theorem ofNode_tells (hs : s.AtLast) (horder : (s.prepend ts).Orderly) :
    ∃ passed left, ts = passed ++ left ∧ (ofNode (s.prepend ts)).rest = s.prepend left ∧
      Tells (ofNode (s.prepend ts)).errors (onLines passed) := by
  unfold ofNode
  split
  · rename_i hindent
    obtain ⟨t, ts, rfl⟩ := hs.endsAlike.exists_cons (by decide) hindent
    have ht : t.kind ≠ .endOfFile := by rw [show t.kind = .indent from hindent]; decide
    rw [advance_prepend ht, parse]
    obtain ⟨passed, left, hts, hrest, htells⟩ :=
      parseWithin_tells hs (horder.leftOf (leftOf_prepend (List.suffix_cons t ts))) (s.prepend ts).tokens.length
    exact ⟨t :: passed, left, congrArg (t :: ·) hts, hrest,
      htells.mono ((List.sublist_cons_self t passed).filter _)⟩
  · exact ⟨[], ts, rfl, rfl, .nil _⟩

end Block

namespace Parser

variable {p after : Parser} {r : Except ScriptError Node}

theorem node_tells (hs : s.AtLast) (horder : (s.prepend ts).Orderly)
    (hend : (s.prepend ts).kind ≠ .endOfFile) (hnode : node ⟨s.prepend ts, errors⟩ = (r, after)) :
    ∃ passed left found, (s.prepend ts).ahead = passed ++ (s.prepend left).tokens ∧
      after = ⟨s.prepend left, errors ++ found⟩ ∧ Tells found (onLines passed) := by
  by_cases hword : (s.prepend ts).kind = .nodeWord
  swap
  · obtain ⟨e, hnone⟩ := node_of_ne (p := ⟨s.prepend ts, errors⟩) hword
    obtain ⟨-, rfl⟩ := Prod.mk.inj (hnode.symm.trans hnone)
    exact ⟨[], ts, [], ahead_of_ne hword hend, by rw [List.append_nil], .nil _⟩
  obtain ⟨word, ts, rfl⟩ := hs.endsAlike.exists_cons hend rfl
  have hahead : (s.prepend (word :: ts)).ahead = ts ++ s.tokens := by rw [ahead, hword]; rfl
  have hleft := Parse.leftOf_nodeHeader hword
  rw [advance_prepend (t := word) hend] at hleft
  obtain ⟨e | ⟨start, id⟩, behind, -, hheader, -⟩ := Parse.nodeHeader_same_end hs.endsAlike (word :: ts) <;>
    rw [hheader] at hleft <;> obtain ⟨passed, rfl⟩ := suffix_of_leftOf_prepend hleft
  · rw [node, hheader] at hnode
    obtain ⟨-, rfl⟩ := Prod.mk.inj hnode
    exact ⟨passed, behind, [], hahead.trans (List.append_assoc ..), by rw [List.append_nil], .nil _⟩
  · have hbehind : (s.prepend behind).Orderly :=
      horder.leftOf (leftOf_prepend ⟨word :: passed, rfl⟩)
    obtain ⟨block, left, rfl, hrest, htells⟩ := Block.ofNode_tells hs hbehind
    obtain ⟨footer, final, ⟨last, rfl⟩, hfooter, -⟩ :=
      Parse.nodeFooter_same_end hs.endsAlike id ((s.prepend (block ++ left)).kind = .indent) left
    rw [node_of_nodeHeader hheader, hrest, hfooter] at hnode
    obtain ⟨-, rfl⟩ := Prod.mk.inj hnode
    refine ⟨passed ++ (block ++ last), final, _, ?_, rfl, htells.mono (.filter _ ?_)⟩
    · rw [hahead]
      simp only [prepend, List.append_assoc]
    · exact (List.sublist_append_left block last).trans (List.sublist_append_right passed _)

theorem try_tells (hs : s.AtLast) (horder : p.stream.Orderly) (hstream : p.stream = s.prepend ts)
    (hend : p.skip.stream.kind ≠ .endOfFile) (hnode : p.skip.node = (r, after)) :
    ∃ passed left found, (passed ++ after.stream.tokens).Sublist p.stream.ahead ∧
      after = ⟨s.prepend left, p.errors ++ found⟩ ∧ Tells found (onLines passed) ∧ after.stream.Orderly := by
  obtain ⟨rest, -, hskip, -⟩ := exists_skipNewlines (.inr hs.kind_eq) (.inr hs.kind_eq) ts
  have hrest : p.skip.stream = s.prepend rest := (congrArg TokenStream.skipNewlines hstream).trans hskip
  have hskipped : p.skip.stream.Orderly := horder.leftOf (leftOf_skipNewlines p.stream)
  have hafter : after.stream.Orderly := by
    have hleft := leftOf_node p.skip
    rw [hnode] at hleft
    exact hskipped.leftOf hleft
  rw [show p.skip = ⟨s.prepend rest, p.errors⟩ from congrArg (Parser.mk · p.errors) hrest] at hnode
  obtain ⟨passed, left, found, hahead, rfl, htells⟩ := node_tells hs (hrest ▸ hskipped) (hrest ▸ hend) hnode
  refine ⟨passed, left, found, ?_, rfl, htells, hafter⟩
  rw [← hahead, ← hrest]
  exact ahead_skipNewlines p.stream

/-- The induction is on the tries. What is recorded in a try is told of tokens that the parser passes in it, and
what is recorded later is told of tokens that are still ahead of it then. -/
theorem nodes_tells (hs : s.AtLast) (horder : p.stream.Orderly) (hstream : p.stream = s.prepend ts) :
    ∃ found, p.nodes.2.errors = p.errors ++ found ∧ Tells found p.stream.ahead := by
  -- what is told in one try is told of tokens that are passed in it, and they are not ahead of the next one
  induction p using tries_induction generalizing ts with
  | endOfFile p hend =>
    rw [nodes_of_endOfFile hend]
    exact ⟨[], (List.append_nil _).symm, .nil _⟩
  | node p n after hend hnode ih =>
    obtain ⟨passed, left, found, hahead, rfl, htells, hafter⟩ := try_tells hs horder hstream hend hnode
    obtain ⟨more, hmore, htold⟩ := ih hafter rfl
    rw [nodes_of_node hend hnode]
    refine ⟨found ++ more, by rw [hmore, List.append_assoc],
      (htells.append kind_of_mem_onLines htold).mono (.trans ?_ hahead)⟩
    exact (onLines_sublist passed).append (ahead_sublist _)
  | error p e after hend hnode ih =>
    have hblames : e.Blames after.stream.current :=
      Parse.blames_node _ _ _ ((node_eq p.skip).trans (by rw [hnode]))
    obtain ⟨passed, left, found, hahead, rfl, htells, hafter⟩ := try_tells hs horder hstream hend hnode
    have htokens := hs.tokens_prepend left
    obtain ⟨next, -, hnext, -⟩ := exists_skipToNode (.inr hs.kind_eq) (.inr hs.kind_eq) left
    obtain ⟨more, hmore, htold⟩ := ih (hafter.leftOf (leftOf_skipToNode _)) hnext
    have hlater := start_lt_of_mem_ahead hafter htokens
    rw [nodes_of_error hend hnode]
    refine ⟨found ++ e :: more, by rw [hmore, recover]; simp,
      (htells.append kind_of_mem_onLines (.cons hblames (fun u hu _ => hlater u hu) htold)).mono (.trans ?_ hahead)⟩
    rw [htokens]
    refine (onLines_sublist passed).append (.cons_cons _ ?_)
    exact (ahead_skipToNode _).trans (leftOf_skipToNode _).suffix.sublist.tail

end Parser

theorem tells_of_parse {source : String} {tokens : List Token} (hlex : lex source = .ok tokens)
    (hparse : parse tokens = .error errors) : Tells errors tokens := by
  obtain ⟨hlaid, hlast⟩ := laidOut_of_lex hlex
  have horder : (ofTokens tokens).Orderly := ⟨hlaid.isChain, pairwise_before_of_lex hlex⟩
  obtain ⟨body, stop, rfl, hstop, -⟩ := hlast
  have hs : AtLast ⟨[stop], (ofTokens (body ++ [stop])).finish⟩ := ⟨hstop, List.cons_ne_nil _ _⟩
  have hstream : ofTokens (body ++ [stop]) = prepend body ⟨[stop], (ofTokens (body ++ [stop])).finish⟩ := rfl
  obtain ⟨found, hfound, htells⟩ := Parser.nodes_tells (p := Parser.ofTokens (body ++ [stop])) hs horder hstream
  unfold parse at hparse
  dsimp only at hparse
  split at hparse <;> cases hparse
  rw [hfound]
  exact htells.mono (ahead_sublist _)

/-- The syntax errors of a script are in the order of its text. Each of them is where a token starts, and is told of
this token; no two of them are told of the same one, and the tokens of which they are told come in their order. -/
theorem syntax_errors_in_order {source : String} {tokens : List Token} (hlex : lex source = .ok tokens)
    (hparse : parse tokens = .error errors) :
    errors.Pairwise (fun e later => e.position ≤ later.position) ∧
    (∀ e ∈ errors, ∃ t ∈ tokens, e.position = t.span.start ∧ e.Blames t) ∧
    errors.Pairwise (fun e later => ∀ t ∈ tokens, ¬ (e.Blames t ∧ later.Blames t)) ∧
    ∃ blamed : List Token, blamed.Sublist tokens ∧ List.Forall₂ ScriptError.Blames errors blamed := by
  have htells := tells_of_parse hlex hparse
  have hplaces := pairwise_before_of_lex hlex
  refine ⟨htells.pairwise hplaces fun e later t u ht hu hbefore _ => ?_, fun e he => ?_,
    htells.pairwise hplaces fun e later t u ht hu hbefore hapart v _ h => ?_, ?_⟩
  · rw [ht.position, hu.position]
    exact hbefore.start_le
  · obtain ⟨t, ht, hblames⟩ := htells.exists_mem e he
    exact ⟨t, ht, hblames.position, hblames⟩
  · exact Token.not_blamed ht hu hbefore hapart h.1 h.2
  · obtain ⟨blamed, hblamed, htold, -⟩ := htells
    exact ⟨blamed, hblamed, htold⟩

def openNodes : String := "node a\n  goto b\nnode b\n  say 1\n"

theorem syntax_errors_in_order_openNodes : ∃ tokens errors, lex openNodes = .ok tokens ∧
    parse tokens = .error errors ∧
    errors.map ScriptError.position = [⟨2, 8⟩, ⟨3, 1⟩, ⟨4, 7⟩, ⟨5, 1⟩] ∧
    errors.Pairwise (fun e later => e.position ≤ later.position) ∧
    (∀ e ∈ errors, ∃ t ∈ tokens, e.position = t.span.start ∧ e.Blames t) ∧
    errors.Pairwise (fun e later => ∀ t ∈ tokens, ¬ (e.Blames t ∧ later.Blames t)) ∧
    ∃ blamed : List Token, blamed.Sublist tokens ∧ List.Forall₂ ScriptError.Blames errors blamed := by
  have hlex : lex openNodes = .ok
      [⟨.nodeWord, "node", ⟨⟨1, 1⟩, ⟨1, 5⟩⟩⟩, ⟨.identifier, "a", ⟨⟨1, 6⟩, ⟨1, 7⟩⟩⟩,
        ⟨.newline, "\n", .point ⟨1, 7⟩⟩,
        ⟨.indent, "2", ⟨⟨2, 1⟩, ⟨2, 3⟩⟩⟩, ⟨.gotoWord, "goto", ⟨⟨2, 3⟩, ⟨2, 7⟩⟩⟩,
        ⟨.identifier, "b", ⟨⟨2, 8⟩, ⟨2, 9⟩⟩⟩, ⟨.newline, "\n", .point ⟨2, 9⟩⟩,
        ⟨.dedent, "", .point ⟨3, 1⟩⟩, ⟨.nodeWord, "node", ⟨⟨3, 1⟩, ⟨3, 5⟩⟩⟩,
        ⟨.identifier, "b", ⟨⟨3, 6⟩, ⟨3, 7⟩⟩⟩, ⟨.newline, "\n", .point ⟨3, 7⟩⟩,
        ⟨.indent, "2", ⟨⟨4, 1⟩, ⟨4, 3⟩⟩⟩, ⟨.sayWord, "say", ⟨⟨4, 3⟩, ⟨4, 6⟩⟩⟩,
        ⟨.number, "1", ⟨⟨4, 7⟩, ⟨4, 8⟩⟩⟩, ⟨.newline, "\n", .point ⟨4, 8⟩⟩,
        ⟨.dedent, "", .point ⟨5, 1⟩⟩, .endOfFile ⟨5, 1⟩] := by cbv
  refine ⟨_, [⟨.unexpectedToken "':'" "identifier `b`" (some "node references start with ':', e.g. :b"), ⟨2, 8⟩⟩,
    ⟨.unexpectedToken "'end'" "'node'"
      (some "close node 'a' with 'end' at the indentation of its 'node' line"), ⟨3, 1⟩⟩,
    ⟨.unexpectedToken "end of line" "number `1`" none, ⟨4, 7⟩⟩,
    ⟨.unexpectedToken "'end'" "end of file"
      (some "close node 'b' with 'end' at the indentation of its 'node' line"), ⟨5, 1⟩⟩], hlex, ?_, rfl,
    syntax_errors_in_order hlex ?_⟩ <;> cbv

end DialogueScript
