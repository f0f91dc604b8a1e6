import DialogueScript.Proofs.LoopExits

namespace DialogueScript

namespace TokenStream

/-- Both streams are at their end, and at the same place. -/
structure EndsAlike (s s' : TokenStream) : Prop where
  kind_eq : s.kind = .endOfFile
  alike : s.current.Alike s'.current

variable {s s' : TokenStream} {ts rest : List Token}

namespace EndsAlike

theorem refl (h : s.kind = .endOfFile) : EndsAlike s s := ⟨h, .refl _⟩

theorem kind_eq' (h : EndsAlike s s') : s'.kind = .endOfFile := h.alike.kind_eq.symm.trans h.kind_eq

theorem lineStops (h : EndsAlike s s') : LineStops s s' :=
  ⟨h.alike, congrArg TokenKind.isContent h.kind_eq⟩

theorem exists_cons (h : EndsAlike s s') {kind : TokenKind} (hend : kind ≠ .endOfFile)
    (hkind : (s.prepend ts).kind = kind) : ∃ t rest, ts = t :: rest := by
  cases ts with
  | nil => exact absurd (hkind.symm.trans h.kind_eq) hend
  | cons t rest => exact ⟨t, rest, rfl⟩

end EndsAlike

theorem tokens_of_endOfFile (h : s.kind = .endOfFile) :
    s.tokens = [] ∨ ∃ t rest, s.tokens = t :: rest ∧ t.kind = .endOfFile := by
  cases htokens : s.tokens with
  | nil => exact .inl rfl
  | cons t rest =>
    have hcurrent : s.current = t := by rw [current, htokens, List.headD_cons]
    exact .inr ⟨t, rest, rfl, hcurrent ▸ h⟩

theorem afterLine_append_end (h : s.kind = .endOfFile) (depth : Nat) (ts : List Token) :
    afterLine depth (ts ++ s.tokens) = afterLine depth ts ++ s.tokens := by
  induction ts generalizing depth with
  | nil =>
    rw [afterLine, List.nil_append]
    rcases tokens_of_endOfFile h with htokens | ⟨t, rest, htokens, ht⟩
    · rw [htokens, afterLine]
    · rw [htokens, afterLine, ht]
  | cons t ts ih =>
    rw [List.cons_append, afterLine, afterLine]
    split
    · exact ih _
    · split
      · rfl
      · exact ih _
    · split
      · rfl
      · exact ih _
    · rfl
    · exact ih _

theorem afterBlock_append_end (h : s.kind = .endOfFile) (depth : Nat) (ts : List Token) :
    afterBlock depth (ts ++ s.tokens) = afterBlock depth ts ++ s.tokens := by
  induction ts generalizing depth with
  | nil =>
    rw [afterBlock, List.nil_append]
    rcases tokens_of_endOfFile h with htokens | ⟨t, rest, htokens, ht⟩
    · rw [htokens, afterBlock]
    · rw [htokens, afterBlock, ht]
  | cons t ts ih =>
    rw [List.cons_append, afterBlock, afterBlock]
    split
    · exact ih _
    · split
      · rfl
      · exact ih _
    · rfl
    · exact ih _

theorem skipStatement_end (h : s.kind = .endOfFile) (ts : List Token) :
    (s.prepend ts).skipStatement = s.prepend (afterLine 0 ts) :=
  congrArg (TokenStream.mk · s.finish) (afterLine_append_end h 0 ts)

theorem skipBlock_end (h : s.kind = .endOfFile) (ts : List Token) :
    (s.prepend ts).skipBlock = s.prepend (afterBlock 0 ts) :=
  congrArg (TokenStream.mk · s.finish) (afterBlock_append_end h 0 ts)

theorem suffix_of_leftOf_prepend (h : (s.prepend rest).LeftOf (s.prepend ts)) : rest <:+ ts := by
  obtain ⟨passed, hpassed⟩ := h.suffix
  have happend : passed ++ rest ++ s.tokens = ts ++ s.tokens := by
    rw [List.append_assoc]
    exact hpassed
  exact ⟨passed, List.append_cancel_right happend⟩

end TokenStream

open TokenStream

variable {s s' : TokenStream} {ts : List Token}

namespace Parse

theorem expectAs_same_end (h : EndsAlike s s') {kind : TokenKind} (hkind : kind ≠ .endOfFile) (what : String)
    (hint : Option String) : Same (expectAs kind what hint) (expectAs kind what hint) s s' ts :=
  .expectAs_of_cons h.lineStops hkind (h.exists_cons hkind) what hint

/-- The line of a statement ends where the file does, if it does not end before. -/
theorem statement_same_end (h : EndsAlike s s') (ts : List Token) : Same statement statement s s' ts := by
  obtain ⟨content, more, rfl, hcontent, hstop⟩ := h.lineStops.exists_line ts
  rcases statement_same hcontent hstop with ⟨e, rest, hrest, hread, hread'⟩ | ⟨hend, st, hread, hread'⟩ <;>
    rw [← prepend_append] at hread hread'
  · rw [← prepend_append] at hread hread'
    obtain ⟨passed, rfl⟩ := hrest
    exact ⟨.error e, rest ++ more, ⟨passed, (List.append_assoc ..).symm⟩, hread, hread'⟩
  · obtain ⟨lineEnd, more, rfl⟩ := h.exists_cons (by decide) hend
    have hlineEnd : lineEnd.kind ≠ .endOfFile := by rw [show lineEnd.kind = .newline from hend]; decide
    rw [advance_prepend hlineEnd] at hread hread'
    exact ⟨.ok st, more, ⟨content ++ [lineEnd], by simp⟩, hread, hread'⟩

theorem nodeHeader_same_end (h : EndsAlike s s') (ts : List Token) : Same nodeHeader nodeHeader s s' ts := by
  refine .bind (expectAs_same_end h (by decide) _ _) fun word rest _ => ?_
  refine .bind (.expectName h.lineStops _) fun name rest _ => ?_
  exact .bind (expectAs_same_end h (by decide) _ _) fun lineEnd rest _ => .pure _

theorem nodeFooter_same_end (h : EndsAlike s s') (id : String) (hasBlock : Bool) (ts : List Token) :
    Same (nodeFooter id hasBlock) (nodeFooter id hasBlock) s s' ts := by
  have hword (ts) : Same (nodeFooter id false) (nodeFooter id false) s s' ts :=
    .bind (expectAs_same_end h (by decide) _ _) fun word rest _ => .pure _
  cases hasBlock with
  | false => exact hword ts
  | true =>
    refine .bind (p := expect .dedent) (q := expect .dedent) ?_ fun dedent rest _ => hword rest
    exact expectAs_same_end h (by decide) _ _

end Parse

namespace Block

variable {limit limit' : Nat}

/-- With the tokens `ts` in front, both streams begin with the same block, and the same of the tokens is left. -/
def Same (read read' : TokenStream → Block) (s s' : TokenStream) (ts : List Token) : Prop :=
  ∃ rest ss es, rest <:+ ts ∧ read (s.prepend ts) = ⟨ss, es, s.prepend rest⟩ ∧
    read' (s'.prepend ts) = ⟨ss, es, s'.prepend rest⟩

theorem parseWithin_of_closed (h : s.kind = .dedent ∨ s.kind = .endOfFile) (limit : Nat) :
    parseWithin limit s = ⟨[], [], s⟩ := by
  cases limit with
  | zero => rfl
  | succ limit =>
    unfold parseWithin
    rcases h with h | h <;> rw [h]

theorem readsTo_end (h : EndsAlike s s') (t : Token) (ts : List Token) (hdedent : t.kind ≠ .dedent)
    (hend : t.kind ≠ .endOfFile) :
    ∃ left ss es, left <:+ ts ∧ ReadsTo s (t :: ts) left ss es ∧ ReadsTo s' (t :: ts) left ss es := by
  have hadvance (u : TokenStream) : (u.prepend (t :: ts)).advance = u.prepend ts := advance_prepend hend
  by_cases hnewline : t.kind = .newline
  · refine ⟨ts, [], [], List.suffix_refl ts, fun limit => ?_, fun limit => ?_⟩
    · exact (parseWithin_of_newline (s := s.prepend (t :: ts)) hnewline).trans (by rw [hadvance]; rfl)
    · exact (parseWithin_of_newline (s := s'.prepend (t :: ts)) hnewline).trans (by rw [hadvance]; rfl)
  by_cases hindent : t.kind = .indent
  · have hleft := leftOf_skipBlock (s := s.prepend (t :: ts)) hindent
    rw [hadvance, skipBlock_end h.kind_eq] at hleft
    refine ⟨afterBlock 0 (t :: ts), [], [⟨.unexpectedIndentation, t.span.start⟩],
      suffix_of_leftOf_prepend hleft, fun limit => ?_, fun limit => ?_⟩
    · rw [← skipBlock_end h.kind_eq]
      exact parseWithin_of_indent hindent
    · rw [← skipBlock_end h.kind_eq']
      exact parseWithin_of_indent hindent
  · have hcontent : t.kind.isContent = true := TokenKind.isContent_of_ne hdedent hend hnewline hindent
    obtain ⟨e | st, rest, hrest, hread, hread'⟩ := Parse.statement_same_end h (t :: ts)
    · have hleft := leftOf_skipStatement (s := s.prepend (t :: ts)) hcontent (leftOf_prepend hrest)
      rw [hadvance, skipStatement_end h.kind_eq] at hleft
      refine ⟨afterLine 0 rest, [], [e], suffix_of_leftOf_prepend hleft, fun limit => ?_, fun limit => ?_⟩
      · rw [← skipStatement_end h.kind_eq]
        exact parseWithin_of_error hcontent hread
      · rw [← skipStatement_end h.kind_eq']
        exact parseWithin_of_error hcontent hread'
    · have hleft := Parse.leftOf_statement hread
      rw [hadvance] at hleft
      refine ⟨rest, [st], [], suffix_of_leftOf_prepend hleft, fun limit => ?_, fun limit => ?_⟩
      · exact parseWithin_of_ok hcontent hread
      · exact parseWithin_of_ok hcontent hread'

theorem same_of_closed (h : EndsAlike s s')
    (hclosed : (s.prepend ts).kind = .dedent ∨ (s.prepend ts).kind = .endOfFile) (limit limit' : Nat) :
    Same (parseWithin limit) (parseWithin limit') s s' ts := by
  have hclosed' := h.lineStops.kind_prepend ts ▸ hclosed
  exact ⟨ts, [], [], List.suffix_refl ts, parseWithin_of_closed hclosed limit,
    parseWithin_of_closed hclosed' limit'⟩

/-- A block is read alike up to where it stops, with all bounds that suffice for the tokens. -/
theorem parseWithin_same_end (h : EndsAlike s s') (hlimit : ts.length ≤ limit) (hlimit' : ts.length ≤ limit') :
    Same (parseWithin limit) (parseWithin limit') s s' ts := by
  induction limit generalizing limit' ts with
  | zero =>
    obtain rfl : ts = [] := List.eq_nil_of_length_eq_zero (by omega)
    have hclosed : (s.prepend []).kind = .endOfFile := h.kind_eq
    exact same_of_closed h (.inr hclosed) 0 limit'
  | succ limit ih =>
    by_cases hclosed : (s.prepend ts).kind = .dedent ∨ (s.prepend ts).kind = .endOfFile
    · exact same_of_closed h hclosed (limit + 1) limit'
    obtain ⟨hdedent, hend⟩ := not_or.1 hclosed
    obtain ⟨t, ts, rfl⟩ := h.exists_cons hend rfl
    simp only [List.length_cons] at hlimit hlimit'
    obtain ⟨limit', rfl⟩ : ∃ n, limit' = n + 1 := ⟨limit' - 1, by omega⟩
    obtain ⟨left, ss, es, hleft, hstep, hstep'⟩ := readsTo_end h t ts hdedent hend
    have hle := hleft.length_le
    obtain ⟨rest, ss', es', hrest, hread, hread'⟩ := ih (by omega) (show left.length ≤ limit' by omega)
    refine ⟨rest, ss ++ ss', es ++ es', (hrest.trans hleft).trans (List.suffix_cons t ts), ?_, ?_⟩
    · rw [hstep, hread]
      rfl
    · rw [hstep', hread']
      rfl

theorem ofNode_same_end (h : EndsAlike s s') (ts : List Token) : Same ofNode ofNode s s' ts := by
  by_cases hindent : (s.prepend ts).kind = .indent
  · have hindent' : (s'.prepend ts).kind = .indent := h.lineStops.kind_prepend ts ▸ hindent
    obtain ⟨t, ts, rfl⟩ := h.exists_cons (by decide) hindent
    have ht : t.kind ≠ .endOfFile := by rw [show t.kind = .indent from hindent]; decide
    have hlength (u : TokenStream) : ts.length ≤ (u.prepend ts).tokens.length :=
      (List.length_append ▸ Nat.le_add_right ..)
    obtain ⟨rest, ss, es, hrest, hread, hread'⟩ := parseWithin_same_end h (hlength s) (hlength s')
    refine ⟨rest, ss, es, hrest.trans (List.suffix_cons t ts), ?_, ?_⟩
    · rw [ofNode, if_pos hindent, advance_prepend ht]
      exact hread
    · rw [ofNode, if_pos hindent', advance_prepend ht]
      exact hread'
  · have hindent' : (s'.prepend ts).kind ≠ .indent := h.lineStops.kind_prepend ts ▸ hindent
    exact ⟨ts, [], [], List.suffix_refl ts, if_neg hindent, if_neg hindent'⟩

end Block

namespace Parser

/-- Two parsers that have recorded the same errors, with the same tokens in front of two ends. -/
inductive Twins (s s' : TokenStream) : Parser → Parser → Prop
  | intro (ts : List Token) (errors : List ScriptError) :
      Twins s s' ⟨s.prepend ts, errors⟩ ⟨s'.prepend ts, errors⟩

namespace Twins

variable {p p' : Parser}

theorem errors_eq (h : Twins s s' p p') : p.errors = p'.errors := by
  cases h
  rfl

theorem kind_eq (hs : EndsAlike s s') (h : Twins s s' p p') : p.stream.kind = p'.stream.kind := by
  obtain ⟨ts, errors⟩ := h
  exact hs.lineStops.kind_prepend ts

theorem skip (hs : EndsAlike s s') (h : Twins s s' p p') : Twins s s' p.skip p'.skip := by
  obtain ⟨ts, errors⟩ := h
  obtain ⟨rest, -, hskip, hskip'⟩ := exists_skipNewlines (.inr hs.kind_eq) (.inr hs.kind_eq') ts
  rw [Parser.skip, Parser.skip, hskip, hskip']
  exact .intro rest errors

theorem recover (hs : EndsAlike s s') (h : Twins s s' p p') (e : ScriptError) :
    Twins s s' (p.recover e) (p'.recover e) := by
  obtain ⟨ts, errors⟩ := h
  obtain ⟨rest, -, hskip, hskip'⟩ := exists_skipToNode (.inr hs.kind_eq) (.inr hs.kind_eq') ts
  rw [Parser.recover, Parser.recover, hskip, hskip']
  exact .intro rest _

theorem node (hs : EndsAlike s s') (h : Twins s s' p p') {r : Except ScriptError Node} {after : Parser}
    (hnode : p.node = (r, after)) : ∃ after', p'.node = (r, after') ∧ Twins s s' after after' := by
  obtain ⟨ts, errors⟩ := h
  obtain ⟨e | ⟨start, id⟩, rest, hrest, hheader, hheader'⟩ := Parse.nodeHeader_same_end hs ts
  · rw [Parser.node, hheader] at hnode
    obtain ⟨rfl, rfl⟩ := Prod.mk.inj hnode
    rw [Parser.node, hheader']
    exact ⟨_, rfl, .intro rest errors⟩
  · obtain ⟨left, ss, es, hleft, hblock, hblock'⟩ := Block.ofNode_same_end hs rest
    obtain ⟨footer, final, hfinal, hfooter, hfooter'⟩ :=
      Parse.nodeFooter_same_end hs id ((s.prepend rest).kind = .indent) left
    rw [node_of_nodeHeader hheader, hblock, hfooter] at hnode
    obtain ⟨rfl, rfl⟩ := Prod.mk.inj hnode
    rw [node_of_nodeHeader hheader', hblock', ← hs.lineStops.kind_prepend rest, hfooter']
    exact ⟨_, rfl, .intro final (errors ++ es)⟩

theorem nodes (hs : EndsAlike s s') (h : Twins s s' p p') :
    p.nodes.1 = p'.nodes.1 ∧ Twins s s' p.nodes.2 p'.nodes.2 := by
  -- on the tries of the first parser; the second one makes the same tries
  induction p using tries_induction generalizing p' with
  | endOfFile p hend =>
    have hskip := h.skip hs
    rw [nodes_of_endOfFile hend, nodes_of_endOfFile (hskip.kind_eq hs ▸ hend)]
    exact ⟨rfl, hskip⟩
  | node p n after hend hnode ih =>
    have hskip := h.skip hs
    obtain ⟨after', hnode', hafter⟩ := hskip.node hs hnode
    obtain ⟨hnodes, hlast⟩ := ih hafter
    rw [nodes_of_node hend hnode, nodes_of_node (hskip.kind_eq hs ▸ hend) hnode', hnodes]
    exact ⟨rfl, hlast⟩
  | error p e after hend hnode ih =>
    have hskip := h.skip hs
    obtain ⟨after', hnode', hafter⟩ := hskip.node hs hnode
    rw [nodes_of_error hend hnode, nodes_of_error (hskip.kind_eq hs ▸ hend) hnode']
    exact ih (hafter.recover hs e)

end Twins

end Parser

/-- All that there is to be read in a script: its nodes, and the errors on the way through it. -/
def nodesAndErrors (ts : List Token) : List Node × List ScriptError :=
  ((Parser.ofTokens ts).nodes.1, (Parser.ofTokens ts).nodes.2.errors)

theorem parse_congr {ts₁ ts₂ : List Token} (h : nodesAndErrors ts₁ = nodesAndErrors ts₂) :
    parse ts₁ = parse ts₂ := by
  obtain ⟨hnodes, herrors⟩ := Prod.mk.inj h
  rw [parse, parse]
  dsimp only
  rw [hnodes, herrors]

theorem nodesAndErrors_eq (hs : EndsAlike s s') (ts : List Token) {ts₁ ts₂ : List Token}
    (h₁ : ofTokens ts₁ = s.prepend ts) (h₂ : ofTokens ts₂ = s'.prepend ts) :
    nodesAndErrors ts₁ = nodesAndErrors ts₂ := by
  obtain ⟨hnodes, hlast⟩ := Parser.Twins.nodes hs (.intro ts [])
  rw [nodesAndErrors, nodesAndErrors, Parser.ofTokens, Parser.ofTokens, h₁, h₂, hnodes, hlast.errors_eq]

theorem nodesAndErrors_append_endOfFile {ts : List Token} {e : Token} (he : e.kind = .endOfFile)
    (hstart : e.span.start = (ofTokens ts).finish) : nodesAndErrors ts = nodesAndErrors (ts ++ [e]) := by
  have hends : EndsAlike ⟨[], (ofTokens ts).finish⟩ ⟨[e], e.span.stop⟩ := ⟨rfl, .inr ⟨rfl, he, hstart.symm⟩⟩
  apply nodesAndErrors_eq hends ts
  · simp [ofTokens, prepend]
  · simp [ofTokens, prepend]

theorem nodesAndErrors_behind_endOfFile (ts₁ ts₂ : List Token) {e : Token} (he : e.kind = .endOfFile) :
    nodesAndErrors (ts₁ ++ [e] ++ ts₂) = nodesAndErrors (ts₁ ++ [e]) := by
  have hends : EndsAlike ⟨e :: ts₂, (ofTokens (ts₁ ++ [e] ++ ts₂)).finish⟩ ⟨[e], e.span.stop⟩ :=
    ⟨he, .refl e⟩
  apply nodesAndErrors_eq hends ts₁
  · simp [ofTokens, prepend]
  · simp [ofTokens, prepend]

/-- The stream ends where its first end of the file is. An end of the file behind the last token, at the place
where this token stops, or at the start of an empty script, makes no difference; nor does anything that comes
behind an end of the file. Both hold for the nodes and the errors, even where errors leave no program. -/
theorem parse_stops_at_endOfFile :
    (∀ (ts : List Token) (e : Token), e.kind = .endOfFile →
      e.span.start = (ts.getLast?.map (·.span.stop)).getD ⟨1, 1⟩ →
        parse ts = parse (ts ++ [e]) ∧ nodesAndErrors ts = nodesAndErrors (ts ++ [e])) ∧
    ∀ (ts₁ ts₂ : List Token) (e : Token), e.kind = .endOfFile →
      parse (ts₁ ++ [e] ++ ts₂) = parse (ts₁ ++ [e]) ∧
        nodesAndErrors (ts₁ ++ [e] ++ ts₂) = nodesAndErrors (ts₁ ++ [e]) := by
  constructor
  · intro ts e he hstart
    have hsame := nodesAndErrors_append_endOfFile he hstart
    exact ⟨parse_congr hsame, hsame⟩
  · intro ts₁ ts₂ e he
    have hsame := nodesAndErrors_behind_endOfFile ts₁ ts₂ he
    exact ⟨parse_congr hsame, hsame⟩

/-- A script that stops behind a `goto`, before its target and the end of its node. -/
def brokenOffTokens : List Token :=
  [⟨.nodeWord, "node", ⟨⟨1, 1⟩, ⟨1, 5⟩⟩⟩, ⟨.identifier, "a", ⟨⟨1, 6⟩, ⟨1, 7⟩⟩⟩,
    ⟨.newline, "\n", .point ⟨1, 7⟩⟩, ⟨.indent, "2", ⟨⟨2, 1⟩, ⟨2, 3⟩⟩⟩, ⟨.gotoWord, "goto", ⟨⟨2, 3⟩, ⟨2, 7⟩⟩⟩]

/-- The end of the file is given behind it or not, and once with the beginning of the node again behind that. -/
theorem parse_stops_at_endOfFile_brokenOff :
    parse brokenOffTokens = .error [⟨.unexpectedToken "':'" "end of file" none, ⟨2, 7⟩⟩,
      ⟨.unexpectedToken "end of indented block" "end of file" none, ⟨2, 7⟩⟩] ∧
    (parse brokenOffTokens = parse (brokenOffTokens ++ [.endOfFile ⟨2, 7⟩]) ∧
      nodesAndErrors brokenOffTokens = nodesAndErrors (brokenOffTokens ++ [.endOfFile ⟨2, 7⟩])) ∧
    parse (brokenOffTokens ++ [.endOfFile ⟨2, 7⟩] ++ brokenOffTokens) =
        parse (brokenOffTokens ++ [.endOfFile ⟨2, 7⟩]) ∧
      nodesAndErrors (brokenOffTokens ++ [.endOfFile ⟨2, 7⟩] ++ brokenOffTokens) =
        nodesAndErrors (brokenOffTokens ++ [.endOfFile ⟨2, 7⟩]) :=
  ⟨by decide +kernel, parse_stops_at_endOfFile.1 brokenOffTokens (.endOfFile ⟨2, 7⟩) rfl rfl,
    parse_stops_at_endOfFile.2 brokenOffTokens brokenOffTokens (.endOfFile ⟨2, 7⟩) rfl⟩

theorem TokenStream.prepend_tokens (s : TokenStream) : prepend s.tokens ⟨[], s.finish⟩ = s := by
  rw [prepend, List.append_nil]

theorem Parse.Same.eq_of_nil {α : Type} {p q : Parse α}
    (h : Same p q ⟨[], s.finish⟩ ⟨[], s.finish⟩ s.tokens) : p s = q s := by
  obtain ⟨r, rest, -, hread, hread'⟩ := h
  rw [prepend_tokens] at hread hread'
  exact hread.trans hread'.symm

theorem Parse.expressionWithin_eq {limit : Nat} (power : Precedence) (h : s.tokens.length < limit) :
    expressionWithin limit power s = expression power s :=
  show expressionWithin limit power s = expressionWithin (s.tokens.length + 1) power s from
    Same.eq_of_nil (expressionWithin_same (.of_eq rfl rfl) power h (Nat.lt_succ_self _))

theorem Parse.speech_eq {limit : Nat} (stop : Position) (h : s.tokens.length ≤ limit) :
    speech limit stop s = speech s.tokens.length stop s :=
  Same.eq_of_nil (speech_same (.of_eq rfl rfl) h (Nat.le_refl _))

theorem Block.parseWithin_eq {limit : Nat} (h : s.tokens.length ≤ limit) : parseWithin limit s = parse s := by
  have hends : EndsAlike ⟨[], s.finish⟩ ⟨[], s.finish⟩ := .refl rfl
  obtain ⟨rest, ss, es, -, hread, hread'⟩ := parseWithin_same_end hends h (Nat.le_refl _)
  rw [prepend_tokens] at hread hread'
  exact hread.trans hread'.symm

/-- No loop over these tokens is ended by its bound. Each of them stops where there is nothing more for it to read,
and with every larger bound it gives the same. -/
structure LoopsEnd (s : TokenStream) : Prop where
  expression : ∀ limit power, s.tokens.length < limit →
    Parse.expressionWithin limit power s = Parse.expression power s
  /-- Behind an expression stands no operator that belongs to it. -/
  expression_exit : ∀ power e rest, Parse.expression power s = (.ok e, rest) →
    ∀ operator, BinaryOperator.ofToken? rest.kind = some operator → operator.precedence.rank ≤ power.rank
  /-- The bounds on depth and arguments, if they were met, would be told of as a missing expression. -/
  missing_exit : ∀ power rest,
    Parse.expression power s = (.error (rest.unexpected "expression" none), rest) →
      Parse.startsExpression rest.kind = false
  speech : ∀ limit stop, s.tokens.length ≤ limit →
    Parse.speech limit stop s = Parse.speech s.tokens.length stop s
  speech_exit : ∀ stop text rest, Parse.speech s.tokens.length stop s = (.ok text, rest) →
    rest.kind ≠ .string ∧ rest.kind ≠ .placeholderStart
  block : ∀ limit, s.tokens.length ≤ limit → Block.parseWithin limit s = Block.parse s
  block_exit : (Block.parse s).rest.kind = .dedent ∨ (Block.parse s).rest.kind = .endOfFile
  nextNode : ∀ limit errors, s.tokens.length < limit →
    Parser.nextNodeWithin limit ⟨s, errors⟩ = Parser.nextNode ⟨s, errors⟩
  nextNode_exit : ∀ errors after, Parser.nextNode ⟨s, errors⟩ = (none, after) → after.stream.kind = .endOfFile
  nodes : ∀ limit errors, s.tokens.length < limit → Parser.nodesWithin limit ⟨s, errors⟩ = Parser.nodes ⟨s, errors⟩
  nodes_exit : ∀ errors, (Parser.nodes ⟨s, errors⟩).2.stream.kind = .endOfFile

theorem loopsEnd (s : TokenStream) : LoopsEnd s where
  expression _ power := Parse.expressionWithin_eq power
  expression_exit _ _ _ := Parse.rank_le_of_expression
  missing_exit power := (Parse.seeks_expression power).starts
  speech _ stop := Parse.speech_eq stop
  speech_exit _ _ _ := Parse.kind_speech (Nat.le_refl _)
  block _ := Block.parseWithin_eq
  block_exit := Block.kind_parseWithin (Nat.le_refl _)
  nextNode _ _ hlimit := Parser.nextNodeWithin_eq hlimit (Nat.lt_succ_self _)
  nextNode_exit _ _ := Parser.kind_nextNode
  nodes _ _ hlimit := Parser.nodesWithin_eq hlimit (Nat.lt_succ_self _)
  nodes_exit _ := Parser.kind_nodes _

def TokenStream.firstEnd (ts : List Token) : TokenStream :=
  ⟨ts.dropWhile (·.kind ≠ .endOfFile), (ofTokens ts).finish⟩

theorem TokenStream.kind_firstEnd (ts : List Token) : (firstEnd ts).kind = .endOfFile := by
  have hhead := List.head?_dropWhile_not (·.kind ≠ .endOfFile) ts
  unfold TokenStream.kind current firstEnd
  cases hdrop : ts.dropWhile (·.kind ≠ .endOfFile) with
  | nil => rfl
  | cons t rest =>
    rw [hdrop] at hhead
    simpa using hhead

theorem TokenStream.ofTokens_eq_prepend (ts : List Token) :
    ofTokens ts = (firstEnd ts).prepend (ts.takeWhile (·.kind ≠ .endOfFile)) := by
  rw [prepend, firstEnd, List.takeWhile_append_dropWhile]
  rfl

/-- What stands behind the end of the file does not pay for anything: the same is read where the stream just
stops there. -/
theorem Parser.length_nodes_le (hs : s.kind = .endOfFile) (ts : List Token) (errors : List ScriptError) :
    (nodes ⟨s.prepend ts, errors⟩).1.length + (nodes ⟨s.prepend ts, errors⟩).2.errors.length ≤
      errors.length + ts.length := by
  have hends : EndsAlike s ⟨[], s.current.span.start⟩ := ⟨hs, .inr ⟨hs, rfl, rfl⟩⟩
  obtain ⟨hnodes, hlast⟩ := Twins.nodes hends (.intro ts errors)
  have hload := load_nodes ⟨TokenStream.prepend ts ⟨[], s.current.span.start⟩, errors⟩
  have hfront : load ⟨TokenStream.prepend ts ⟨[], s.current.span.start⟩, errors⟩ =
      errors.length + ts.length := by
    rw [load, prepend, List.append_nil]
  rw [hnodes, hlast.errors_eq, ← hfront]
  exact (Nat.add_le_add_left (Nat.le_add_right _ _) _).trans hload

/-- Whatever the tokens are, the loop over the nodes reaches the end of the file. Before that, there are no more
nodes and errors together than tokens in front of the end of the file, and behind it there are none. No loop is
ended by its bound on the way, those inside included. -/
theorem nodes_make_progress (ts : List Token) :
    (Parser.ofTokens ts).nodes.2.stream.kind = .endOfFile ∧
      (Parser.ofTokens ts).nodes.1.length + (Parser.ofTokens ts).nodes.2.errors.length ≤
        (ts.takeWhile (·.kind ≠ .endOfFile)).length ∧
      (Parser.ofTokens ts).nodes.2.nodes = ([], (Parser.ofTokens ts).nodes.2) ∧
      ∀ s, LoopsEnd s := by
  have hkind := (Parser.ofTokens ts).kind_nodes
  refine ⟨hkind, ?_, Parser.nodes_of_kind hkind, loopsEnd⟩
  have hlength := Parser.length_nodes_le (kind_firstEnd ts) (ts.takeWhile (·.kind ≠ .endOfFile)) []
  rwa [← ofTokens_eq_prepend, List.length_nil, Nat.zero_add] at hlength

end DialogueScript
