import DialogueScript.Proofs.NodeRecovery

namespace DialogueScript

namespace TokenStream

variable {s rest : TokenStream}

/-- Behind a broken statement the rest of its line is passed, and at least the token that the line begins with. -/
theorem leftOf_skipStatement (hkind : s.kind.isContent = true) (h : rest.LeftOf s) :
    rest.skipStatement.LeftOf s.advance := by
  have hend : s.kind ≠ .endOfFile := TokenKind.ne_endOfFile hkind
  obtain ⟨t, more, htokens, ht⟩ := s.exists_tokens hend
  refine ⟨?_, by rw [advance, if_neg hend]; exact h.finish_eq⟩
  have hadvance : s.advance.tokens = more := by rw [advance, if_neg hend, htokens, List.tail_cons]
  have hsuffix : rest.tokens <:+ t :: more := htokens ▸ h.suffix
  rw [hadvance]
  rcases List.suffix_cons_iff.1 hsuffix with hnone | hmore
  -- nothing of the statement was taken, so that it is the token itself that is passed over
  · rw [skipStatement, hnone, afterLine]
    split
    case h_5 => exact afterLine_suffix 0 more
    all_goals rename_i hlayout; rw [← ht, hlayout] at hkind; cases hkind
  · exact (afterLine_suffix 0 _).trans hmore

theorem leftOf_skipBlock (h : s.kind = .indent) : s.skipBlock.LeftOf s.advance := by
  have hend : s.kind ≠ .endOfFile := by rw [h]; decide
  obtain ⟨t, more, htokens, ht⟩ := s.exists_tokens hend
  rw [advance, if_neg hend]
  refine ⟨?_, rfl⟩
  rw [skipBlock, htokens, afterBlock, ht.trans h]
  exact afterBlock_suffix 1 more

end TokenStream

open TokenStream

theorem Parse.leftOf_statement {s rest : TokenStream} {st : Statement} (h : statement s = (.ok st, rest)) :
    rest.LeftOf s.advance := by
  have hleft := leaves_statement s
  rw [h] at hleft
  unfold TokenStream.advance
  split
  · exact hleft
  · refine ⟨?_, hleft.finish_eq⟩
    obtain ⟨ts, finish⟩ := s
    obtain ⟨more, rfl, hline⟩ := statement_sound h
    have hlt : more.length < ts.length := hline.length_lt
    cases ts with
    | nil => exact absurd hlt (Nat.not_lt_zero _)
    | cons t ts =>
      rcases List.suffix_cons_iff.1 hleft.suffix with hnone | hmore
      · exact absurd hlt (by rw [show more = t :: ts from hnone]; exact Nat.lt_irrefl _)
      · exact hmore

namespace Block

/-- Each error in a block takes at least one token off the stream. -/
theorem length_parseWithin (limit : Nat) (s : TokenStream) :
    (parseWithin limit s).errors.length + (parseWithin limit s).rest.tokens.length ≤ s.tokens.length := by
  induction limit generalizing s with
  | zero => exact (Nat.zero_add _).le
  | succ limit ih =>
    unfold parseWithin
    split
    case h_1 | h_2 => exact (Nat.zero_add _).le
    case h_3 hnewline =>
      have hlt : s.advance.tokens.length < s.tokens.length := length_advance (by rw [hnewline]; decide)
      exact (ih s.advance).trans hlt.le
    case h_4 hindent =>
      have hlt : s.advance.tokens.length < s.tokens.length := length_advance (by rw [hindent]; decide)
      have hle := (leftOf_skipBlock hindent).length_le
      have hrest := ih s.skipBlock
      simp only [addError, List.length_cons]
      omega
    case h_5 hdedent hend hnewline hindent =>
      have hcontent : s.kind.isContent = true := TokenKind.isContent_of_ne hdedent hend hnewline hindent
      have hleft := Parse.leaves_statement s
      rcases hread : Parse.statement s with ⟨e | st, rest⟩ <;> rw [hread] at hleft
      · have hlt := length_advance hend
        have hle := (leftOf_skipStatement hcontent hleft).length_le
        have hrest := ih rest.skipStatement
        simp only [addError, List.length_cons] at hle hrest ⊢
        omega
      · exact (ih rest).trans hleft.length_le

def ofNode (s : TokenStream) : Block := if s.kind = .indent then parse s.advance else ⟨[], [], s⟩

theorem length_ofNode (s : TokenStream) :
    (ofNode s).errors.length + (ofNode s).rest.tokens.length ≤ s.tokens.length := by
  unfold ofNode
  split
  · exact (length_parseWithin _ _).trans (leftOf_advance s).length_le
  · exact (Nat.zero_add _).le

end Block

namespace Parser

variable {p after : Parser} {n : Node} {e : ScriptError}

/-- What a parser has recorded, and what it can still take. -/
def load (p : Parser) : Nat := p.errors.length + p.stream.tokens.length

theorem node_of_nodeHeader {start : Position} {id : String} {u : TokenStream}
    (h : Parse.nodeHeader p.stream = (.ok (start, id), u)) :
    p.node = ((Parse.nodeFooter id (u.kind = .indent) (Block.ofNode u).rest).1.map
        fun stop => ⟨id, (Block.ofNode u).statements, ⟨start, stop⟩⟩,
      ⟨(Parse.nodeFooter id (u.kind = .indent) (Block.ofNode u).rest).2,
        p.errors ++ (Block.ofNode u).errors⟩) := by
  have hblock : (if decide (u.kind = .indent) = true then Block.parse u.advance else ⟨[], [], u⟩) =
      Block.ofNode u := by
    simp only [decide_eq_true_eq, Block.ofNode]
  rw [node, h]
  dsimp only
  rw [hblock]
  rcases Parse.nodeFooter id (u.kind = .indent) (Block.ofNode u).rest with ⟨_ | _, _⟩ <;> rfl

/-- Errors inside a node are paid for inside of it, so that the word that it begins with is left to pay for
the node or for an error in its frame. -/
theorem load_node {r : Except ScriptError Node} (hkind : p.stream.kind = .nodeWord)
    (h : p.node = (r, after)) : after.load < p.load := by
  have hword : p.stream.advance.tokens.length < p.stream.tokens.length :=
    length_advance (by rw [hkind]; decide)
  have hheader := Parse.leftOf_nodeHeader hkind
  rcases hread : Parse.nodeHeader p.stream with ⟨e | ⟨start, id⟩, u⟩ <;> rw [hread] at hheader
  · rw [node, hread] at h
    obtain ⟨-, rfl⟩ := Prod.mk.inj h
    exact Nat.add_lt_add_left (Nat.lt_of_le_of_lt hheader.length_le hword) _
  · rw [node_of_nodeHeader hread] at h
    obtain ⟨-, rfl⟩ := Prod.mk.inj h
    have hle := hheader.length_le
    have hblock := Block.length_ofNode u
    have hfooter := (Parse.leaves_nodeFooter id (u.kind = .indent) (Block.ofNode u).rest).length_le
    simp only [load, List.length_append] at hle ⊢
    omega

theorem load_recover (hend : p.stream.kind ≠ .endOfFile) (h : p.node = (.error e, after)) :
    (after.recover e).load ≤ p.load := by
  have hlt := length_skipToNode hend h
  by_cases hkind : p.stream.kind = .nodeWord
  · have hload := load_node hkind h
    have hle := (leftOf_skipToNode after.stream).length_le
    simp only [recover, load, List.length_append, List.length_singleton] at hload ⊢
    omega
  · obtain ⟨e', hnode⟩ := node_of_ne hkind
    obtain rfl : after = p := congrArg Prod.snd (h.symm.trans hnode)
    simp only [recover, load, List.length_append, List.length_singleton]
    omega

theorem load_skip (p : Parser) : p.skip.load ≤ p.load := Nat.add_le_add_left p.length_skip _

theorem kind_of_node (h : p.node = (.ok n, after)) : p.stream.kind = .nodeWord := by
  by_contra hkind
  obtain ⟨e, hnode⟩ := node_of_ne hkind
  rw [h] at hnode
  cases hnode

/-- All the nodes that are read, and all the errors that are recorded on the way, are paid for with tokens. -/
theorem load_nodes (p : Parser) : p.nodes.1.length + p.nodes.2.load ≤ p.load := by
  induction p using tries_induction with
  | endOfFile p hend =>
    rw [nodes_of_endOfFile hend]
    exact (Nat.zero_add _).trans_le p.load_skip
  | node p n after hend hnode ih =>
    have hload := load_node (kind_of_node hnode) hnode
    have hskip := p.load_skip
    rw [nodes_of_node hend hnode]
    simp only [List.length_cons]
    omega
  | error p e after hend hnode ih =>
    rw [nodes_of_error hend hnode]
    exact ih.trans ((load_recover hend hnode).trans p.load_skip)

/-- The loop over the nodes stops at the end of the file and nowhere else. -/
theorem kind_nodes (p : Parser) : p.nodes.2.stream.kind = .endOfFile := by
  induction p using tries_induction with
  | endOfFile p hend => rwa [nodes_of_endOfFile hend]
  | node p n after hend hnode ih => rwa [nodes_of_node hend hnode]
  | error p e after hend hnode ih => rwa [nodes_of_error hend hnode]

theorem nodes_of_kind (h : p.stream.kind = .endOfFile) : p.nodes = ([], p) := by
  have hnode : p.stream.AtNode := .inr h
  have hskip : p.skip = p := congrArg (Parser.mk · p.errors) hnode.skipNewlines
  rw [nodes_of_endOfFile (hskip.symm ▸ h), hskip]

end Parser

end DialogueScript
