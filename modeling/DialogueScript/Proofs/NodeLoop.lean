import DialogueScript.Proofs.BlockRecovery
import DialogueScript.Proofs.ProgramParsing

namespace DialogueScript

namespace TokenStream

/-- `rest` is what is left of `s` behind some of its tokens. -/
structure LeftOf (rest s : TokenStream) : Prop where
  suffix : rest.tokens <:+ s.tokens
  finish_eq : rest.finish = s.finish

namespace LeftOf

variable {s mid rest : TokenStream}

theorem refl (s : TokenStream) : LeftOf s s := ⟨List.suffix_refl _, rfl⟩

theorem trans (h : LeftOf rest mid) (h' : LeftOf mid s) : LeftOf rest s :=
  ⟨h.suffix.trans h'.suffix, h.finish_eq.trans h'.finish_eq⟩

theorem length_le (h : LeftOf rest s) : rest.tokens.length ≤ s.tokens.length := h.suffix.length_le

end LeftOf

theorem leftOf_prepend {s : TokenStream} {ts rest : List Token} (h : rest <:+ ts) :
    LeftOf (s.prepend rest) (s.prepend ts) := by
  obtain ⟨passed, rfl⟩ := h
  exact ⟨⟨passed, by simp [prepend]⟩, rfl⟩

theorem leftOf_advance (s : TokenStream) : LeftOf s.advance s := by
  unfold advance
  split
  · exact .refl s
  · exact ⟨List.tail_suffix _, rfl⟩

theorem afterBlock_suffix (depth : Nat) (ts : List Token) : afterBlock depth ts <:+ ts := by
  induction ts generalizing depth with
  | nil => exact List.suffix_refl _
  | cons t ts ih =>
    unfold afterBlock
    split
    · exact (ih _).trans (List.suffix_cons t ts)
    · split
      · exact List.suffix_cons t ts
      · exact (ih _).trans (List.suffix_cons t ts)
    · exact List.suffix_refl _
    · exact (ih _).trans (List.suffix_cons t ts)

theorem afterLine_suffix (depth : Nat) (ts : List Token) : afterLine depth ts <:+ ts := by
  induction ts generalizing depth with
  | nil => exact List.suffix_refl _
  | cons t ts ih =>
    unfold afterLine
    split
    · exact (ih _).trans (List.suffix_cons t ts)
    · split
      · exact List.suffix_refl _
      · exact (ih _).trans (List.suffix_cons t ts)
    · split
      · exact List.suffix_cons t ts
      · exact (ih _).trans (List.suffix_cons t ts)
    · exact List.suffix_refl _
    · exact (ih _).trans (List.suffix_cons t ts)

theorem leftOf_skipNewlines (s : TokenStream) : LeftOf s.skipNewlines s := ⟨List.dropWhile_suffix _, rfl⟩

theorem leftOf_skipToNode (s : TokenStream) : LeftOf s.skipToNode s := ⟨List.dropWhile_suffix _, rfl⟩

theorem length_advance {s : TokenStream} (h : s.kind ≠ .endOfFile) :
    s.advance.tokens.length < s.tokens.length := by
  obtain ⟨t, rest, htokens, -⟩ := s.exists_tokens h
  rw [advance, if_neg h, htokens]
  exact Nat.lt_succ_self _

theorem skipToNode_of_ne {s : TokenStream} (hword : s.kind ≠ .nodeWord) (hend : s.kind ≠ .endOfFile) :
    s.skipToNode = s.advance.skipToNode := by
  obtain ⟨t, rest, htokens, ht⟩ := s.exists_tokens hend
  rw [advance, if_neg hend, skipToNode, htokens]
  exact congrArg (TokenStream.mk · s.finish)
    (List.dropWhile_cons_of_pos (by rw [ht]; simpa using ⟨hword, hend⟩))

end TokenStream

open TokenStream

namespace Parse

variable {α β : Type}

/-- The parser only takes tokens off the front of the stream. -/
def Leaves (p : Parse α) : Prop := ∀ s, (p s).2.LeftOf s

theorem leaves_pure (a : α) : Leaves (pure a : Parse α) := fun s => .refl s

theorem leaves_unexpected (what : String) (hint : Option String) :
    Leaves (unexpected what hint : Parse α) := fun s => .refl s

theorem leaves_current : Leaves current := fun s => .refl s

theorem leftOf_bind {p : Parse α} {f : α → Parse β} {s u : TokenStream} (hp : (p s).2.LeftOf u)
    (hf : ∀ a, Leaves (f a)) : ((p >>= f) s).2.LeftOf u := by
  rcases hread : p s with ⟨_ | a, mid⟩ <;> rw [hread] at hp
  · rw [bind_of_error hread]
    exact hp
  · rw [bind_of_ok hread]
    exact (hf a mid).trans hp

theorem leaves_bind {p : Parse α} {f : α → Parse β} (hp : Leaves p) (hf : ∀ a, Leaves (f a)) :
    Leaves (p >>= f) :=
  fun s => leftOf_bind (hp s) hf

theorem leaves_expectAs (kind : TokenKind) (what : String) (hint : Option String) :
    Leaves (expectAs kind what hint) := by
  intro s
  unfold expectAs
  split
  · exact leftOf_advance s
  · exact .refl s

theorem leaves_expectName (what : String) : Leaves (expectName what) := by
  refine leaves_bind leaves_current fun token => ?_
  split
  · exact leaves_unexpected _ _
  · exact leaves_expectAs _ _ _

/-- A statement only takes tokens of its line, as this line decides what it is. -/
theorem leaves_statement : Leaves statement := by
  intro ⟨ts, finish⟩
  have hend : LineStops ⟨[], finish⟩ ⟨[], finish⟩ := .of_eq rfl rfl
  obtain ⟨content, more, rfl, hcontent, hstop⟩ := hend.exists_line ts
  rw [show prepend more ⟨[], finish⟩ = ⟨more, finish⟩ by simp [prepend]] at hstop
  change (statement (prepend content ⟨more, finish⟩)).2.LeftOf (prepend content ⟨more, finish⟩)
  rcases statement_same hcontent hstop with ⟨e, rest, hrest, hread, -⟩ | ⟨-, st, hread, -⟩ <;> rw [hread]
  · exact leftOf_prepend hrest
  · exact (leftOf_advance _).trans (leftOf_prepend (s := ⟨more, finish⟩) List.nil_suffix)

theorem leaves_nodeFooter (id : String) (hasBlock : Bool) : Leaves (nodeFooter id hasBlock) := by
  have hend : Leaves (nodeFooter id false) := leaves_bind (leaves_expectAs _ _ _) fun _ => leaves_pure _
  cases hasBlock with
  | false => exact hend
  | true => exact leaves_bind (p := expect .dedent) (leaves_expectAs _ _ _) fun _ => hend

end Parse

namespace Block

theorem leftOf_parseWithin (limit : Nat) (s : TokenStream) : (parseWithin limit s).rest.LeftOf s := by
  induction limit generalizing s with
  | zero => exact .refl s
  | succ limit ih =>
    unfold parseWithin
    split
    · exact .refl s
    · exact .refl s
    · exact (ih _).trans (leftOf_advance s)
    · exact (ih s.skipBlock).trans ⟨afterBlock_suffix 0 s.tokens, rfl⟩
    · have hstatement := Parse.leaves_statement s
      split <;> rename_i hread <;> rw [hread] at hstatement
      · exact (ih _).trans hstatement
      · exact (ih (TokenStream.skipStatement _)).trans (.trans ⟨afterLine_suffix 0 _, rfl⟩ hstatement)

end Block

namespace Parse

def nodeBlock : Parse (Bool × List Statement) := fun s =>
  if s.kind = .indent then (.ok (true, (Block.parse s.advance).statements), (Block.parse s.advance).rest)
  else (.ok (false, []), s)

/-- A node, without the errors in its block. -/
def node : Parse Node := do
  let (start, id) ← nodeHeader
  let (hasBlock, statements) ← nodeBlock
  let stop ← nodeFooter id hasBlock
  return ⟨id, statements, ⟨start, stop⟩⟩

theorem leaves_nodeBlock : Leaves nodeBlock := by
  intro s
  unfold nodeBlock
  split
  · exact (Block.leftOf_parseWithin _ _).trans (leftOf_advance s)
  · exact .refl s

theorem leftOf_nodeHeader {s : TokenStream} (h : s.kind = .nodeWord) : (nodeHeader s).2.LeftOf s.advance := by
  have hword : (expectAs .nodeWord "'node'" (some "scripts are made of `node <name> ... end` blocks") s).2 =
      s.advance := congrArg Prod.snd (if_pos h)
  exact leftOf_bind (hword ▸ .refl _) fun _ => leaves_bind (leaves_expectName _) fun _ =>
    leaves_bind (leaves_expectAs _ _ _) fun _ => leaves_pure _

theorem leftOf_node {s : TokenStream} (h : s.kind = .nodeWord) : (node s).2.LeftOf s.advance :=
  leftOf_bind (leftOf_nodeHeader h) fun _ => leaves_bind leaves_nodeBlock fun _ =>
    leaves_bind (leaves_nodeFooter _ _) fun _ => leaves_pure _

end Parse

namespace Parser

theorem node_eq (p : Parser) : Parse.node p.stream = (p.node.1, p.node.2.stream) := by
  unfold Parse.node node
  rcases hheader : Parse.nodeHeader p.stream with ⟨e | ⟨start, id⟩, u⟩
  · exact Parse.bind_of_error hheader
  refine (Parse.bind_of_ok hheader).trans ?_
  have hblock : Parse.nodeBlock u = (.ok (decide (u.kind = .indent),
      (if decide (u.kind = .indent) = true then Block.parse u.advance else ⟨[], [], u⟩).statements),
      (if decide (u.kind = .indent) = true then Block.parse u.advance else ⟨[], [], u⟩).rest) := by
    unfold Parse.nodeBlock
    by_cases hkind : u.kind = .indent <;> simp [hkind]
  refine (Parse.bind_of_ok hblock).trans ?_
  dsimp only
  rcases hfooter : Parse.nodeFooter id _ _ with ⟨e | stop, v⟩
  · exact Parse.bind_of_error hfooter
  · exact Parse.bind_of_ok hfooter

theorem node_of_ne {p : Parser} (h : p.stream.kind ≠ .nodeWord) : ∃ e, p.node = (.error e, p) := by
  have hread : Parse.nodeHeader p.stream = (.error _, p.stream) := Parse.bind_of_error (if_neg h)
  exact ⟨_, by rw [node, hread]⟩

theorem leftOf_node (p : Parser) : p.node.2.stream.LeftOf p.stream := by
  by_cases hkind : p.stream.kind = .nodeWord
  · have hleft := Parse.leftOf_node hkind
    rw [node_eq] at hleft
    exact hleft.trans (leftOf_advance _)
  · obtain ⟨e, hnode⟩ := node_of_ne hkind
    rw [hnode]
    exact .refl _

variable {p after : Parser} {n : Node} {e : ScriptError} {limit limit' : Nat}

theorem length_node (h : p.node = (.ok n, after)) : after.stream.tokens.length < p.stream.tokens.length := by
  by_cases hkind : p.stream.kind = .nodeWord
  · have hleft := Parse.leftOf_node hkind
    rw [node_eq, h] at hleft
    exact Nat.lt_of_le_of_lt hleft.length_le (length_advance (by rw [hkind]; decide))
  · obtain ⟨e, hnode⟩ := node_of_ne hkind
    rw [h] at hnode
    cases hnode

/-- Behind a try that failed, the way to the next node is shorter than the way was before. -/
theorem length_skipToNode (hend : p.stream.kind ≠ .endOfFile) (h : p.node = (.error e, after)) :
    after.stream.skipToNode.tokens.length < p.stream.tokens.length := by
  by_cases hkind : p.stream.kind = .nodeWord
  · have hleft := (leftOf_skipToNode _).trans (Parse.leftOf_node hkind)
    rw [node_eq, h] at hleft
    exact Nat.lt_of_le_of_lt hleft.length_le (length_advance hend)
  · obtain ⟨e', hnode⟩ := node_of_ne hkind
    rw [h] at hnode
    obtain rfl : after = p := (Prod.mk.inj hnode).2
    rw [skipToNode_of_ne hkind hend]
    exact Nat.lt_of_le_of_lt (leftOf_skipToNode _).length_le (length_advance hend)

def skip (p : Parser) : Parser := { p with stream := p.stream.skipNewlines }

/-- The parser behind a failed try, with the error recorded, at the next node. -/
def recover (p : Parser) (e : ScriptError) : Parser := ⟨p.stream.skipToNode, p.errors ++ [e]⟩

theorem length_skip (p : Parser) : p.skip.stream.tokens.length ≤ p.stream.tokens.length :=
  (leftOf_skipNewlines p.stream).length_le

theorem length_recover (hend : p.skip.stream.kind ≠ .endOfFile) (h : p.skip.node = (.error e, after)) :
    (after.recover e).stream.tokens.length < p.stream.tokens.length :=
  Nat.lt_of_lt_of_le (length_skipToNode hend h) p.length_skip

theorem nextNodeWithin_succ (limit : Nat) (p : Parser) : nextNodeWithin (limit + 1) p =
    if p.skip.stream.kind = .endOfFile then (none, p.skip) else
      match p.skip.node with
      | (.ok n, after) => (some n, after)
      | (.error e, after) => nextNodeWithin limit (after.recover e) := rfl

theorem nextNodeWithin_eq (h : p.stream.tokens.length < limit) (h' : p.stream.tokens.length < limit') :
    nextNodeWithin limit p = nextNodeWithin limit' p := by
  induction limit generalizing p limit' with
  | zero => omega
  | succ limit ih =>
    obtain ⟨limit', rfl⟩ : ∃ n, limit' = n + 1 := ⟨limit' - 1, by omega⟩
    rw [nextNodeWithin_succ, nextNodeWithin_succ]
    split
    · rfl
    · rename_i hend
      split
      · rfl
      · rename_i e after hnode
        have hlt := length_recover hend hnode
        exact ih (by omega) (by omega)

theorem nextNode_of_endOfFile (h : p.skip.stream.kind = .endOfFile) : p.nextNode = (none, p.skip) := by
  rw [nextNode, nextNodeWithin_succ, if_pos h]

theorem nextNode_of_node (hend : p.skip.stream.kind ≠ .endOfFile) (h : p.skip.node = (.ok n, after)) :
    p.nextNode = (some n, after) := by
  rw [nextNode, nextNodeWithin_succ, if_neg hend, h]

theorem nextNode_of_error (hend : p.skip.stream.kind ≠ .endOfFile) (h : p.skip.node = (.error e, after)) :
    p.nextNode = (after.recover e).nextNode := by
  have hlt := length_recover hend h
  rw [nextNode, nextNodeWithin_succ, if_neg hend, h]
  exact nextNodeWithin_eq (by omega) (by omega)

/-- Induction on the tries. -/
theorem tries_induction {motive : Parser → Prop}
    (endOfFile : ∀ p, p.skip.stream.kind = .endOfFile → motive p)
    (node : ∀ p n after, p.skip.stream.kind ≠ .endOfFile → p.skip.node = (.ok n, after) → motive after →
      motive p)
    (error : ∀ p e after, p.skip.stream.kind ≠ .endOfFile → p.skip.node = (.error e, after) →
      motive (after.recover e) → motive p)
    (p : Parser) : motive p := by
  -- every try takes something off the stream, and so does going on to the next node behind one that failed
  induction hlength : p.stream.tokens.length using Nat.strong_induction_on generalizing p with
  | _ length ih =>
    subst hlength
    by_cases hend : p.skip.stream.kind = .endOfFile
    · exact endOfFile p hend
    rcases hnode : p.skip.node with ⟨e | n, after⟩
    · exact error p e after hend hnode (ih _ (length_recover hend hnode) _ rfl)
    · have hlt := Nat.lt_of_lt_of_le (length_node hnode) p.length_skip
      exact node p n after hend hnode (ih _ hlt _ rfl)

theorem length_nextNode (h : p.nextNode = (some n, after)) :
    after.stream.tokens.length < p.stream.tokens.length := by
  induction p using tries_induction with
  | endOfFile p hend => rw [nextNode_of_endOfFile hend] at h; cases h
  | node p m after' hend hnode ih =>
    obtain ⟨rfl, rfl⟩ : m = n ∧ after' = after := by simpa [nextNode_of_node hend hnode] using h
    exact Nat.lt_of_lt_of_le (length_node hnode) p.length_skip
  | error p e after' hend hnode ih =>
    have hnext := ih (nextNode_of_error hend hnode ▸ h)
    exact hnext.trans (length_recover hend hnode)

theorem nodesWithin_eq (h : p.stream.tokens.length < limit) (h' : p.stream.tokens.length < limit') :
    nodesWithin limit p = nodesWithin limit' p := by
  induction limit generalizing p limit' with
  | zero => omega
  | succ limit ih =>
    obtain ⟨limit', rfl⟩ : ∃ n, limit' = n + 1 := ⟨limit' - 1, by omega⟩
    unfold nodesWithin
    split
    · rfl
    · rename_i n after hnext
      have hlt := length_nextNode hnext
      rw [ih (by omega) (show after.stream.tokens.length < limit' by omega)]

theorem nodes_of_endOfFile (h : p.skip.stream.kind = .endOfFile) : p.nodes = ([], p.skip) := by
  rw [nodes, nodesWithin, nextNode_of_endOfFile h]

theorem nodes_of_nextNode (h : p.nextNode = (some n, after)) : p.nodes = (n :: after.nodes.1, after.nodes.2) := by
  rw [nodes, nodesWithin, h]
  dsimp only
  rw [nodesWithin_eq (length_nextNode h) (Nat.lt_succ_self _)]
  rfl

theorem nodes_of_node (hend : p.skip.stream.kind ≠ .endOfFile) (h : p.skip.node = (.ok n, after)) :
    p.nodes = (n :: after.nodes.1, after.nodes.2) :=
  nodes_of_nextNode (nextNode_of_node hend h)

theorem nodes_of_error (hend : p.skip.stream.kind ≠ .endOfFile) (h : p.skip.node = (.error e, after)) :
    p.nodes = (after.recover e).nodes := by
  have hlt := length_recover hend h
  have hlimit : (after.recover e).nodes = nodesWithin (p.stream.tokens.length + 1) (after.recover e) :=
    nodesWithin_eq (Nat.lt_succ_self _) (by omega)
  rw [hlimit, nodes, nodesWithin, nodesWithin, nextNode_of_error hend h]

def behind (es : List ScriptError) (p : Parser) : Parser := { p with errors := es ++ p.errors }

theorem node_behind (es : List ScriptError) (p : Parser) :
    (p.behind es).node = (p.node.1, p.node.2.behind es) := by
  unfold node behind
  dsimp only
  split
  · rfl
  · rw [List.append_assoc]
    split <;> rfl

theorem nodes_behind (es : List ScriptError) (p : Parser) :
    (p.behind es).nodes = (p.nodes.1, p.nodes.2.behind es) := by
  induction p using tries_induction with
  | endOfFile p hend =>
    rw [nodes_of_endOfFile hend]
    exact nodes_of_endOfFile (p := p.behind es) hend
  | node p n after hend hnode ih =>
    have hnode' : (p.behind es).skip.node = (.ok n, after.behind es) :=
      (node_behind es p.skip).trans (by rw [hnode])
    rw [nodes_of_node hend hnode, nodes_of_node (p := p.behind es) hend hnode', ih]
  | error p e after hend hnode ih =>
    have hnode' : (p.behind es).skip.node = (.error e, after.behind es) :=
      (node_behind es p.skip).trans (by rw [hnode])
    have hrecover : (after.behind es).recover e = (after.recover e).behind es := by simp [recover, behind]
    rw [nodes_of_error hend hnode, nodes_of_error (p := p.behind es) hend hnode', hrecover, ih]

end Parser

namespace TokenStream

variable {s rest : TokenStream} {n : Node} {e : ScriptError}

def nodes (s : TokenStream) : List Node := (Parser.nodes ⟨s, []⟩).1

theorem nodes_stream (p : Parser) : p.stream.nodes = p.nodes.1 := by
  have hbehind := Parser.nodes_behind p.errors ⟨p.stream, []⟩
  rw [Parser.behind, List.append_nil] at hbehind
  exact (congrArg Prod.fst hbehind).symm

theorem exists_node {r : Except ScriptError Node} (h : Parse.node s = (r, rest)) :
    ∃ after, Parser.node ⟨s, []⟩ = (r, after) ∧ after.stream = rest := by
  obtain ⟨hvalue, hrest⟩ := Prod.mk.inj ((Parser.node_eq ⟨s, []⟩).symm.trans h)
  exact ⟨_, Prod.ext hvalue rfl, hrest⟩

theorem length_of_ok (h : Parse.node s = (.ok n, rest)) : rest.tokens.length < s.tokens.length := by
  obtain ⟨after, hnode, rfl⟩ := exists_node h
  exact Parser.length_node hnode

theorem length_of_error (hend : s.kind ≠ .endOfFile) (h : Parse.node s = (.error e, rest)) :
    rest.skipToNode.tokens.length < s.tokens.length := by
  obtain ⟨after, hnode, rfl⟩ := exists_node h
  exact Parser.length_skipToNode hend hnode

theorem nodes_of_endOfFile (h : s.skipNewlines.kind = .endOfFile) : s.nodes = [] :=
  congrArg Prod.fst (Parser.nodes_of_endOfFile (p := ⟨s, []⟩) h)

theorem nodes_of_ok (hend : s.skipNewlines.kind ≠ .endOfFile)
    (h : Parse.node s.skipNewlines = (.ok n, rest)) : s.nodes = n :: rest.nodes := by
  obtain ⟨after, hnode, rfl⟩ := exists_node h
  rw [nodes_stream]
  exact congrArg Prod.fst (Parser.nodes_of_node (p := ⟨s, []⟩) hend hnode)

theorem nodes_of_error (hend : s.skipNewlines.kind ≠ .endOfFile)
    (h : Parse.node s.skipNewlines = (.error e, rest)) : s.nodes = rest.skipToNode.nodes := by
  obtain ⟨after, hnode, rfl⟩ := exists_node h
  refine (congrArg Prod.fst (Parser.nodes_of_error (p := ⟨s, []⟩) hend hnode)).trans ?_
  exact (nodes_stream (after.recover e)).symm

theorem nodes_skipNewlines (s : TokenStream) : s.skipNewlines.nodes = s.nodes := by
  have hskip : s.skipNewlines.skipNewlines = s.skipNewlines :=
    congrArg (TokenStream.mk · s.finish) (List.dropWhile_idempotent _ _)
  by_cases hend : s.skipNewlines.kind = .endOfFile
  · rw [nodes_of_endOfFile hend, nodes_of_endOfFile (by rwa [hskip])]
  rcases hnode : Parse.node s.skipNewlines with ⟨e | n, rest⟩
  · rw [nodes_of_error hend hnode, nodes_of_error (by rwa [hskip]) (by rwa [hskip])]
  · rw [nodes_of_ok hend hnode, nodes_of_ok (by rwa [hskip]) (by rwa [hskip])]

end TokenStream

end DialogueScript
