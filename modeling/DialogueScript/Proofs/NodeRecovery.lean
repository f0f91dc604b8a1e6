import DialogueScript.Proofs.NodeLoop

namespace DialogueScript

open TokenStream

/-- Where a node may begin or the file ends. -/
def TokenStream.AtNode (s : TokenStream) : Prop := s.kind = .nodeWord ∨ s.kind = .endOfFile

theorem TokenStream.AtNode.ne {s : TokenStream} (hs : s.AtNode) {kind : TokenKind} (hword : kind ≠ .nodeWord)
    (hend : kind ≠ .endOfFile) : s.kind ≠ kind := by
  rintro rfl
  exact hs.elim hword hend

/-- Every block that begins in `ts` also ends there, and no end of the file is there. -/
def ClosesBlocks (ts : List Token) : Prop := ∃ depth, openBlocks depth ts = some 0

theorem ClosesBlocks.suffix {ts rest : List Token} (h : ClosesBlocks ts) (hrest : rest <:+ ts) : ClosesBlocks rest := by
  obtain ⟨passed, rfl⟩ := hrest
  obtain ⟨depth, h⟩ := h
  rw [openBlocks_append] at h
  obtain ⟨depth', -, h⟩ := Option.bind_eq_some_iff.1 h
  exact ⟨depth', h⟩

theorem ClosesBlocks.head_ne {t : Token} {ts : List Token} (h : ClosesBlocks (t :: ts)) : t.kind ≠ .endOfFile := by
  obtain ⟨depth, h⟩ := h
  rw [openBlocks_cons] at h
  rcases h with ⟨hkind, -⟩ | ⟨hkind, -⟩ | ⟨-, -, hkind, -⟩
  · rw [hkind]; decide
  · rw [hkind]; decide
  · exact hkind

namespace Parse

variable {α β : Type} {s s' : TokenStream} {ts : List Token} {kind : TokenKind}

/-- On `ts` in front of `s` and of `s'` the parser gives the same value, or fails though maybe with another
error, and stops at the same place of `ts`. -/
inductive SameValue (p : Parse α) (s s' : TokenStream) (ts : List Token) : Prop
  | ok {a : α} {rest : List Token} (hrest : rest <:+ ts) (h : p (s.prepend ts) = (.ok a, s.prepend rest))
      (h' : p (s'.prepend ts) = (.ok a, s'.prepend rest)) : SameValue p s s' ts
  | error {e e' : ScriptError} {rest : List Token} (hrest : rest <:+ ts)
      (h : p (s.prepend ts) = (.error e, s.prepend rest))
      (h' : p (s'.prepend ts) = (.error e', s'.prepend rest)) : SameValue p s s' ts

namespace SameValue

theorem pure (a : α) : SameValue (Pure.pure a) s s' ts := .ok (List.suffix_refl ts) rfl rfl

theorem bind {p : Parse α} {f : α → Parse β} (h : SameValue p s s' ts)
    (hf : ∀ a rest, rest <:+ ts → SameValue (f a) s s' rest) : SameValue (p >>= f) s s' ts := by
  cases h with
  | error hrest h h' => exact .error hrest (bind_of_error h) (bind_of_error h')
  | ok hmid h h' =>
    cases hf _ _ hmid with
    | ok hrest hfa hfa' => exact .ok (hrest.trans hmid) ((bind_of_ok h).trans hfa) ((bind_of_ok h').trans hfa')
    | error hrest hfa hfa' =>
      exact .error (hrest.trans hmid) ((bind_of_ok h).trans hfa) ((bind_of_ok h').trans hfa')

theorem expectAs_cons (hkind : kind ≠ .endOfFile) (what : String) (hint : Option String) (t : Token) :
    SameValue (Parse.expectAs kind what hint) s s' (t :: ts) := by
  by_cases ht : t.kind = kind
  · have hread (u : TokenStream) :
        Parse.expectAs kind what hint (u.prepend (t :: ts)) = (.ok t, u.prepend ts) :=
      (if_pos ht).trans (by rw [advance_prepend (ht ▸ hkind)]; rfl)
    exact .ok (List.suffix_cons t ts) (hread s) (hread s')
  · exact .error (List.suffix_refl _) (if_neg ht) (if_neg ht)

theorem expectAs (hs : s.AtNode) (hs' : s'.AtNode) (hword : kind ≠ .nodeWord) (hend : kind ≠ .endOfFile)
    (what : String) (hint : Option String) : SameValue (Parse.expectAs kind what hint) s s' ts := by
  cases ts with
  | nil => exact .error (List.suffix_refl _) (if_neg (hs.ne hword hend)) (if_neg (hs'.ne hword hend))
  | cons t ts => exact expectAs_cons hend what hint t

theorem current_cons {t : Token} {f : Token → Parse α} (h : SameValue (f t) s s' (t :: ts)) :
    SameValue (Parse.current >>= f) s s' (t :: ts) := by
  cases h with
  | ok hrest h h' => exact .ok hrest h h'
  | error hrest h h' => exact .error hrest h h'

end SameValue

theorem expectName_of_atNode (hs : s.AtNode) (what : String) : ∃ e, expectName what s = (.error e, s) := by
  unfold expectName
  rw [current_bind_apply]
  rcases hs with hkind | hkind <;> rw [show s.current.kind = _ from hkind]
  · exact ⟨_, rfl⟩
  · exact ⟨_, if_neg (by rw [hkind]; decide)⟩

theorem expectName_sameValue (hs : s.AtNode) (hs' : s'.AtNode) (what : String) :
    SameValue (expectName what) s s' ts := by
  cases ts with
  | nil =>
    obtain ⟨e, h⟩ := expectName_of_atNode hs what
    obtain ⟨e', h'⟩ := expectName_of_atNode hs' what
    exact .error (List.suffix_refl _) h h'
  | cons t ts =>
    refine .current_cons ?_
    split
    · exact .error (List.suffix_refl _) rfl rfl
    · exact .expectAs_cons (by decide) _ _ t

theorem nodeHeader_sameValue (hs : s.AtNode) (hs' : s'.AtNode) (t : Token) :
    SameValue nodeHeader s s' (t :: ts) := by
  refine .bind (.expectAs_cons (by decide) _ _ t) fun word rest _ => ?_
  refine .bind (expectName_sameValue hs hs' _) fun name rest _ => ?_
  exact .bind (.expectAs hs hs' (by decide) (by decide) _ _) fun lineEnd rest _ => .pure _

theorem nodeFooter_sameValue (hs : s.AtNode) (hs' : s'.AtNode) (id : String) (hasBlock : Bool) :
    SameValue (nodeFooter id hasBlock) s s' ts := by
  have hfinal (ts) : SameValue (nodeFooter id false) s s' ts :=
    .bind (.expectAs hs hs' (by decide) (by decide) _ _) fun final rest _ => .pure _
  cases hasBlock with
  | false => exact hfinal ts
  | true =>
    refine .bind (p := expect .dedent) ?_ fun dedent rest _ => hfinal rest
    exact .expectAs hs hs' (by decide) (by decide) _ _

theorem nodeBlock_sameValue (hs : s.AtNode) (hs' : s'.AtNode) (hts : ClosesBlocks ts) :
    SameValue nodeBlock s s' ts := by
  cases ts with
  | nil =>
    exact .ok (List.suffix_refl _) (if_neg (hs.ne (by decide) (by decide)))
      (if_neg (hs'.ne (by decide) (by decide)))
  | cons t ts =>
    by_cases ht : t.kind = .indent
    · obtain ⟨depth, hts⟩ := hts
      rw [openBlocks, ht] at hts
      -- the block ends inside `ts`
      have hts : openBlocks (0 + 1 + depth) ts = some 0 := by rwa [Nat.zero_add, Nat.add_comm]
      obtain ⟨inside, closing, rest, rfl, hclosing, hinside, -⟩ := exists_closing hts
      have hstop : LineStops (s.prepend (closing :: rest)) (s'.prepend (closing :: rest)) :=
        .of_eq rfl (show closing.kind.isContent = false by rw [hclosing]; rfl)
      obtain ⟨ss, es, hread, hread'⟩ := Block.parse_same hstop hclosing hinside
      have hadvance (u : TokenStream) : (u.prepend (t :: (inside ++ closing :: rest))).advance =
          (u.prepend (closing :: rest)).prepend inside := by
        rw [advance_prepend (by rw [ht]; decide), prepend_append]
      refine .ok (a := (true, ss)) (show closing :: rest <:+ _ from ⟨t :: inside, rfl⟩) ?_ ?_
      · exact (if_pos ht).trans (by rw [hadvance, hread])
      · exact (if_pos ht).trans (by rw [hadvance, hread'])
    · exact .ok (List.suffix_refl _) (if_neg ht) (if_neg ht)

theorem node_sameValue (hs : s.AtNode) (hs' : s'.AtNode) (hts : ClosesBlocks ts) (hne : ts ≠ []) :
    SameValue node s s' ts := by
  obtain ⟨t, ts, rfl⟩ := List.exists_cons_of_ne_nil hne
  refine .bind (nodeHeader_sameValue hs hs' t) fun header rest hrest => ?_
  refine .bind (nodeBlock_sameValue hs hs' (hts.suffix hrest)) fun block rest _ => ?_
  exact .bind (nodeFooter_sameValue hs hs' _ _) fun stop rest _ => .pure _

end Parse

namespace TokenStream

variable {s s' : TokenStream} {ts : List Token}

theorem AtNode.dropWhile_append (hs : s.AtNode) {p : Token → Bool}
    (hp : ∀ t : Token, t.kind = .nodeWord ∨ t.kind = .endOfFile → p t = false) (ts : List Token) :
    (ts ++ s.tokens).dropWhile p = ts.dropWhile p ++ s.tokens := by
  have hstop : s.tokens.dropWhile p = s.tokens := by
    cases htokens : s.tokens with
    | nil => rfl
    | cons t rest =>
      have ht : p t = false := hp t (by simpa [AtNode, TokenStream.kind, current, htokens] using hs)
      exact List.dropWhile_cons_of_neg (by rw [ht]; exact Bool.false_ne_true)
  rw [List.dropWhile_append, hstop]
  split
  · rename_i hnil
    rw [List.isEmpty_iff.1 hnil, List.nil_append]
  · rfl

theorem exists_skipNewlines (hs : s.AtNode) (hs' : s'.AtNode) (ts : List Token) :
    ∃ rest, rest <:+ ts ∧ (s.prepend ts).skipNewlines = s.prepend rest ∧
      (s'.prepend ts).skipNewlines = s'.prepend rest := by
  have hp (t : Token) (ht : t.kind = .nodeWord ∨ t.kind = .endOfFile) : decide (t.kind = .newline) = false := by
    rcases ht with ht | ht <;> rw [ht] <;> rfl
  exact ⟨ts.dropWhile (·.kind = .newline), List.dropWhile_suffix _,
    congrArg (TokenStream.mk · s.finish) (hs.dropWhile_append hp ts),
    congrArg (TokenStream.mk · s'.finish) (hs'.dropWhile_append hp ts)⟩

theorem AtNode.skipNewlines (hs : s.AtNode) : s.skipNewlines = s := by
  obtain ⟨rest, hrest, hskip, -⟩ := exists_skipNewlines hs hs []
  rw [List.suffix_nil.1 hrest] at hskip
  exact hskip

theorem exists_skipToNode (hs : s.AtNode) (hs' : s'.AtNode) (ts : List Token) :
    ∃ rest, rest <:+ ts ∧ (s.prepend ts).skipToNode = s.prepend rest ∧
      (s'.prepend ts).skipToNode = s'.prepend rest := by
  have hp (t : Token) (ht : t.kind = .nodeWord ∨ t.kind = .endOfFile) :
      (t.kind ≠ .nodeWord && t.kind ≠ .endOfFile) = false := by
    rcases ht with ht | ht <;> rw [ht] <;> rfl
  exact ⟨ts.dropWhile fun t => t.kind ≠ .nodeWord && t.kind ≠ .endOfFile, List.dropWhile_suffix _,
    congrArg (TokenStream.mk · s.finish) (hs.dropWhile_append hp ts),
    congrArg (TokenStream.mk · s'.finish) (hs'.dropWhile_append hp ts)⟩

/-- What is read in front of a node does not depend on which node it is, or whether there is one. -/
theorem nodes_prepend (hs : s.AtNode) (hs' : s'.AtNode) (hts : ClosesBlocks ts) :
    ∃ ns, (s.prepend ts).nodes = ns ++ s.nodes ∧ (s'.prepend ts).nodes = ns ++ s'.nodes := by
  induction hlength : ts.length using Nat.strong_induction_on generalizing ts with
  | _ length ih =>
    subst hlength
    obtain ⟨left, hsuffix, hskip, hskip'⟩ := exists_skipNewlines hs hs' ts
    cases left with
    | nil =>
      exact ⟨[], by rw [← nodes_skipNewlines, hskip]; rfl, by rw [← nodes_skipNewlines, hskip']; rfl⟩
    | cons t left =>
      have hclosing := hts.suffix hsuffix
      have hle := hsuffix.length_le
      have hend (u : TokenStream) : (u.prepend (t :: left)).kind ≠ .endOfFile := hclosing.head_ne
      cases Parse.node_sameValue hs hs' hclosing (List.cons_ne_nil t left) with
      | @ok n rest hrest hnode hnode' =>
        have hlt := length_of_ok hnode
        simp only [prepend, List.length_append] at hlt
        obtain ⟨ns, hns, hns'⟩ := ih rest.length (by omega) (hclosing.suffix hrest) rfl
        refine ⟨n :: ns, ?_, ?_⟩
        · rw [nodes_of_ok (hskip ▸ hend s) (hskip ▸ hnode), hns, List.cons_append]
        · rw [nodes_of_ok (hskip' ▸ hend s') (hskip' ▸ hnode'), hns', List.cons_append]
      | @error e e' rest hrest hnode hnode' =>
        obtain ⟨after, hafter, hnext, hnext'⟩ := exists_skipToNode hs hs' rest
        have hlt := length_of_error (hend s) hnode
        rw [hnext] at hlt
        simp only [prepend, List.length_append] at hlt
        obtain ⟨ns, hns, hns'⟩ := ih after.length (by omega) (hclosing.suffix (hafter.trans hrest)) rfl
        refine ⟨ns, ?_, ?_⟩
        · rw [nodes_of_error (hskip ▸ hend s) (hskip ▸ hnode), hnext, hns]
        · rw [nodes_of_error (hskip' ▸ hend s') (hskip' ▸ hnode'), hnext', hns']

/-- The nodes of a script that is cut in front of a node are those of the two parts, whatever is wrong in the
first part. -/
theorem nodes_append {ts : List Token} {t : Token} (hts : Balanced ts) (ht : t.kind = .nodeWord)
    (more : List Token) :
    (ofTokens (ts ++ t :: more)).nodes = (ofTokens ts).nodes ++ (ofTokens (t :: more)).nodes := by
  have hclosing : ClosesBlocks ts := ⟨0, balanced_iff.1 hts⟩
  have hs : AtNode (ofTokens (t :: more)) := .inl ht
  have hs' : AtNode ⟨[], (ofTokens ts).finish⟩ := .inr rfl
  obtain ⟨ns, hns, hns'⟩ := nodes_prepend hs hs' hclosing
  have hwhole : ofTokens (ts ++ t :: more) = (ofTokens (t :: more)).prepend ts := by
    simp only [ofTokens, prepend, List.getLast?_append_cons]
  have hpart : ofTokens ts = TokenStream.prepend ts ⟨[], (ofTokens ts).finish⟩ := by
    simp [ofTokens, prepend]
  rw [hwhole, hns, hpart, hns', nodes_of_endOfFile (s := ⟨[], _⟩) rfl, List.append_nil]

end TokenStream

structure ItemBlock where
  opening : Token
  items : List BlockItem
  closing : Token
  opening_kind : opening.kind = .indent
  closing_kind : closing.kind = .dedent

def ItemBlock.tokens (block : ItemBlock) : List Token :=
  block.opening :: block.items.flatMap BlockItem.tokens ++ [block.closing]

/-- A node whose frame is right: its first line, and the word that ends it. What is in its block, if it has one,
may be wrong. -/
structure FramedNode where
  word : Token
  name : Token
  lineEnd : Token
  block? : Option ItemBlock
  final : Token
  word_kind : word.kind = .nodeWord
  name_kind : name.kind = .identifier
  lineEnd_kind : lineEnd.kind = .newline
  final_kind : final.kind = .endWord

namespace FramedNode

def tokens (n : FramedNode) : List Token :=
  n.word :: n.name :: n.lineEnd :: ((n.block?.map ItemBlock.tokens).getD [] ++ [n.final])

def items (n : FramedNode) : List BlockItem := (n.block?.map ItemBlock.items).getD []

/-- The node, with the statements of the lines of its block that are statements. -/
def node (n : FramedNode) : Node :=
  ⟨n.name.value, n.items.filterMap BlockItem.statement?, ⟨n.word.span.start, n.final.span.stop⟩⟩

end FramedNode

theorem Parse.node_framed (n : FramedNode) (s : TokenStream) :
    Parse.node (s.prepend n.tokens) = (.ok n.node, s) := by
  obtain ⟨word, name, lineEnd, block?, final, hword, hname, hend, hfinal⟩ := n
  refine (bind_of_ok (nodeHeader_eq_ok.2 ⟨_, _, _, _, rfl, hword, hname, hend, rfl, rfl, rfl⟩)).trans ?_
  cases block? with
  | none =>
    have hblock : nodeBlock (s.prepend [final]) = (.ok (false, []), s.prepend [final]) :=
      if_neg (show final.kind ≠ .indent by rw [hfinal]; decide)
    refine (bind_of_ok hblock).trans ?_
    exact bind_of_ok (nodeFooter_false_eq_ok.2 ⟨_, _, rfl, hfinal, rfl, rfl⟩)
  | some block =>
    obtain ⟨opening, items, closing, hopening, hclosing⟩ := block
    let behind : TokenStream := ⟨closing :: final :: s.tokens, s.finish⟩
    have hread : Block.parse (behind.prepend (items.flatMap BlockItem.tokens)) = ⟨_, _, behind⟩ :=
      Block.parseWithin_items items hclosing (BlockItem.length_lt_length_tokens items hclosing)
    have hblock : nodeBlock (behind.prepend (opening :: items.flatMap BlockItem.tokens)) =
        (.ok (true, items.filterMap BlockItem.statement?), behind) :=
      (if_pos hopening).trans (by rw [advance_prepend (by rw [hopening]; decide), hread])
    have htokens : s.prepend ((ItemBlock.mk opening items closing hopening hclosing).tokens ++ [final]) =
        behind.prepend (opening :: items.flatMap BlockItem.tokens) := by
      simp [prepend, ItemBlock.tokens, behind]
    refine (congrArg _ htokens).trans ((bind_of_ok hblock).trans ?_)
    exact bind_of_ok (nodeFooter_true_eq_ok.2 ⟨_, _, _, rfl, hclosing, hfinal, rfl, rfl⟩)

namespace TokenStream

/-- Where the file ends if no token says so matters only if there are no tokens. -/
theorem nodes_eq_ofTokens (ts : List Token) (finish : Position)
    (h : ts ≠ [] → finish = (ofTokens ts).finish) : nodes ⟨ts, finish⟩ = (ofTokens ts).nodes := by
  by_cases hts : ts = []
  · subst hts
    rw [nodes_of_endOfFile (s := ⟨[], finish⟩) rfl, nodes_of_endOfFile (s := ofTokens []) rfl]
  · rw [h hts]
    rfl

theorem nodes_tokens_append (n : FramedNode) (behind : List Token) :
    (ofTokens (n.tokens ++ behind)).nodes = n.node :: (ofTokens behind).nodes := by
  let whole := ofTokens (n.tokens ++ behind)
  have hkind : whole.kind = .nodeWord := n.word_kind
  have hskip : whole.skipNewlines = whole := AtNode.skipNewlines (.inl hkind)
  have hnode : Parse.node whole = (.ok n.node, ⟨behind, whole.finish⟩) :=
    Parse.node_framed n ⟨behind, whole.finish⟩
  have hnodes : whole.nodes = n.node :: nodes ⟨behind, whole.finish⟩ := by
    refine nodes_of_ok ?_ ?_
    · rw [hskip, hkind]
      decide
    · rw [hskip, hnode]
  refine hnodes.trans (congrArg _ (nodes_eq_ofTokens behind _ fun hbehind => ?_))
  obtain ⟨last, hlast⟩ := Option.isSome_iff_exists.1 (List.getLast?_isSome.2 hbehind)
  simp [whole, ofTokens, List.getLast?_append, hlast]

end TokenStream

/-- A node whose frame is right is never lost, whatever is wrong in front of it. -/
theorem Parser.nodes_framed {before : List Token} (hbefore : Balanced before) (n : FramedNode)
    (behind : List Token) : (Parser.ofTokens (before ++ n.tokens ++ behind)).nodes.1 =
      (Parser.ofTokens before).nodes.1 ++ n.node :: (Parser.ofTokens behind).nodes.1 := by
  have hcut := TokenStream.nodes_append hbefore n.word_kind (n.tokens.tail ++ behind)
  rw [List.append_assoc]
  exact hcut.trans (congrArg _ (TokenStream.nodes_tokens_append n behind))

/-- A line outside of all nodes, and a node that has no end and an empty `say`. -/
def brokenStart : List Token :=
  [⟨.gotoWord, "goto", ⟨⟨1, 1⟩, ⟨1, 5⟩⟩⟩, ⟨.newline, "\n", .point ⟨1, 5⟩⟩,
    ⟨.nodeWord, "node", ⟨⟨2, 1⟩, ⟨2, 5⟩⟩⟩, ⟨.identifier, "a", ⟨⟨2, 6⟩, ⟨2, 7⟩⟩⟩, ⟨.newline, "\n", .point ⟨2, 7⟩⟩,
    ⟨.indent, "2", ⟨⟨3, 1⟩, ⟨3, 3⟩⟩⟩, ⟨.sayWord, "say", ⟨⟨3, 3⟩, ⟨3, 6⟩⟩⟩, ⟨.colon, ":", ⟨⟨3, 6⟩, ⟨3, 7⟩⟩⟩,
    ⟨.newline, "\n", .point ⟨3, 7⟩⟩, ⟨.dedent, "", .point ⟨4, 1⟩⟩]

def framedItems : FramedNode :=
  ⟨⟨.nodeWord, "node", ⟨⟨4, 1⟩, ⟨4, 5⟩⟩⟩, ⟨.identifier, "b", ⟨⟨4, 6⟩, ⟨4, 7⟩⟩⟩, ⟨.newline, "\n", .point ⟨4, 7⟩⟩,
    some ⟨⟨.indent, "2", ⟨⟨5, 1⟩, ⟨5, 3⟩⟩⟩, Block.brokenItems, ⟨.dedent, "", .point ⟨9, 1⟩⟩, rfl, rfl⟩,
    ⟨.endWord, "end", ⟨⟨9, 1⟩, ⟨9, 4⟩⟩⟩, rfl, rfl, rfl, rfl⟩

theorem Parser.nodes_framedItems :
    Balanced brokenStart ∧ (Parser.ofTokens (brokenStart ++ framedItems.tokens ++
        [⟨.newline, "\n", .point ⟨9, 4⟩⟩, ⟨.nodeWord, "node", ⟨⟨10, 1⟩, ⟨10, 5⟩⟩⟩])).nodes.1 =
      [⟨"b", [.goto "b" ⟨⟨5, 3⟩, ⟨5, 10⟩⟩ ⟨⟨5, 8⟩, ⟨5, 10⟩⟩, .say (.ofString "x") ⟨⟨8, 3⟩, ⟨8, 10⟩⟩],
        ⟨⟨4, 1⟩, ⟨9, 4⟩⟩⟩] := by
  have hstart : Balanced brokenStart := by decide
  exact ⟨hstart, (Parser.nodes_framed hstart framedItems _).trans (by rfl)⟩

end DialogueScript
