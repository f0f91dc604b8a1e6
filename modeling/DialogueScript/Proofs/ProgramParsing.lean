import Mathlib
import DialogueScript.ParseProgram
import DialogueScript.Proofs.LexedTokens
import DialogueScript.Proofs.StatementParsing

namespace DialogueScript

/-- Whether a token of this kind is no part of the layout, and neither begins nor ends a placeholder. -/
def TokenKind.isInner : TokenKind → Bool
  | endOfFile | newline | indent | dedent | placeholderStart | placeholderEnd => false
  | _ => true

namespace Grammar

/-- `rest` is left of `ts` behind some tokens of the kinds that `P` allows. -/
def PassesBy (P : TokenKind → Prop) (ts rest : List Token) : Prop :=
  ∃ passed, ts = passed ++ rest ∧ ∀ t ∈ passed, P t.kind

namespace PassesBy

variable {P Q : TokenKind → Prop} {t : Token} {ts mid rest : List Token}

theorem refl (ts : List Token) : PassesBy P ts ts := ⟨[], rfl, by simp⟩

theorem trans (h : PassesBy P ts mid) (h' : PassesBy P mid rest) : PassesBy P ts rest := by
  obtain ⟨passed, rfl, hpassed⟩ := h
  obtain ⟨passed', rfl, hpassed'⟩ := h'
  refine ⟨passed ++ passed', by simp, ?_⟩
  intro t ht
  rcases List.mem_append.1 ht with ht | ht
  · exact hpassed t ht
  · exact hpassed' t ht

theorem head (h : P t.kind) (ts : List Token) : PassesBy P (t :: ts) ts := ⟨[t], rfl, by simpa using h⟩

theorem cons (ht : P t.kind) (h : PassesBy P ts rest) : PassesBy P (t :: ts) rest := (head ht ts).trans h

theorem tail (h : PassesBy P ts (t :: rest)) (ht : P t.kind) : PassesBy P ts rest := h.trans (head ht rest)

theorem length_le (h : PassesBy P ts rest) : rest.length ≤ ts.length := by
  obtain ⟨passed, rfl, -⟩ := h
  simp

theorem mono (h : PassesBy P ts rest) (hPQ : ∀ kind, P kind → Q kind) : PassesBy Q ts rest := by
  obtain ⟨passed, hts, hpassed⟩ := h
  exact ⟨passed, hts, fun t ht => hPQ _ (hpassed t ht)⟩

end PassesBy

abbrev Passes (ts rest : List Token) : Prop := PassesBy (· ≠ .endOfFile) ts rest

theorem PassesBy.terminated {ts rest : List Token} (h : Passes ts rest) (hts : Terminated ts) :
    Terminated rest := by
  obtain ⟨body, stop, hbody, hstop, hkinds⟩ := hts
  obtain ⟨passed, rfl, hpassed⟩ := h
  rcases List.append_eq_append_iff.1 hbody with ⟨more, rfl, rfl⟩ | ⟨more, rfl, hstops⟩
  · exact ⟨more, stop, rfl, hstop, fun t ht => hkinds t (List.mem_append_right _ ht)⟩
  · -- the end of the file itself would have been passed
    cases more with
    | nil => exact ⟨[], stop, by simpa using hstops.symm, hstop, by simp⟩
    | cons t more =>
      obtain ⟨rfl, -⟩ : stop = t ∧ _ := by simpa using hstops
      exact absurd hstop (hpassed stop (by simp))

end Grammar

theorem Terminated.eq_singleton {t : Token} {ts : List Token} (h : Terminated (t :: ts))
    (ht : t.kind = .endOfFile) : ts = [] := by
  obtain ⟨body, stop, hbody, -, hkinds⟩ := h
  cases body with
  | nil => simpa using (List.cons.inj hbody).2
  | cons u body =>
    obtain rfl := (List.cons.inj hbody).1
    exact absurd ht (hkinds t (by simp))

theorem Terminated.ne_nil {ts : List Token} (h : Terminated ts) : ts ≠ [] := by
  obtain ⟨body, stop, rfl, -⟩ := h
  simp

namespace Grammar

open Parse

/-- No token of a phrase belongs to the layout or marks a placeholder. -/
theorem Derives.inner {phrase : Phrase} {ts rest : List Token} (h : Derives phrase ts rest) :
    PassesBy (·.isInner = true) ts rest := by
  induction h with
  | number hkind | text hkind | yes hkind | no hkind => exact .head (by rw [hkind]; rfl) _
  | «variable» hsign hname => exact .cons (by rw [hsign]; rfl) (.head (by rw [hname]; rfl) _)
  | emptyCall hname hopening hclose =>
    exact .cons (by rw [hname]; rfl) (.cons (by rw [hopening]; rfl) (.head (by rw [hclose]; rfl) _))
  | call hname hopening hclose _ ih =>
    exact .cons (by rw [hname]; rfl) (.cons (by rw [hopening]; rfl) (ih.tail (by rw [hclose]; rfl)))
  | parenthesized hopening hclose _ ih =>
    exact .cons (by rw [hopening]; rfl) (ih.tail (by rw [hclose]; rfl))
  | @unary sign _ _ _ _ hsign _ ih =>
    refine .cons ?_ ih
    rw [signs_lookup] at hsign
    generalize sign.kind = kind at hsign
    cases kind <;> first | rfl | cases hsign
  | @binary _ sign _ _ _ _ _ _ hsign _ _ ihl ihr =>
    refine (ihl.tail ?_).trans ihr
    rw [Tier.operator?_eq_some] at hsign
    replace hsign := hsign.1
    generalize sign.kind = kind at hsign
    cases kind <;> first | rfl | cases hsign
  | operand _ _ ih | lastArgument _ ih => exact ih
  | argument hcomma _ _ ihe ihes => exact (ihe.tail (by rw [hcomma]; rfl)).trans ihes

theorem Derives.passes {phrase : Phrase} {ts rest : List Token} (h : Derives phrase ts rest) :
    Passes ts rest := by
  refine h.inner.mono fun kind hinner => ?_
  rintro rfl
  cases hinner

theorem Parts.passes {stop stop' : Position} {speech : Speech} {ts rest : List Token}
    (h : Parts stop speech stop' ts rest) : Passes ts rest := by
  induction h with
  | nil => exact .refl _
  | text hkind _ ih => exact .cons (by simp [hkind]) ih
  | placeholder hopening hclose he _ ih =>
    exact .cons (by simp [hopening]) ((he.passes.tail (by simp [hclose])).trans ih)

theorem Guard.passes {guard? : Option Expression} {ts rest : List Token} (h : Guard guard? ts rest) :
    Passes ts rest := by
  cases h with
  | absent => exact .refl _
  | present hcomma hword hcolon he =>
    exact .cons (by simp [hcomma]) (.cons (by simp [hword]) (.cons (by simp [hcolon]) he.passes))

theorem Line.passes {s : Statement} {ts rest : List Token} (h : Line s ts rest) : Passes ts rest := by
  cases h with
  | assign hsign hname hmark hend hvalue =>
    refine .cons (by simp [hsign]) (.cons (by simp [hname]) (.cons (fun hkind => ?_)
      (hvalue.passes.tail (by simp [hend]))))
    simp [hkind, assignments_lookup, AssignOperator.ofToken?] at hmark
  | say hword hend hspeech => exact .cons (by simp [hword]) (hspeech.passes.tail (by simp [hend]))
  | choice hword htext hcomma hcolon hname hend hguard =>
    exact .cons (by simp [hword]) (.cons (by simp [htext]) (.cons (by simp [hcomma])
      (.cons (by simp [hcolon]) (.cons (by simp [hname]) (hguard.passes.tail (by simp [hend]))))))
  | goto hword hcolon hname hend =>
    exact .cons (by simp [hword]) (.cons (by simp [hcolon]) (.cons (by simp [hname])
      (.head (by simp [hend]) _)))

theorem Line.starts {s : Statement} {ts rest : List Token} (h : Line s ts rest) :
    ∃ t tail, ts = t :: tail ∧ startsStatement t.kind = true := by
  cases h with
  | assign hkind | say hkind | choice hkind | goto hkind => exact ⟨_, _, rfl, by rw [hkind]; rfl⟩

theorem Line.length_lt {s : Statement} {ts rest : List Token} (h : Line s ts rest) :
    rest.length < ts.length := by
  cases h with
  | assign _ _ _ _ hvalue =>
    have := hvalue.passes.length_le
    simp only [List.length_cons] at *
    omega
  | say _ _ hspeech =>
    have := hspeech.passes.length_le
    simp only [List.length_cons] at *
    omega
  | choice _ _ _ _ _ _ hguard =>
    have := hguard.passes.length_le
    simp only [List.length_cons] at *
    omega
  | goto => simp only [List.length_cons]; omega

theorem Body.passes {ss : List Statement} {ts rest : List Token} (h : Body ss ts rest) :
    Passes ts rest := by
  induction h with
  | nil => exact .refl _
  | newline hend _ ih => exact .cons (by simp [hend]) ih
  | line hline _ ih => exact hline.passes.trans ih

theorem NodeText.passes {node : Node} {ts rest : List Token} (h : NodeText node ts rest) :
    Passes ts rest := by
  obtain ⟨hword, hname, hend, hfinal, hblock⟩ := h
  refine .cons (by simp [hword]) (.cons (by simp [hname]) (.cons (by simp [hend]) ?_))
  cases hblock with
  | absent => exact .head (by simp [hfinal]) _
  | present hindent hdedent hbody =>
    exact .cons (by simp [hindent]) ((hbody.passes.tail (by simp [hdedent])).tail (by simp [hfinal]))

theorem NodeText.starts {node : Node} {ts rest : List Token} (h : NodeText node ts rest) :
    ∃ t tail, ts = t :: tail ∧ t.kind = .nodeWord := by
  obtain ⟨hword, -, -, -, -⟩ := h
  exact ⟨_, _, rfl, hword⟩

theorem NodeText.length_lt {node : Node} {ts rest : List Token} (h : NodeText node ts rest) :
    rest.length < ts.length := by
  obtain ⟨-, -, -, -, hblock⟩ := h
  cases hblock with
  | absent => simp only [List.length_cons]; omega
  | present _ _ hbody =>
    have := hbody.passes.length_le
    simp only [List.length_cons] at *
    omega

theorem passes_dropWhile_newline (ts : List Token) : Passes ts (ts.dropWhile (·.kind = .newline)) := by
  refine ⟨ts.takeWhile (·.kind = .newline), List.takeWhile_append_dropWhile.symm, ?_⟩
  intro t ht
  have hkind := List.mem_takeWhile_imp ht
  simp_all

theorem Script.of_dropWhile {program : Program} {ts : List Token}
    (h : Script program (ts.dropWhile (·.kind = .newline))) : Script program ts := by
  induction ts with
  | nil => exact h
  | cons t ts ih =>
    rw [List.dropWhile_cons] at h
    split at h
    · rename_i hkind
      exact .newline (by simpa using hkind) (ih h)
    · exact h

theorem Script.dropWhile {program : Program} {ts : List Token} (h : Script program ts) :
    (program = [] ∧ ∃ t, ts.dropWhile (·.kind = .newline) = [t] ∧ t.kind = .endOfFile) ∨
      ∃ node nodes mid, program = node :: nodes ∧
        NodeText node (ts.dropWhile (·.kind = .newline)) mid ∧ Script nodes mid := by
  induction h with
  | @done t hkind => exact .inl ⟨rfl, t, by simp [hkind], hkind⟩
  | newline hend _ ih => simpa [hend] using ih
  | @node node nodes ts mid hnode hscript =>
    obtain ⟨t, tail, rfl, hkind⟩ := hnode.starts
    exact .inr ⟨node, nodes, mid, rfl, by simpa [hkind] using hnode, hscript⟩

end Grammar

open Grammar TokenStream Parse

variable {ts rest : List Token} {finish : Position} {errors : List ScriptError}

namespace Block

variable {limit : Nat} {ss : List Statement}

theorem parseWithin_sound {s' : TokenStream} (h : parseWithin limit ⟨ts, finish⟩ = ⟨ss, [], s'⟩) :
    ∃ rest, s' = ⟨rest, finish⟩ ∧ Body ss ts rest := by
  induction limit generalizing ts ss with
  | zero =>
    obtain ⟨rfl, rfl⟩ : [] = ss ∧ ⟨ts, finish⟩ = s' := by simpa [parseWithin] using h
    exact ⟨ts, rfl, .nil⟩
  | succ limit ih =>
    unfold parseWithin at h
    split at h
    case h_1 | h_2 =>
      obtain ⟨rfl, rfl⟩ : [] = ss ∧ ⟨ts, finish⟩ = s' := by simpa using h
      exact ⟨ts, rfl, .nil⟩
    case h_3 hkind =>
      obtain ⟨lineEnd, ts, rfl, hend⟩ := eq_cons_of_kind hkind (by decide)
      rw [advance_cons (by simp [hend])] at h
      obtain ⟨rest, rfl, hbody⟩ := ih h
      exact ⟨rest, rfl, .newline hend hbody⟩
    -- from here on an error is recorded, and the block is not free of errors
    case h_4 => simp [addError] at h
    case h_5 =>
      split at h
      · rename_i s after hread
        obtain ⟨mid, rfl, hline⟩ := statement_sound hread
        rcases hblock : parseWithin limit ⟨mid, finish⟩ with ⟨ss', errors, last⟩
        simp only [hblock, addStatement, Block.mk.injEq] at h
        obtain ⟨rfl, rfl, rfl⟩ := h
        obtain ⟨rest, rfl, hbody⟩ := ih hblock
        exact ⟨rest, rfl, .line hline hbody⟩
      · simp [addError] at h

theorem parseWithin_complete {dedent : Token} (h : Body ss ts (dedent :: rest))
    (hdedent : dedent.kind = .dedent) (hlimit : ts.length ≤ limit) :
    parseWithin limit ⟨ts, finish⟩ = ⟨ss, [], ⟨dedent :: rest, finish⟩⟩ := by
  generalize hall : dedent :: rest = all at h
  induction h generalizing limit with
  | nil =>
    subst hall
    simp only [List.length_cons] at hlimit
    obtain ⟨limit, rfl⟩ : ∃ n, limit = n + 1 := ⟨limit - 1, by omega⟩
    unfold parseWithin
    simp only [kind_cons, hdedent]
  | newline hend _ ih =>
    simp only [List.length_cons] at hlimit
    obtain ⟨limit, rfl⟩ : ∃ n, limit = n + 1 := ⟨limit - 1, by omega⟩
    unfold parseWithin
    simp only [kind_cons, hend]
    rw [advance_cons (by simp [hend]), ih (by omega) hall]
  | @line s ss ts mid rest hline _ ih =>
    have hlength := hline.length_lt
    obtain ⟨limit, rfl⟩ : ∃ n, limit = n + 1 := ⟨limit - 1, by omega⟩
    have hle : mid.length ≤ limit := by omega
    have hrest := ih hle hall
    obtain ⟨t, tail, rfl, hstart⟩ := hline.starts
    unfold parseWithin
    rw [kind_cons]
    split <;> rename_i hkind
    case h_1 | h_2 | h_3 | h_4 => simp [hkind, startsStatement] at hstart
    case h_5 =>
      rw [statement_complete hline]
      simp only [hrest, addStatement]

end Block

namespace Parse

theorem nodeHeader_eq_ok {start : Position} {id : String} {s' : TokenStream} :
    nodeHeader ⟨ts, finish⟩ = (.ok (start, id), s') ↔
      ∃ word name lineEnd rest, ts = word :: name :: lineEnd :: rest ∧ word.kind = .nodeWord ∧
        name.kind = .identifier ∧ lineEnd.kind = .newline ∧ start = word.span.start ∧
        id = name.value ∧ s' = ⟨rest, finish⟩ := by
  unfold nodeHeader
  constructor
  · intro h
    obtain ⟨word, _, hread, h⟩ := bind_eq_ok.1 h
    obtain ⟨_, rfl, hword, rfl⟩ := (expectAs_eq_ok (by decide)).1 hread
    obtain ⟨name, _, hread, h⟩ := bind_eq_ok.1 h
    obtain ⟨_, rfl, hname, rfl⟩ := expectName_eq_ok.1 hread
    obtain ⟨lineEnd, _, hread, h⟩ := bind_eq_ok.1 h
    obtain ⟨rest, rfl, hend, rfl⟩ := (expect_eq_ok (by decide)).1 hread
    obtain ⟨hpair, rfl⟩ := pure_eq_ok.1 h
    obtain ⟨rfl, rfl⟩ : word.span.start = start ∧ name.value = id := by simpa using hpair
    exact ⟨word, name, lineEnd, rest, rfl, hword, hname, hend, rfl, rfl, rfl⟩
  · rintro ⟨word, name, lineEnd, rest, rfl, hword, hname, hend, rfl, rfl, rfl⟩
    rw [bind_of_ok ((expectAs_eq_ok (by decide)).2 ⟨_, rfl, hword, rfl⟩),
      bind_of_ok (expectName_eq_ok.2 ⟨_, rfl, hname, rfl⟩),
      bind_of_ok ((expect_eq_ok (by decide)).2 ⟨_, rfl, hend, rfl⟩)]
    rfl

theorem nodeFooter_false_eq_ok {id : String} {stop : Position} {s' : TokenStream} :
    nodeFooter id false ⟨ts, finish⟩ = (.ok stop, s') ↔
      ∃ final rest, ts = final :: rest ∧ final.kind = .endWord ∧ stop = final.span.stop ∧
        s' = ⟨rest, finish⟩ := by
  constructor
  · intro h
    obtain ⟨final, _, hread, h⟩ := (bind_eq_ok (p := expectAs .endWord _ _)).1 h
    obtain ⟨rest, rfl, hfinal, rfl⟩ := (expectAs_eq_ok (by decide)).1 hread
    obtain ⟨rfl, rfl⟩ := pure_eq_ok.1 h
    exact ⟨final, rest, rfl, hfinal, rfl, rfl⟩
  · rintro ⟨final, rest, rfl, hfinal, rfl, rfl⟩
    exact bind_of_ok ((expectAs_eq_ok (by decide)).2 ⟨_, rfl, hfinal, rfl⟩)

theorem nodeFooter_true_eq_ok {id : String} {stop : Position} {s' : TokenStream} :
    nodeFooter id true ⟨ts, finish⟩ = (.ok stop, s') ↔
      ∃ dedent final rest, ts = dedent :: final :: rest ∧ dedent.kind = .dedent ∧
        final.kind = .endWord ∧ stop = final.span.stop ∧ s' = ⟨rest, finish⟩ := by
  constructor
  · intro h
    obtain ⟨dedent, _, hread, h⟩ := (bind_eq_ok (p := expect .dedent)).1 h
    obtain ⟨mid, rfl, hdedent, rfl⟩ := (expect_eq_ok (by decide)).1 hread
    obtain ⟨final, rest, rfl, hfinal, hstop, hs⟩ := nodeFooter_false_eq_ok.1 h
    exact ⟨dedent, final, rest, rfl, hdedent, hfinal, hstop, hs⟩
  · rintro ⟨dedent, final, rest, rfl, hdedent, hfinal, hstop, hs⟩
    refine (bind_of_ok (p := expect .dedent) ((expect_eq_ok (by decide)).2 ⟨_, rfl, hdedent, rfl⟩)).trans ?_
    exact nodeFooter_false_eq_ok.2 ⟨final, rest, rfl, hfinal, hstop, hs⟩

end Parse

namespace Parser

theorem errors_prefix_node (p : Parser) : p.errors <+: p.node.2.errors := by
  unfold node
  split
  · exact List.prefix_rfl
  · dsimp only
    split <;> exact List.prefix_append _ _

theorem errors_prefix_nextNodeWithin (limit : Nat) (p : Parser) :
    p.errors <+: (nextNodeWithin limit p).2.errors := by
  induction limit generalizing p with
  | zero => exact List.prefix_rfl
  | succ limit ih =>
    unfold nextNodeWithin
    dsimp only
    split
    · exact List.prefix_rfl
    -- a failed try is recorded, and the next try starts from there
    · have hnode := errors_prefix_node { p with stream := p.stream.skipNewlines }
      split <;> rename_i hread <;> rw [hread] at hnode
      · exact hnode
      · refine List.IsPrefix.trans ?_ (ih _)
        exact hnode.trans (List.prefix_append _ _)

theorem node_sound {n : Node} {after : Parser}
    (h : node ⟨⟨ts, finish⟩, []⟩ = (.ok n, after)) (hafter : after.errors = []) :
    ∃ rest, after = ⟨⟨rest, finish⟩, []⟩ ∧ NodeText n ts rest := by
  unfold node at h
  split at h
  · simp at h
  · rename_i start id s hread
    obtain ⟨word, name, lineEnd, mid, rfl, hword, hname, hend, rfl, rfl, rfl⟩ :=
      nodeHeader_eq_ok.1 hread
    dsimp only at h
    split at h
    · simp at h
    · rename_i stop s hfooter
      simp only [Prod.mk.injEq, Except.ok.injEq] at h
      obtain ⟨rfl, rfl⟩ := h
      by_cases hkind : kind ⟨mid, finish⟩ = .indent
      · obtain ⟨indent, mid, rfl, hindent⟩ := eq_cons_of_kind hkind (by decide)
        simp only [kind_cons, hindent, decide_true, ↓reduceIte,
          advance_cons (show indent.kind ≠ .endOfFile by simp [hindent])] at hfooter hafter ⊢
        -- the errors of the block are those of the node
        rcases hblock : Block.parse ⟨mid, finish⟩ with ⟨ss, errors, last⟩
        simp only [hblock, List.nil_append] at hfooter hafter ⊢
        subst hafter
        obtain ⟨rest, rfl, hbody⟩ := Block.parseWithin_sound hblock
        obtain ⟨dedent, final, rest, rfl, hdedent, hfinal, rfl, rfl⟩ :=
          nodeFooter_true_eq_ok.1 hfooter
        exact ⟨rest, rfl, .node hword hname hend hfinal (.present hindent hdedent hbody)⟩
      · simp only [hkind, decide_false, Bool.false_eq_true, ↓reduceIte, List.append_nil]
          at hfooter hafter ⊢
        obtain ⟨final, rest, rfl, hfinal, rfl, rfl⟩ := nodeFooter_false_eq_ok.1 hfooter
        exact ⟨rest, rfl, .node hword hname hend hfinal .absent⟩

theorem node_complete {n : Node} (h : NodeText n ts rest) :
    node ⟨⟨ts, finish⟩, errors⟩ = (.ok n, ⟨⟨rest, finish⟩, errors⟩) := by
  obtain ⟨hword, hname, hend, hfinal, hblock⟩ := h
  unfold node
  rw [nodeHeader_eq_ok.2 ⟨_, _, _, _, rfl, hword, hname, hend, rfl, rfl, rfl⟩]
  dsimp only
  cases hblock with
  | absent =>
    simp only [kind_cons, hfinal, reduceCtorEq, decide_false, Bool.false_eq_true, ↓reduceIte,
      nodeFooter_false_eq_ok.2 ⟨_, _, rfl, hfinal, rfl, rfl⟩, List.append_nil]
  | @present indent dedent _ ts rest hindent hdedent hbody =>
    have hread : Block.parse ⟨ts, finish⟩ = ⟨_, [], _⟩ :=
      Block.parseWithin_complete hbody hdedent (Nat.le_refl _)
    simp only [kind_cons, hindent, decide_true, ↓reduceIte, hread,
      advance_cons (show indent.kind ≠ .endOfFile by simp [hindent]),
      nodeFooter_true_eq_ok.2 ⟨_, _, _, rfl, hdedent, hfinal, rfl, rfl⟩, List.append_nil]

theorem errors_prefix_nodesWithin (limit : Nat) (p : Parser) :
    p.errors <+: (nodesWithin limit p).2.errors := by
  induction limit generalizing p with
  | zero => exact List.prefix_rfl
  | succ limit ih =>
    unfold nodesWithin
    have hnext := errors_prefix_nextNodeWithin (p.stream.tokens.length + 1) p
    rw [← nextNode] at hnext
    split <;> rename_i hread <;> rw [hread] at hnext
    · exact hnext
    · exact hnext.trans (ih _)

theorem nextNodeWithin_sound {limit : Nat} {n? : Option Node} {after : Parser}
    (h : nextNodeWithin (limit + 1) ⟨⟨ts, finish⟩, []⟩ = (n?, after)) (hafter : after.errors = []) :
    (n? = none ∧ kind ⟨ts.dropWhile (·.kind = .newline), finish⟩ = .endOfFile) ∨
      ∃ n rest, n? = some n ∧ after = ⟨⟨rest, finish⟩, []⟩ ∧
        NodeText n (ts.dropWhile (·.kind = .newline)) rest := by
  unfold nextNodeWithin at h
  by_cases hkind : kind ⟨ts.dropWhile (·.kind = .newline), finish⟩ = .endOfFile
  · simp only [skipNewlines, hkind, ↓reduceIte] at h
    exact .inl ⟨(Prod.mk.inj h).1.symm, hkind⟩
  · simp only [skipNewlines, hkind, ↓reduceIte] at h
    split at h
    · rename_i n after' hread
      obtain ⟨rfl, rfl⟩ := Prod.mk.inj h
      obtain ⟨rest, rfl, hnode⟩ := node_sound hread hafter
      exact .inr ⟨n, rest, rfl, rfl, hnode⟩
    · -- the error of this try would still be there
      rename_i e after' hread
      have herrors := errors_prefix_nextNodeWithin limit
        { (after'.record e) with stream := (after'.record e).stream.skipToNode }
      rw [h, hafter, List.prefix_nil] at herrors
      exact absurd herrors (by simp [record])

theorem nextNodeWithin_of_endOfFile {limit : Nat}
    (h : kind ⟨ts.dropWhile (·.kind = .newline), finish⟩ = .endOfFile) :
    nextNodeWithin (limit + 1) ⟨⟨ts, finish⟩, errors⟩ =
      (none, ⟨⟨ts.dropWhile (·.kind = .newline), finish⟩, errors⟩) := by
  unfold nextNodeWithin
  simp only [skipNewlines, h, ↓reduceIte]

theorem nextNodeWithin_of_node {limit : Nat} {n : Node}
    (h : NodeText n (ts.dropWhile (·.kind = .newline)) rest) :
    nextNodeWithin (limit + 1) ⟨⟨ts, finish⟩, errors⟩ = (some n, ⟨⟨rest, finish⟩, errors⟩) := by
  obtain ⟨t, tail, hts, hkind⟩ := h.starts
  unfold nextNodeWithin
  simp only [skipNewlines, node_complete h]
  rw [if_neg]
  rw [hts, kind_cons, hkind]
  decide

theorem nodesWithin_sound {limit : Nat} {program : Program} {last : Parser}
    (h : nodesWithin limit ⟨⟨ts, finish⟩, []⟩ = (program, last)) (hlast : last.errors = [])
    (hts : Terminated ts) (hlimit : ts.length < limit) : Script program ts := by
  induction limit generalizing ts program with
  | zero => omega
  | succ limit ih =>
    unfold nodesWithin nextNode at h
    rcases hread : nextNodeWithin _ ⟨⟨ts, finish⟩, []⟩ with ⟨n?, after⟩
    rw [hread] at h
    have hskip := passes_dropWhile_newline ts
    cases n? with
    | none =>
      obtain ⟨rfl, rfl⟩ := Prod.mk.inj h
      have hkind : kind ⟨ts.dropWhile (·.kind = .newline), finish⟩ = .endOfFile := by
        obtain ⟨-, hkind⟩ | ⟨n, rest, hn, -⟩ := nextNodeWithin_sound hread hlast
        · exact hkind
        · cases hn
      refine Script.of_dropWhile ?_
      cases hrest : ts.dropWhile (·.kind = .newline) with
      | nil => exact absurd hrest (hskip.terminated hts).ne_nil
      | cons t tail =>
        rw [hrest] at hkind hskip
        obtain rfl := (hskip.terminated hts).eq_singleton hkind
        exact .done hkind
    | some n =>
      dsimp only at h
      rcases hnodes : nodesWithin limit after with ⟨nodes, last'⟩
      rw [hnodes] at h
      obtain ⟨rfl, rfl⟩ := Prod.mk.inj h
      -- what was recorded up to the first node is still there at the end
      have herrors := errors_prefix_nodesWithin limit after
      rw [hnodes, hlast, List.prefix_nil] at herrors
      obtain ⟨hn, -⟩ | ⟨n', rest, hn, rfl, hnode⟩ := nextNodeWithin_sound hread herrors
      · cases hn
      obtain rfl := Option.some.inj hn
      have hpasses := hskip.trans hnode.passes
      have hlength := hnode.length_lt
      have hle := hskip.length_le
      exact Script.of_dropWhile (.node hnode (ih hnodes (hpasses.terminated hts) (by omega)))

theorem nodesWithin_complete {limit : Nat} {program : Program} (h : Script program ts)
    (hlimit : ts.length < limit) :
    ∃ last, nodesWithin limit ⟨⟨ts, finish⟩, errors⟩ = (program, last) ∧ last.errors = errors := by
  induction limit generalizing ts program with
  | zero => omega
  | succ limit ih =>
    unfold nodesWithin nextNode
    rcases h.dropWhile with ⟨rfl, t, hts, hkind⟩ | ⟨n, nodes, mid, rfl, hnode, hscript⟩
    · rw [nextNodeWithin_of_endOfFile (by rw [hts, kind_cons, hkind])]
      exact ⟨_, rfl, rfl⟩
    · have hlength := hnode.length_lt
      have hle := (passes_dropWhile_newline ts).length_le
      obtain ⟨last, hnodes, hlast⟩ := ih hscript (by omega)
      rw [nextNodeWithin_of_node hnode]
      simp only [hnodes]
      exact ⟨last, rfl, hlast⟩

end Parser

/-- The parser accepts exactly the scripts of the grammar, and gives what was derived. -/
theorem parse_eq_ok {tokens : List Token} {program : Program} (h : Terminated tokens) :
    parse tokens = .ok program ↔ Script program tokens := by
  unfold parse Parser.nodes Parser.ofTokens TokenStream.ofTokens
  generalize (tokens.getLast?.map (·.span.stop)).getD .start = finish
  constructor
  · intro hparse
    rcases hread : Parser.nodesWithin (tokens.length + 1) ⟨⟨tokens, finish⟩, []⟩ with ⟨nodes, last⟩
    simp only [hread] at hparse
    split at hparse
    · rename_i hlast
      obtain rfl := Except.ok.inj hparse
      exact Parser.nodesWithin_sound hread (List.isEmpty_iff.1 hlast) h (by omega)
    · simp at hparse
  · intro hscript
    have hread : ∃ last, Parser.nodesWithin (tokens.length + 1) ⟨⟨tokens, finish⟩, []⟩ =
        (program, last) ∧ last.errors = [] := Parser.nodesWithin_complete hscript (Nat.lt_succ_self _)
    obtain ⟨last, hread, hlast⟩ := hread
    simp only [hread, hlast, List.isEmpty_nil, ↓reduceIte]

/-- The tokens of a text are parsed without an error exactly if the grammar derives them, and then
the program is the one derived. -/
theorem parse_lexed_eq_ok_iff_script {source : String} {tokens : List Token} {program : Program}
    (h : lex source = .ok tokens) : parse tokens = .ok program ↔ Script program tokens :=
  parse_eq_ok (terminated_of_lex h)

theorem parse_lexed_goto :
    ∃ tokens, lex "\nnode a\n  goto :a\n\nend" = .ok tokens ∧
      Script [⟨"a", [.goto "a" ⟨⟨3, 3⟩, ⟨3, 10⟩⟩ ⟨⟨3, 8⟩, ⟨3, 10⟩⟩], ⟨⟨2, 1⟩, ⟨5, 4⟩⟩⟩] tokens := by
  have h : lex "\nnode a\n  goto :a\n\nend" = .ok
      [⟨.nodeWord, "node", ⟨⟨2, 1⟩, ⟨2, 5⟩⟩⟩, ⟨.identifier, "a", ⟨⟨2, 6⟩, ⟨2, 7⟩⟩⟩,
        ⟨.newline, "\n", ⟨⟨2, 7⟩, ⟨2, 7⟩⟩⟩, ⟨.indent, "2", ⟨⟨3, 1⟩, ⟨3, 3⟩⟩⟩,
        ⟨.gotoWord, "goto", ⟨⟨3, 3⟩, ⟨3, 7⟩⟩⟩, ⟨.colon, ":", ⟨⟨3, 8⟩, ⟨3, 9⟩⟩⟩,
        ⟨.identifier, "a", ⟨⟨3, 9⟩, ⟨3, 10⟩⟩⟩, ⟨.newline, "\n", ⟨⟨3, 10⟩, ⟨3, 10⟩⟩⟩,
        ⟨.dedent, "", ⟨⟨5, 1⟩, ⟨5, 1⟩⟩⟩, ⟨.endWord, "end", ⟨⟨5, 1⟩, ⟨5, 4⟩⟩⟩,
        ⟨.newline, "\n", ⟨⟨5, 4⟩, ⟨5, 4⟩⟩⟩, ⟨.endOfFile, "EOF", ⟨⟨5, 4⟩, ⟨5, 4⟩⟩⟩] := by cbv
  exact ⟨_, h, (parse_lexed_eq_ok_iff_script h).1 (by rfl)⟩

end DialogueScript
