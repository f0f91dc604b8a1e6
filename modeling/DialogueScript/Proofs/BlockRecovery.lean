import DialogueScript.ParseProgram
import DialogueScript.Proofs.Layout
import DialogueScript.Proofs.LineLocality

namespace DialogueScript

/-- How many blocks are open behind `ts` if `depth` are open before it. There is no answer if `ts` ends more
blocks than that, or holds the end of the file. -/
def openBlocks (depth : Nat) : List Token → Option Nat
  | [] => some depth
  | t :: ts =>
    match t.kind with
    | .indent => openBlocks (depth + 1) ts
    | .dedent => if depth = 0 then none else openBlocks (depth - 1) ts
    | .endOfFile => none
    | _ => openBlocks depth ts

/-- Among the tokens is no end of the file, and the blocks that begin there are those that end there. -/
structure Balanced (ts : List Token) : Prop where
  nests : Nests .indent .dedent (ts.map Token.kind) 0
  kind_ne_endOfFile : ∀ t ∈ ts, t.kind ≠ .endOfFile

section OpenBlocks

variable {t : Token} {ts more : List Token} {depth left : Nat}

theorem openBlocks_cons : openBlocks depth (t :: ts) = some left ↔
    (t.kind = .indent ∧ openBlocks (depth + 1) ts = some left) ∨
    (t.kind = .dedent ∧ ∃ outer, depth = outer + 1 ∧ openBlocks outer ts = some left) ∨
    (t.kind ≠ .indent ∧ t.kind ≠ .dedent ∧ t.kind ≠ .endOfFile ∧ openBlocks depth ts = some left) := by
  rw [openBlocks]
  split <;> rename_i hkind
  · simp [hkind]
  · cases depth <;> simp [hkind]
  · simp [hkind]
  · simp_all

theorem openBlocks_append :
    openBlocks depth (ts ++ more) = (openBlocks depth ts).bind (openBlocks · more) := by
  induction ts generalizing depth with
  | nil => rfl
  | cons t ts ih =>
    rw [List.cons_append, openBlocks, openBlocks]
    split
    · exact ih
    · split
      · rfl
      · exact ih
    · rfl
    · exact ih

theorem openBlocks_content (hts : ∀ t ∈ ts, t.kind.isContent = true) : openBlocks depth ts = some depth := by
  induction ts with
  | nil => rfl
  | cons t ts ih =>
    have ht := hts t (List.mem_cons_self ..)
    refine openBlocks_cons.2 (.inr (.inr ⟨?_, ?_, ?_, ih fun u hu => hts u (.tail _ hu)⟩)) <;>
      (intro hkind; rw [hkind] at ht; cases ht)

/-- The count, told by the numbers of tokens that open and that end a block. -/
theorem openBlocks_eq_some_iff : openBlocks depth ts = some left ↔
    (∀ t ∈ ts, t.kind ≠ .endOfFile) ∧
    (∀ p, p <+: ts.map Token.kind → p.count .dedent ≤ depth + p.count .indent) ∧
    depth + (ts.map Token.kind).count .indent = (ts.map Token.kind).count .dedent + left := by
  induction ts generalizing depth with
  | nil => simp [openBlocks]
  | cons t ts ih =>
    have hprefix : (∀ p, p <+: t.kind :: ts.map Token.kind → p.count .dedent ≤ depth + p.count .indent) ↔
        ∀ p, p <+: ts.map Token.kind → (t.kind :: p).count .dedent ≤ depth + (t.kind :: p).count .indent := by
      constructor
      · exact fun h p hp => h _ ((List.prefix_cons_inj _).2 hp)
      · intro h p hp
        rcases List.prefix_cons_iff.1 hp with rfl | ⟨q, rfl, hq⟩
        · exact Nat.zero_le _
        · exact h q hq
    rw [openBlocks_cons, List.map_cons, hprefix, List.forall_mem_cons]
    by_cases hindent : t.kind = .indent
    · grind
    by_cases hdedent : t.kind = .dedent
    · cases depth with
      | zero =>
        -- the first token alone ends a block that is not open
        refine ⟨by simp [hdedent], fun ⟨_, hbelow, _⟩ => ?_⟩
        exact absurd (hbelow [] List.nil_prefix) (by simp [hdedent])
      | succ depth => grind
    · grind

theorem exists_closing {inner outer : Nat} (h : openBlocks (inner + 1 + outer) ts = some 0) :
    ∃ inside closing rest, ts = inside ++ closing :: rest ∧ closing.kind = .dedent ∧
      openBlocks inner inside = some 0 ∧ openBlocks outer rest = some 0 := by
  induction ts generalizing inner with
  | nil =>
    have := Option.some.inj h
    omega
  | cons t ts ih =>
    rcases openBlocks_cons.1 h with ⟨hkind, hts⟩ | ⟨hkind, outer', houter, hts⟩ | ⟨hindent, hdedent, hend, hts⟩
    · rw [show inner + 1 + outer + 1 = inner + 1 + 1 + outer by omega] at hts
      obtain ⟨inside, closing, rest, rfl, hclosing, hinside, hrest⟩ := ih hts
      exact ⟨t :: inside, closing, rest, rfl, hclosing, openBlocks_cons.2 (.inl ⟨hkind, hinside⟩), hrest⟩
    · cases inner with
      | zero =>
        obtain rfl : outer' = outer := by omega
        exact ⟨[], t, ts, rfl, hkind, rfl, hts⟩
      | succ inner =>
        obtain rfl : outer' = inner + 1 + outer := by omega
        obtain ⟨inside, closing, rest, rfl, hclosing, hinside, hrest⟩ := ih hts
        exact ⟨t :: inside, closing, rest, rfl, hclosing,
          openBlocks_cons.2 (.inr (.inl ⟨hkind, inner, rfl, hinside⟩)), hrest⟩
    · obtain ⟨inside, closing, rest, rfl, hclosing, hinside, hrest⟩ := ih hts
      exact ⟨t :: inside, closing, rest, rfl, hclosing,
        openBlocks_cons.2 (.inr (.inr ⟨hindent, hdedent, hend, hinside⟩)), hrest⟩

end OpenBlocks

theorem balanced_iff {ts : List Token} : Balanced ts ↔ openBlocks 0 ts = some 0 := by
  simp only [openBlocks_eq_some_iff, Nat.zero_add, Nat.add_zero]
  constructor
  · exact fun ⟨⟨hbelow, hcount⟩, hend⟩ => ⟨hend, hbelow, hcount⟩
  · exact fun ⟨hend, hbelow, hcount⟩ => ⟨⟨hbelow, hcount⟩, hend⟩

instance : DecidablePred Balanced := fun _ => decidable_of_iff _ balanced_iff.symm

namespace TokenStream

variable {closing : Token} {ts rest : List Token} {depth : Nat}

/-- A block is passed up to the token that ends it, whatever blocks are inside. -/
theorem afterBlock_append (h : openBlocks depth ts = some 0) (hclosing : closing.kind = .dedent) :
    afterBlock (depth + 1) (ts ++ closing :: rest) = rest := by
  induction ts generalizing depth with
  | nil =>
    obtain rfl : depth = 0 := Option.some.inj h
    simp [afterBlock, hclosing]
  | cons t ts ih =>
    rw [List.cons_append, afterBlock]
    rcases openBlocks_cons.1 h with ⟨hkind, hts⟩ | ⟨hkind, outer, rfl, hts⟩ | ⟨hindent, hdedent, hend, hts⟩
    · rw [hkind]
      exact ih hts
    · rw [hkind]
      exact (if_neg (by omega)).trans (ih hts)
    · split
      · contradiction
      · contradiction
      · contradiction
      · exact ih hts

theorem afterLine_append (h : openBlocks depth ts = some 0) :
    ∃ left, left <:+ ts.tail ∧ openBlocks 0 left = some 0 ∧
      ∀ closing rest, closing.kind = .dedent →
        afterLine depth (ts ++ closing :: rest) = left ++ closing :: rest := by
  induction ts generalizing depth with
  | nil =>
    obtain rfl : depth = 0 := Option.some.inj h
    exact ⟨[], List.suffix_refl _, rfl, fun closing rest hclosing => by simp [afterLine, hclosing]⟩
  | cons t ts ih =>
    have later {depth' : Nat} (hts : openBlocks depth' ts = some 0)
        (hafter : ∀ more, afterLine depth (t :: (ts ++ more)) = afterLine depth' (ts ++ more)) :
        ∃ left, left <:+ ts ∧ openBlocks 0 left = some 0 ∧ ∀ closing rest, closing.kind = .dedent →
          afterLine depth (t :: (ts ++ closing :: rest)) = left ++ closing :: rest := by
      obtain ⟨left, hleft, hopen, hstop⟩ := ih hts
      exact ⟨left, hleft.trans (List.tail_suffix ts), hopen, fun closing rest hclosing =>
        (hafter _).trans (hstop closing rest hclosing)⟩
    rcases openBlocks_cons.1 h with ⟨hkind, hts⟩ | ⟨hkind, outer, rfl, hts⟩ | ⟨hindent, hdedent, hend, hts⟩
    · exact later hts fun more => by rw [afterLine, hkind]
    · exact later hts fun more => by rw [afterLine, hkind]; exact if_neg (by omega)
    · by_cases hline : t.kind = .newline ∧ depth = 0
      · obtain ⟨hkind, rfl⟩ := hline
        refine ⟨ts, List.suffix_refl ts, hts, fun closing rest hclosing => ?_⟩
        rw [List.cons_append, afterLine, hkind]
        rfl
      · refine later hts fun more => ?_
        rw [afterLine]
        split
        · contradiction
        · contradiction
        · exact if_neg (by tauto)
        · contradiction
        · rfl

theorem afterLine_line {lineEnd : Token} (hts : ∀ t ∈ ts, t.kind.isContent = true)
    (hend : lineEnd.kind = .newline) : afterLine 0 (ts ++ lineEnd :: rest) = rest := by
  induction ts with
  | nil =>
    rw [List.nil_append, afterLine, hend]
    rfl
  | cons t ts ih =>
    have ht := hts t (List.mem_cons_self ..)
    rw [List.cons_append, afterLine]
    split
    case h_5 => exact ih fun u hu => hts u (.tail _ hu)
    all_goals rename_i hlayout; rw [hlayout] at ht; cases ht

theorem skipStatement_prepend (h : openBlocks 0 ts = some 0) :
    ∃ left, left <:+ ts.tail ∧ openBlocks 0 left = some 0 ∧
      ∀ s : TokenStream, s.kind = .dedent → (s.prepend ts).skipStatement = s.prepend left := by
  obtain ⟨left, hleft, hopen, hstop⟩ := afterLine_append h
  refine ⟨left, hleft, hopen, fun s hs => ?_⟩
  obtain ⟨closing, rest, htokens, hclosing⟩ := s.exists_tokens (by rw [hs]; decide)
  rw [skipStatement, prepend, prepend, htokens, hstop closing rest (hclosing.trans hs)]

theorem skipBlock_prepend {opening : Token} (hopening : opening.kind = .indent)
    (h : openBlocks 0 (opening :: ts) = some 0) :
    ∃ left, left <:+ ts ∧ openBlocks 0 left = some 0 ∧
      ∀ s : TokenStream, (s.prepend (opening :: ts)).skipBlock = s.prepend left := by
  rw [openBlocks, hopening] at h
  have h : openBlocks (0 + 1 + 0) ts = some 0 := h
  obtain ⟨inside, closing, left, rfl, hclosing, hinside, hleft⟩ := exists_closing h
  refine ⟨left, ⟨inside ++ [closing], by simp⟩, hleft, fun s => ?_⟩
  rw [skipBlock, prepend, prepend, List.cons_append, List.append_assoc, afterBlock, hopening]
  exact congrArg (TokenStream.mk · s.finish) (afterBlock_append hinside hclosing)

end TokenStream

open TokenStream

namespace Block

def behind (ss : List Statement) (es : List ScriptError) (b : Block) : Block :=
  ⟨ss ++ b.statements, es ++ b.errors, b.rest⟩

variable {s s' : TokenStream} {ts : List Token} {limit limit' : Nat}

theorem parseWithin_of_dedent (h : s.kind = .dedent) : parseWithin (limit + 1) s = ⟨[], [], s⟩ := by
  unfold parseWithin
  rw [h]

theorem parseWithin_of_newline (h : s.kind = .newline) :
    parseWithin (limit + 1) s = parseWithin limit s.advance := by
  rw [parseWithin, h]

theorem parseWithin_of_indent (h : s.kind = .indent) :
    parseWithin (limit + 1) s = (parseWithin limit s.skipBlock).behind []
      [⟨.unexpectedIndentation, s.current.span.start⟩] := by
  rw [parseWithin, h]
  rfl

theorem parseWithin_of_ok {st : Statement} {rest : TokenStream} (hkind : s.kind.isContent = true)
    (h : Parse.statement s = (.ok st, rest)) :
    parseWithin (limit + 1) s = (parseWithin limit rest).behind [st] [] := by
  rw [parseWithin]
  split
  case h_5 => rw [h]; rfl
  all_goals rename_i hlayout; rw [hlayout] at hkind; cases hkind

theorem parseWithin_of_error {e : ScriptError} {rest : TokenStream} (hkind : s.kind.isContent = true)
    (h : Parse.statement s = (.error e, rest)) :
    parseWithin (limit + 1) s = (parseWithin limit rest.skipStatement).behind [] [e] := by
  rw [parseWithin]
  split
  case h_5 => rw [h]; rfl
  all_goals rename_i hlayout; rw [hlayout] at hkind; cases hkind

/-- In front of `s`, the part of a block up to `left` gives these statements and errors. -/
def ReadsTo (s : TokenStream) (ts left : List Token) (ss : List Statement) (es : List ScriptError) : Prop :=
  ∀ limit, parseWithin (limit + 1) (s.prepend ts) = (parseWithin limit (s.prepend left)).behind ss es

theorem readsTo_line (h : LineStops s s') (hdedent : s.kind = .dedent) (hts : openBlocks 0 ts = some 0)
    (hkind : (s.prepend ts).kind.isContent = true) :
    ∃ left ss es, left.length < ts.length ∧ openBlocks 0 left = some 0 ∧
      ReadsTo s ts left ss es ∧ ReadsTo s' ts left ss es := by
  have hdedent' : s'.kind = .dedent := h.kind_eq ▸ hdedent
  have hkind' : (s'.prepend ts).kind.isContent = true := by
    rwa [← h.kind_prepend]
  have hpos : 0 < ts.length := by
    obtain ⟨_, _, rfl⟩ := h.exists_cons hkind
    exact Nat.succ_pos _
  obtain ⟨content, more, rfl, hcontent, hstop⟩ := h.exists_line ts
  have hmore : openBlocks 0 more = some 0 := by
    rwa [openBlocks_append, openBlocks_content hcontent] at hts
  rcases Parse.statement_same hcontent hstop with ⟨e, left, hleft, hread, hread'⟩ | ⟨hend, st, hread, hread'⟩ <;>
    rw [← prepend_append] at hread hread'
  · rw [← prepend_append] at hread hread'
    -- the error stands on this line, so that the rest of the line is passed over
    have hopen : openBlocks 0 (left ++ more) = some 0 := by
      rw [openBlocks_append, openBlocks_content fun t ht => hcontent t (hleft.subset ht)]
      exact hmore
    obtain ⟨after, hafter, hopen, hskip⟩ := skipStatement_prepend hopen
    refine ⟨after, [], [e], ?_, hopen, fun limit => ?_, fun limit => ?_⟩
    · have hle := hafter.length_le
      have hle' := hleft.length_le
      simp only [List.length_tail, List.length_append] at *
      omega
    · rw [parseWithin_of_error hkind hread, hskip s hdedent]
    · rw [parseWithin_of_error hkind' hread', hskip s' hdedent']
  · cases more with
    | nil => rw [show s.kind = .newline from hend] at hdedent; cases hdedent
    | cons lineEnd more =>
      have hlineEnd : lineEnd.kind = .newline := hend
      have hopen : openBlocks 0 more = some 0 := by rwa [openBlocks, hlineEnd] at hmore
      rw [advance_prepend (by simp [hlineEnd])] at hread hread'
      refine ⟨more, [st], [], ?_, hopen, fun limit => ?_, fun limit => ?_⟩
      · simp only [List.length_append, List.length_cons]
        omega
      · exact parseWithin_of_ok hkind hread
      · exact parseWithin_of_ok hkind' hread'

/-- What stands first in a block is read or passed over, whatever comes behind the block. -/
theorem exists_readsTo (h : LineStops s s') (hdedent : s.kind = .dedent) (hts : openBlocks 0 ts = some 0)
    (hne : ts ≠ []) :
    ∃ left ss es, left.length < ts.length ∧ openBlocks 0 left = some 0 ∧
      ReadsTo s ts left ss es ∧ ReadsTo s' ts left ss es := by
  obtain ⟨t, ts, rfl⟩ := List.exists_cons_of_ne_nil hne
  rcases openBlocks_cons.1 hts with ⟨hindent, -⟩ | ⟨-, outer, houter, -⟩ | ⟨hindent, hclosing, hend, hrest⟩
  · obtain ⟨left, hleft, hopen, hskip⟩ := skipBlock_prepend hindent hts
    refine ⟨left, [], [⟨.unexpectedIndentation, t.span.start⟩], ?_, hopen, fun limit => ?_, fun limit => ?_⟩
    · have := hleft.length_le
      simp only [List.length_cons]
      omega
    · exact (parseWithin_of_indent (s := s.prepend (t :: ts)) hindent).trans (by rw [hskip]; rfl)
    · exact (parseWithin_of_indent (s := s'.prepend (t :: ts)) hindent).trans (by rw [hskip]; rfl)
  · omega
  · by_cases hnewline : t.kind = .newline
    · refine ⟨ts, [], [], Nat.lt_succ_self _, hrest, fun limit => ?_, fun limit => ?_⟩
      · exact (parseWithin_of_newline (s := s.prepend (t :: ts)) hnewline).trans (by rw [advance_prepend hend]; rfl)
      · exact (parseWithin_of_newline (s := s'.prepend (t :: ts)) hnewline).trans (by rw [advance_prepend hend]; rfl)
    · exact readsTo_line h hdedent hts (TokenKind.isContent_of_ne hclosing hend hnewline hindent)

/-- A block is read up to its end, and what is read there does not depend on what comes behind. -/
theorem parseWithin_same (h : LineStops s s') (hdedent : s.kind = .dedent) (hts : openBlocks 0 ts = some 0)
    (hlimit : ts.length < limit) (hlimit' : ts.length < limit') :
    ∃ ss es, parseWithin limit (s.prepend ts) = ⟨ss, es, s⟩ ∧
      parseWithin limit' (s'.prepend ts) = ⟨ss, es, s'⟩ := by
  induction limit generalizing limit' ts with
  | zero => omega
  | succ limit ih =>
    obtain ⟨limit', rfl⟩ : ∃ n, limit' = n + 1 := ⟨limit' - 1, by omega⟩
    by_cases hne : ts = []
    · subst hne
      exact ⟨[], [], parseWithin_of_dedent hdedent, parseWithin_of_dedent (h.kind_eq ▸ hdedent)⟩
    · obtain ⟨left, ss, es, hlt, hleft, hstep, hstep'⟩ := exists_readsTo h hdedent hts hne
      obtain ⟨ss', es', hread, hread'⟩ := ih hleft (by omega) (show left.length < limit' by omega)
      exact ⟨ss ++ ss', es ++ es', by rw [hstep, hread]; rfl, by rw [hstep', hread']; rfl⟩

theorem parse_same (h : LineStops s s') (hdedent : s.kind = .dedent) (hts : openBlocks 0 ts = some 0) :
    ∃ ss es, parse (s.prepend ts) = ⟨ss, es, s⟩ ∧ parse (s'.prepend ts) = ⟨ss, es, s'⟩ := by
  have hdedent' : s'.kind = .dedent := h.kind_eq ▸ hdedent
  obtain ⟨_, _, htokens, -⟩ := s.exists_tokens (by rw [hdedent]; decide)
  obtain ⟨_, _, htokens', -⟩ := s'.exists_tokens (by rw [hdedent']; decide)
  refine parseWithin_same h hdedent hts ?_ ?_
  · simp [prepend, htokens]
  · simp [prepend, htokens']

end Block

structure TokenLine where
  content : List Token
  lineEnd : Token
  content_ne_nil : content ≠ []
  isContent : ∀ t ∈ content, t.kind.isContent = true
  lineEnd_kind : lineEnd.kind = .newline

namespace TokenLine

def tokens (line : TokenLine) : List Token := line.content ++ [line.lineEnd]

/-- What the line is when it stands alone. -/
def outcome (line : TokenLine) : Except ScriptError Statement := (Parse.statement (.ofTokens line.tokens)).1

end TokenLine

/-- A block that stands where a line is expected. -/
structure StrayBlock where
  opening : Token
  inside : List Token
  closing : Token
  opening_kind : opening.kind = .indent
  balanced : Balanced inside
  closing_kind : closing.kind = .dedent

def StrayBlock.tokens (block : StrayBlock) : List Token := block.opening :: block.inside ++ [block.closing]

inductive BlockItem where
  | line (text : TokenLine)
  | stray (block : StrayBlock)

namespace BlockItem

def tokens : BlockItem → List Token
  | .line text => text.tokens
  | .stray block => block.tokens

/-- The statement on a line that is one, and the error of any other item. -/
def outcome : BlockItem → Except ScriptError Statement
  | .line text => text.outcome
  | .stray block => .error ⟨.unexpectedIndentation, block.opening.span.start⟩

theorem length_tokens_pos : ∀ item : BlockItem, 0 < item.tokens.length
  | .line text => by simp [tokens, TokenLine.tokens]
  | .stray block => by simp [tokens, StrayBlock.tokens]

theorem length_lt_length_tokens (items : List BlockItem) {s : TokenStream} (hdedent : s.kind = .dedent) :
    items.length < (s.prepend (items.flatMap tokens)).tokens.length := by
  induction items with
  | nil =>
    obtain ⟨_, _, htokens, -⟩ := s.exists_tokens (by rw [hdedent]; decide)
    simp [prepend, htokens]
  | cons item items ih =>
    have hpos := item.length_tokens_pos
    simp only [prepend, List.length_cons, List.flatMap_cons, List.length_append] at ih ⊢
    omega

def statement? (item : BlockItem) : Option Statement :=
  match item.outcome with
  | .ok st => some st
  | .error _ => none

def error? (item : BlockItem) : Option ScriptError :=
  match item.outcome with
  | .ok _ => none
  | .error e => some e

end BlockItem

namespace Block

variable {s : TokenStream} {limit : Nat}

theorem parseWithin_line (text : TokenLine) :
    parseWithin (limit + 1) (s.prepend text.tokens) = (parseWithin limit s).behind
      (BlockItem.line text).statement?.toList (BlockItem.line text).error?.toList := by
  obtain ⟨content, lineEnd, hne, hcontent, hend⟩ := text
  obtain ⟨t, content, rfl⟩ := List.exists_cons_of_ne_nil hne
  have hkind : (s.prepend (t :: content ++ [lineEnd])).kind.isContent = true :=
    hcontent t (List.mem_cons_self ..)
  let alone := TokenStream.ofTokens (t :: content ++ [lineEnd])
  have hstop : LineStops (s.prepend [lineEnd]) ⟨[lineEnd], alone.finish⟩ :=
    .of_eq rfl (show lineEnd.kind.isContent = false by rw [hend]; rfl)
  rcases Parse.statement_same hcontent hstop with ⟨e, left, hleft, hread, halone⟩ | ⟨-, st, hread, halone⟩ <;>
    rw [← prepend_append] at hread
  · have houtcome : (BlockItem.line ⟨_, lineEnd, hne, hcontent, hend⟩).outcome = .error e := congrArg Prod.fst halone
    have hskip : ((s.prepend [lineEnd]).prepend left).skipStatement = s :=
      congrArg (TokenStream.mk · s.finish) (afterLine_line (fun u hu => hcontent u (hleft.subset hu)) hend)
    simp only [BlockItem.statement?, BlockItem.error?, houtcome]
    exact (parseWithin_of_error hkind hread).trans (by rw [hskip]; rfl)
  · have houtcome : (BlockItem.line ⟨_, lineEnd, hne, hcontent, hend⟩).outcome = .ok st := congrArg Prod.fst halone
    simp only [BlockItem.statement?, BlockItem.error?, houtcome]
    exact (parseWithin_of_ok hkind hread).trans (by rw [advance_prepend (by simp [hend])]; rfl)

theorem parseWithin_stray (block : StrayBlock) :
    parseWithin (limit + 1) (s.prepend block.tokens) =
      (parseWithin limit s).behind [] [⟨.unexpectedIndentation, block.opening.span.start⟩] := by
  obtain ⟨opening, inside, closing, hopening, hinside, hclosing⟩ := block
  have hskip : (s.prepend (opening :: inside ++ [closing])).skipBlock = s := by
    rw [skipBlock, prepend, List.cons_append, List.cons_append, afterBlock, hopening, List.append_assoc]
    exact congrArg (TokenStream.mk · s.finish) (afterBlock_append (balanced_iff.1 hinside) hclosing)
  exact (parseWithin_of_indent (s := s.prepend (opening :: inside ++ [closing])) hopening).trans (by rw [hskip]; rfl)

theorem parseWithin_item (item : BlockItem) :
    parseWithin (limit + 1) (s.prepend item.tokens) =
      (parseWithin limit s).behind item.statement?.toList item.error?.toList := by
  cases item with
  | line text => exact parseWithin_line text
  | stray block => exact parseWithin_stray block

theorem parseWithin_items (items : List BlockItem) (hdedent : s.kind = .dedent) (hlimit : items.length < limit) :
    parseWithin limit (s.prepend (items.flatMap BlockItem.tokens)) =
      ⟨items.filterMap BlockItem.statement?, items.filterMap BlockItem.error?, s⟩ := by
  induction items generalizing limit with
  | nil =>
    obtain ⟨limit, rfl⟩ : ∃ n, limit = n + 1 := ⟨limit - 1, by omega⟩
    exact parseWithin_of_dedent hdedent
  | cons item items ih =>
    simp only [List.length_cons] at hlimit
    obtain ⟨limit, rfl⟩ : ∃ n, limit = n + 1 := ⟨limit - 1, by omega⟩
    rw [List.flatMap_cons, prepend_append, parseWithin_item, ih (by omega), behind]
    cases hs : item.statement? <;> cases he : item.error? <;> simp [hs, he]

/-- A block ends at the token that closes it, whatever is wrong inside: every line that is a statement
gives this statement, and every other item gives one error. -/
theorem parse_items (items : List BlockItem) {closing : Token} (hclosing : closing.kind = .dedent)
    (rest : List Token) (finish : Position) :
    parse ⟨items.flatMap BlockItem.tokens ++ closing :: rest, finish⟩ =
      ⟨items.filterMap BlockItem.statement?, items.filterMap BlockItem.error?, ⟨closing :: rest, finish⟩⟩ := by
  have hdedent : TokenStream.kind ⟨closing :: rest, finish⟩ = .dedent := hclosing
  exact parseWithin_items items hdedent (BlockItem.length_lt_length_tokens items hdedent)

/-- Four items: two lines that are statements, and between them a line without the colon and a block. -/
def brokenItems : List BlockItem :=
  [.line ⟨[⟨.gotoWord, "goto", ⟨⟨5, 3⟩, ⟨5, 7⟩⟩⟩, ⟨.colon, ":", ⟨⟨5, 8⟩, ⟨5, 9⟩⟩⟩,
      ⟨.identifier, "b", ⟨⟨5, 9⟩, ⟨5, 10⟩⟩⟩], ⟨.newline, "\n", .point ⟨5, 10⟩⟩, by simp, by decide, rfl⟩,
    .line ⟨[⟨.gotoWord, "goto", ⟨⟨6, 3⟩, ⟨6, 7⟩⟩⟩, ⟨.identifier, "b", ⟨⟨6, 8⟩, ⟨6, 9⟩⟩⟩],
      ⟨.newline, "\n", .point ⟨6, 9⟩⟩, by simp, by decide, rfl⟩,
    .stray ⟨⟨.indent, "4", ⟨⟨7, 1⟩, ⟨7, 5⟩⟩⟩, [⟨.endWord, "end", ⟨⟨7, 5⟩, ⟨7, 8⟩⟩⟩,
      ⟨.newline, "\n", .point ⟨7, 8⟩⟩], ⟨.dedent, "", .point ⟨8, 3⟩⟩, rfl, by decide, rfl⟩,
    .line ⟨[⟨.sayWord, "say", ⟨⟨8, 3⟩, ⟨8, 6⟩⟩⟩, ⟨.string, "x", ⟨⟨8, 7⟩, ⟨8, 10⟩⟩⟩],
      ⟨.newline, "\n", .point ⟨8, 10⟩⟩, by simp, by decide, rfl⟩]

/-- Behind the block there is another end of a block. -/
theorem parse_brokenItems :
    parse ⟨brokenItems.flatMap BlockItem.tokens ++
        [⟨.dedent, "", .point ⟨9, 1⟩⟩, ⟨.dedent, "", .point ⟨9, 1⟩⟩], ⟨9, 1⟩⟩ =
      ⟨[.goto "b" ⟨⟨5, 3⟩, ⟨5, 10⟩⟩ ⟨⟨5, 8⟩, ⟨5, 10⟩⟩, .say (.ofString "x") ⟨⟨8, 3⟩, ⟨8, 10⟩⟩],
        [⟨.unexpectedToken "':'" "identifier `b`" (some "node references start with ':', e.g. :b"), ⟨6, 8⟩⟩,
          ⟨.unexpectedIndentation, ⟨7, 1⟩⟩],
        ⟨[⟨.dedent, "", .point ⟨9, 1⟩⟩, ⟨.dedent, "", .point ⟨9, 1⟩⟩], ⟨9, 1⟩⟩⟩ :=
  (parse_items brokenItems rfl _ _).trans (by rfl)

end Block

end DialogueScript
