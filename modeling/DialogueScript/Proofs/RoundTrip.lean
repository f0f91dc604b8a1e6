import DialogueScript.Proofs.RenderedStatement

namespace DialogueScript

open Grammar Scanner Lexeme

namespace Scanner

def lineStart (c : Cursor) (levels : List Nat) (style : Option IndentStyle) : Scanner :=
  ⟨c, levels, style, true, false, [], false⟩

def lineBody (c : Cursor) (levels : List Nat) (style : Option IndentStyle) : Scanner :=
  ⟨c, levels, style, false, false, [], false⟩

def Opens (text : List Char) : Prop :=
  ∃ c, text.head? = some c ∧ isIndentChar c = false ∧ c ≠ '#' ∧ isBreak c = false

variable {c : Cursor} {levels : List Nat} {style : Option IndentStyle} {k : List Char}

theorem ready_lineBody (c : Cursor) (levels : List Nat) (style : Option IndentStyle) :
    (lineBody c levels style).Ready := ⟨rfl, .inl ⟨rfl, rfl⟩⟩

theorem step_lineStart (width : Nat) (hrest : c.rest = List.replicate width ' ' ++ k) (hk : Opens k) :
    (lineStart c levels style).step =
      (lineBody (c.along width) levels style).indentTo c.position (List.replicate width ' ') := by
  obtain ⟨first, hfirst, hblank, hhash, hbreak⟩ := hk
  obtain ⟨rest, rfl⟩ := List.head?_eq_some_iff.1 hfirst
  have hrun : c.rest.takeWhile isIndentChar = List.replicate width ' ' := by
    rw [hrest]
    apply (takeWhile_stretch (first :: rest) ?_ ?_).1
    · intro d hd
      rw [List.eq_of_mem_replicate hd]
      rfl
    · intro d hd
      exact Option.some.inj hd ▸ hblank
  have hbehind : (c.along width).rest = first :: rest := by
    have hdrop : ((List.replicate width ' ') ++ first :: rest).drop (List.replicate width ' ').length =
        first :: rest := List.drop_left
    rw [List.length_replicate] at hdrop
    simp only [Cursor.along, hrest, hdrop]
  show (lineStart c levels style).scanIndentation = _
  unfold scanIndentation
  simp only [lineStart, hrun, List.length_replicate, hbehind, hhash, hbreak, ↓reduceIte]
  rfl

theorem indentTo_spaces {width : Nat} (hwidth : 0 < width) (hstyle : style ≠ some .tabs)
    (start : Position) : (lineBody c levels style).indentTo start (List.replicate width ' ') =
      (lineBody c levels (some .spaces)).changeLevel start width := by
  have htabs : (List.replicate width ' ').count '\t' = 0 := by simp [List.count_replicate]
  have hfound : IndentStyle.ofRun (List.replicate width ' ') = .spaces := by
    simp [IndentStyle.ofRun]
  have hexpected : (lineBody c levels style).style.getD .spaces = .spaces := by
    rcases style with _ | _ | _
    · rfl
    · rfl
    · exact absurd rfl hstyle
  unfold indentTo
  simp only [List.length_replicate, htabs, hfound, hexpected, lt_self_iff_false, false_and, ↓reduceIte,
    hwidth.ne']
  rfl

theorem scans_indent (hstyle : style ≠ some .tabs) (hrest : c.rest = ' ' :: ' ' :: k) (hk : Opens k) :
    ∃ t c', t.kind = .indent ∧ c'.rest = k ∧
      Scans (lineStart c [] style) [t] (lineBody c' [2] (some .spaces)) := by
  refine ⟨⟨.indent, toString 2, ⟨c.position, (c.along 2).position⟩⟩, c.along 2, rfl,
    by simp [Cursor.along, hrest], .of_step rfl ?_⟩
  rw [step_lineStart 2 hrest hk, indentTo_spaces (by decide) hstyle]
  rfl

theorem scans_level (hrest : c.rest = ' ' :: ' ' :: k) (hk : Opens k) :
    ∃ c', c'.rest = k ∧
      Scans (lineStart c [2] (some .spaces)) [] (lineBody c' [2] (some .spaces)) := by
  refine ⟨c.along 2, by simp [Cursor.along, hrest], .of_step rfl ?_⟩
  rw [step_lineStart 2 hrest hk, indentTo_spaces (by decide) (by decide)]
  rfl

theorem scans_dedent (style : Option IndentStyle) (hrest : c.rest = k) (hk : Opens k) :
    ∃ t c', t.kind = .dedent ∧ c'.rest = k ∧
      Scans (lineStart c [2] style) [t] (lineBody c' [] style) := by
  refine ⟨⟨.dedent, "", .point (c.along 0).position⟩, c.along 0, rfl, hrest, .of_step rfl ?_⟩
  rw [step_lineStart 0 hrest hk]
  rfl

theorem scans_margin (style : Option IndentStyle) (hrest : c.rest = k) (hk : Opens k) :
    ∃ c', c'.rest = k ∧ Scans (lineStart c [] style) [] (lineBody c' [] style) := by
  refine ⟨c.along 0, hrest, .of_step rfl ?_⟩
  rw [step_lineStart 0 hrest hk]
  rfl

theorem scans_emptyLine (hrest : c.rest = '\n' :: k) :
    ∃ c', c'.rest = k ∧ Scans (lineStart c levels style) [] (lineStart c' levels style) := by
  have hrun : c.rest.takeWhile isIndentChar = [] := by
    rw [hrest]
    rfl
  have hbehind : (c.along 0).rest = '\n' :: k := hrest
  refine ⟨(c.along 0).bump, bump_rest hbehind (by decide), .of_step rfl ?_⟩
  show (lineStart c levels style).scanIndentation = _
  unfold scanIndentation
  simp only [lineStart, hrun, List.length_nil, hbehind]
  rfl

theorem scans_end (style : Option IndentStyle) (hrest : c.rest = []) :
    ∃ t s', t.kind = .endOfFile ∧ s'.finished = true ∧ Scans (lineStart c [] style) [t] s' := by
  have hrun : c.rest.takeWhile isIndentChar = [] := by
    rw [hrest]
    rfl
  have hbehind : (c.along 0).rest = [] := hrest
  have hindentation : (lineStart c [] style).step = ⟨[], none, lineBody (c.along 0) [] style⟩ := by
    show (lineStart c [] style).scanIndentation = _
    unfold scanIndentation
    simp only [lineStart, hrun, List.length_nil, hbehind]
    rfl
  have hfinish : (lineBody (c.along 0) [] style).step = (lineBody (c.along 0) [] style).finish := by
    rw [(ready_lineBody _ _ _).step_eq]
    unfold scanPlain
    simp only [lineBody, hbehind]
  have hlast : Scans (lineBody (c.along 0) [] style) [.endOfFile (c.along 0).position]
      { lineBody (c.along 0) [] style with finished := true } := .of_step rfl hfinish
  exact ⟨_, _, rfl, rfl, (Scans.of_step rfl hindentation).trans hlast⟩

end Scanner

namespace Statement

theorem opens (s : Statement) (k : List Char) : Opens (s.render.toList ++ k) := by
  cases s with
  | assign => exact ⟨'@', by simp [render], by decide, by decide, by decide⟩
  | say => exact ⟨'s', by simp [render], by decide, by decide, by decide⟩
  | choice => exact ⟨'c', by simp [render], by decide, by decide, by decide⟩
  | goto => exact ⟨'g', by simp [render], by decide, by decide, by decide⟩

def lines (ss : List Statement) : List Char :=
  ss.flatMap fun s => ' ' :: ' ' :: (s.render.toList ++ ['\n'])

theorem lines_cons (s : Statement) (ss : List Statement) (k : List Char) :
    lines (s :: ss) ++ k = ' ' :: ' ' :: (s.render.toList ++ '\n' :: (lines ss ++ k)) := by
  simp [lines]

end Statement

structure Node.Writable (node : Node) : Prop where
  id : IsName node.id.toList
  statements : ∀ s ∈ node.statements, s.Writable

def SpellsBody (ss : List Statement) (ts : List Token) : Prop :=
  ∃ ss', ss'.map Statement.unplaced = ss.map Statement.unplaced ∧ ∀ rest, Body ss' (ts ++ rest) rest

def SpellsBlock (ss : List Statement) (ts : List Token) : Prop :=
  ∃ ss', ss'.map Statement.unplaced = ss.map Statement.unplaced ∧
    ∀ rest, Indented ss' (ts ++ rest) rest

/-- Tokens of a node and of the end of its last line, which the grammar does not count to it. -/
def SpellsNode (node : Node) (ts : List Token) : Prop :=
  ∃ node' lineEnd, node'.unplaced = node.unplaced ∧ lineEnd.kind = .newline ∧
    ∀ rest, NodeText node' (ts ++ rest) (lineEnd :: rest)

def SpellsScript (program : Program) (ts : List Token) : Prop :=
  ∃ program', program'.unplaced = program.unplaced ∧ Script program' ts

namespace Scanner

variable {c : Cursor} {levels : List Nat} {style : Option IndentStyle} {k : List Char}
  {ss : List Statement}

/-- Once the first line has opened a block, its lines are scanned one after another. -/
theorem scans_body (h : ∀ s ∈ ss, s.Writable) (hrest : c.rest = Statement.lines ss ++ k) :
    ∃ ts c', c'.rest = k ∧ SpellsBody ss ts ∧
      Scans (lineStart c [2] (some .spaces)) ts (lineStart c' [2] (some .spaces)) := by
  induction ss generalizing c with
  | nil => exact ⟨[], c, hrest, ⟨[], rfl, fun _ => .nil⟩, .refl _⟩
  | cons s ss ih =>
    rw [Statement.lines_cons] at hrest
    have hs : s.Writable := h s List.mem_cons_self
    obtain ⟨c₁, hc₁, hscans₁⟩ := scans_level hrest (s.opens _)
    obtain ⟨ts, c₂, hc₂, ⟨s', hss', hline⟩, hscans₂⟩ := hs.writesLine (ready_lineBody _ _ _) rfl hc₁
    obtain ⟨us, c₃, hc₃, ⟨ss', hsame, hbody⟩, hscans₃⟩ :=
      ih (fun s hs => h s (List.mem_cons_of_mem _ hs)) hc₂
    refine ⟨ts ++ us, c₃, hc₃, ⟨s' :: ss', ?_, fun rest => ?_⟩, hscans₁.trans (hscans₂.trans hscans₃)⟩
    · rw [List.map_cons, List.map_cons, hss', hsame]
    · rw [List.append_assoc]
      exact .line (hline _) (hbody rest)

theorem scans_block (h : ∀ s ∈ ss, s.Writable) (hstyle : style ≠ some .tabs)
    (hrest : c.rest = Statement.lines ss ++ k) (hk : Opens k) :
    ∃ ts c' style', style' ≠ some .tabs ∧ c'.rest = k ∧ SpellsBlock ss ts ∧
      Scans (lineStart c [] style) ts (lineBody c' [] style') := by
  cases ss with
  | nil =>
    obtain ⟨c₁, hc₁, hscans⟩ := scans_margin style hrest hk
    exact ⟨[], c₁, style, hstyle, hc₁, ⟨[], rfl, fun _ => .absent⟩, hscans⟩
  | cons s ss =>
    rw [Statement.lines_cons] at hrest
    have hs : s.Writable := h s List.mem_cons_self
    obtain ⟨indent, c₁, hindent, hc₁, hscans₁⟩ := scans_indent hstyle hrest (s.opens _)
    obtain ⟨ts, c₂, hc₂, ⟨s', hss', hline⟩, hscans₂⟩ := hs.writesLine (ready_lineBody _ _ _) rfl hc₁
    obtain ⟨us, c₃, hc₃, ⟨ss', hsame, hbody⟩, hscans₃⟩ :=
      scans_body (fun s hs => h s (List.mem_cons_of_mem _ hs)) hc₂
    -- the first line has opened a block, which the next line outside of it closes
    obtain ⟨dedent, c₄, hdedent, hc₄, hscans₄⟩ := scans_dedent (some .spaces) hc₃ hk
    refine ⟨_, c₄, some .spaces, by decide, hc₄, ⟨s' :: ss', ?_, fun rest => ?_⟩,
      hscans₁.trans (hscans₂.trans (hscans₃.trans hscans₄))⟩
    · rw [List.map_cons, List.map_cons, hss', hsame]
    · have hlines : Body (s' :: ss') (ts ++ (us ++ dedent :: rest)) (dedent :: rest) :=
        .line (hline _) (hbody _)
      have hblock := Indented.present hindent hdedent hlines
      simpa using hblock

theorem scans_node {node : Node} (h : node.Writable) (hstyle : style ≠ some .tabs)
    (hrest : c.rest = node.render.toList ++ k) :
    ∃ ts c' style', style' ≠ some .tabs ∧ c'.rest = k ∧ SpellsNode node ts ∧
      Scans (lineStart c [] style) ts (lineStart c' [] style') := by
  have hrender : node.render.toList ++ k = "node".toList ++ ' ' :: (node.id.toList ++ '\n' ::
      (Statement.lines node.statements ++ ("end".toList ++ '\n' :: k))) := by
    simp [Node.render, Statement.lines, List.flatMap_map]
  rw [hrender] at hrest
  have hopens : Opens ("node".toList ++ ' ' :: (node.id.toList ++ '\n' ::
      (Statement.lines node.statements ++ ("end".toList ++ '\n' :: k)))) :=
    ⟨'n', rfl, by decide, by decide, by decide⟩
  obtain ⟨c₁, hc₁, hscans₁⟩ := scans_margin style hrest hopens
  have hready := ready_lineBody c₁ [] style
  obtain ⟨word, c₂, hword, hc₂, hscans₂⟩ := scans_spacedKeyword (m := ("node", .nodeWord)) (by decide)
    hready hc₁ ((leads_of_isName h.id).append _).not_blank
  obtain ⟨name, c₃, hname, hid, hc₃, hscans₃⟩ := scans_name h.id (hready.moved c₂) hc₂
    (breaks_cons (by decide) _)
  obtain ⟨lineEnd, c₄, hend, hc₄, hscans₄⟩ := scans_lineEnd (hready.moved c₃) rfl rfl hc₃
  obtain ⟨ts, c₅, style', hstyle', hc₅, ⟨ss', hsame, hblock⟩, hscans₅⟩ :=
    scans_block h.statements hstyle hc₄ ⟨'e', rfl, by decide, by decide, by decide⟩
  have hready' := ready_lineBody c₅ [] style'
  obtain ⟨final, c₆, hfinal, hc₆, hscans₆⟩ := scans_keyword (m := ("end", .endWord)) (by decide)
    hready' hc₅ (breaks_cons (by decide) _)
  obtain ⟨after, c₇, hafter, hc₇, hscans₇⟩ := scans_lineEnd (hready'.moved c₆) rfl rfl hc₆
  refine ⟨_, c₇, style', hstyle', hc₇, ?_, hscans₁.trans (hscans₂.trans (hscans₃.trans
    (hscans₄.trans (hscans₅.trans (hscans₆.trans hscans₇)))))⟩
  refine ⟨⟨name.value, ss', ⟨word.span.start, final.span.stop⟩⟩, after, ?_, hafter, fun rest => ?_⟩
  · simp only [Node.unplaced, hid, hsame]
  · have hnode := NodeText.node hword hname hend hfinal (hblock (final :: after :: rest))
    simpa using hnode

end Scanner

theorem Program.render_cons (node : Node) (program : Program) :
    (Program.render (node :: program)).toList =
      node.render.toList ++ if program = [] then [] else '\n' :: (Program.render program).toList := by
  cases program with
  | nil => simp [render]
  | cons next program => simp [render]

theorem Scanner.scans_program {program : Program} {c : Cursor} {style : Option IndentStyle}
    (h : ∀ node ∈ program, node.Writable) (hstyle : style ≠ some .tabs)
    (hrest : c.rest = program.render.toList) :
    ∃ ts s', s'.finished = true ∧ SpellsScript program ts ∧ Scans (lineStart c [] style) ts s' := by
  -- what one node leaves behind is the start of a line outside of a block, where the next one begins
  induction program generalizing c style with
  | nil =>
    obtain ⟨t, s', ht, hs', hscans⟩ := scans_end style (hrest.trans (by simp [Program.render]))
    exact ⟨[t], s', hs', ⟨[], rfl, .done ht⟩, hscans⟩
  | cons node program ih =>
    rw [Program.render_cons] at hrest
    obtain ⟨ts, c₁, style', hstyle', hc₁, ⟨node', lineEnd, hnode', hend, hnode⟩, hscans₁⟩ :=
      scans_node (h node List.mem_cons_self) hstyle hrest
    -- an empty line stands between two nodes only
    obtain ⟨c₂, hc₂, hscans₂⟩ : ∃ c₂, c₂.rest = (Program.render program).toList ∧
        Scans (lineStart c₁ [] style') [] (lineStart c₂ [] style') := by
      by_cases hnil : program = []
      · subst hnil
        exact ⟨c₁, by simpa [Program.render] using hc₁, .refl _⟩
      · rw [if_neg hnil] at hc₁
        exact scans_emptyLine hc₁
    obtain ⟨us, s', hs', ⟨program', hsame, hscript⟩, hscans₃⟩ :=
      ih (fun node hnode => h node (List.mem_cons_of_mem _ hnode)) hstyle' hc₂
    refine ⟨ts ++ us, s', hs', ⟨node' :: program', ?_, ?_⟩, hscans₁.trans (hscans₂.trans hscans₃)⟩
    · simp only [Program.unplaced, List.map_cons, hnode'] at hsame ⊢
      rw [hsame]
    · exact .node (hnode us) (.newline hend hscript)

namespace Expression

mutual

theorem render_unplaced : ∀ e : Expression, e.unplaced.render = e.render
  | literal _ _ | var _ _ => rfl
  | binary _ left right _ => by simp only [unplaced, render, render_unplaced left, render_unplaced right]
  | unary _ operand _ => by simp only [unplaced, render, render_unplaced operand]
  | call _ args _ => by simp only [unplaced, render, renderArguments_unplacedAll args]

theorem renderArguments_unplacedAll :
    ∀ es : List Expression, renderArguments (unplacedAll es) = renderArguments es
  | [] => rfl
  | [e] => render_unplaced e
  | e :: e' :: es => by
    have hrest := renderArguments_unplacedAll (e' :: es)
    simp only [unplacedAll, renderArguments, render_unplaced e] at hrest ⊢
    rw [hrest]

end

theorem renderPlaceholder_unplaced (e : Expression) : e.unplaced.renderPlaceholder = e.renderPlaceholder := by
  simp only [renderPlaceholder, render_unplaced]

end Expression

namespace Speech

theorem text_unplaced (s : Speech) : s.unplaced.text = s.text := by
  simp only [text, unplaced, List.map_map, Function.comp_def, Expression.renderPlaceholder_unplaced]

theorem render_unplaced (s : Speech) : s.unplaced.render = s.render := by
  simp only [render, unplaced, List.map_map, Function.comp_def, Expression.renderPlaceholder_unplaced]

def ranges (s : Speech) : List (Nat × Nat) := s.interpolations.map fun i => (i.start, i.stop)

theorem ranges_unplaced (s : Speech) : s.unplaced.ranges = s.ranges := by
  have hfrom : ∀ (placeholders : List (Expression × String)) (start : Nat),
      (interpolationsFrom start (placeholders.map fun p => (p.1.unplaced, p.2))).map
        (fun i => (i.start, i.stop)) =
      (interpolationsFrom start placeholders).map fun i => (i.start, i.stop) := by
    intro placeholders
    induction placeholders with
    | nil => exact fun _ => rfl
    | cons p placeholders ih =>
      intro start
      simp only [List.map_cons, interpolationsFrom, Expression.renderPlaceholder_unplaced, ih]
  exact hfrom s.placeholders s.opening.utf8ByteSize

end Speech

def Statement.text? : Statement → Option (String × List (Nat × Nat))
  | say speech _ => some (speech.text, speech.ranges)
  | assign .. | choice .. | goto .. => none

theorem Statement.render_unplaced (s : Statement) : s.unplaced.render = s.render := by
  cases s with
  | assign => simp only [unplaced, render, Expression.render_unplaced]
  | say => simp only [unplaced, render, Speech.render_unplaced]
  | choice text target guard? =>
    cases guard? <;> simp only [unplaced, render, Option.map_none, Option.map_some,
      Expression.render_unplaced]
  | goto => rfl

theorem Statement.text?_unplaced (s : Statement) : s.unplaced.text? = s.text? := by
  cases s with
  | say => simp only [unplaced, text?, Speech.text_unplaced, Speech.ranges_unplaced]
  | assign | choice | goto => rfl

namespace Program

def texts (program : Program) : List (String × List (Nat × Nat)) :=
  program.flatMap fun node => node.statements.filterMap Statement.text?

theorem texts_unplaced (program : Program) : program.unplaced.texts = program.texts := by
  simp only [texts, unplaced, Node.unplaced, List.flatMap_map, List.filterMap_map, Function.comp_def,
    Statement.text?_unplaced]

theorem render_unplaced (program : Program) : program.unplaced.render = program.render := by
  have hnode : ∀ node : Node, node.unplaced.render = node.render := by
    intro node
    simp only [Node.render, Node.unplaced, List.map_map, Function.comp_def, Statement.render_unplaced]
  simp only [render, unplaced, List.map_map, Function.comp_def, hnode]

end Program

theorem readProgram_eq_ok {source : String} {program : Program} :
    readProgram source = .ok program ↔ ∃ tokens, lex source = .ok tokens ∧ Script program tokens := by
  unfold readProgram
  constructor
  · intro h
    cases htokens : tokenize source with
    | error e => simp [htokens] at h
    | ok tokens =>
      have hlex := tokenize_eq_ok_iff_lex.1 htokens
      refine ⟨tokens, hlex, (parse_eq_ok (terminated_of_lex hlex)).1 ?_⟩
      cases hparse : parse tokens with
      | error errors => simp [htokens, hparse, Except.mapError] at h
      | ok program' =>
        simp only [htokens, hparse, Except.mapError, Except.ok.injEq] at h
        rw [h]
  · rintro ⟨tokens, hlex, hscript⟩
    rw [tokenize_eq_ok_iff_lex.2 hlex]
    simp only [(parse_eq_ok (terminated_of_lex hlex)).2 hscript, Except.mapError]

/-- What was read from a text, and can be expressed, can be written such that it reads back. -/
theorem Program.Renderable.writable {source : String} {program : Program}
    (h : readProgram source = .ok program) (hrenderable : program.Renderable) :
    ∀ node ∈ program, node.Writable := by
  obtain ⟨tokens, hlex, hscript⟩ := readProgram_eq_ok.1 h
  have hlexical := hscript.lexical (formed_of_lex hlex)
  intro node hnode
  refine ⟨(hlexical node hnode).id, fun s hs => ?_⟩
  have hs' := (hlexical node hnode).statements s hs
  refine ⟨fun e he => ⟨hs'.expressions e he, fun x hx => ?_⟩, hs'.named, hrenderable.plain node hnode s hs⟩
  exact hrenderable.finite node hnode s hs x (List.mem_flatMap.2 ⟨e, he, hx⟩)

/-- The canonical text of an accepted program is accepted, and gives the program again at other places:
the same tree, the same texts with the same ranges of bytes, and the same canonical text. -/
theorem readProgram_render {source : String} {program : Program} (h : readProgram source = .ok program)
    (hrenderable : program.Renderable) :
    ∃ again : Program, readProgram program.render = .ok again ∧ again.unplaced = program.unplaced ∧
      again.texts = program.texts ∧ again.render = program.render := by
  have hwritable := hrenderable.writable h
  have hstyle : (none : Option IndentStyle) ≠ some .tabs := by decide
  obtain ⟨ts, s', hfinished, ⟨again, hsame, hscript⟩, hscans⟩ :=
    scans_program (c := .ofText program.render) hwritable hstyle rfl
  have hlex : lex program.render = .ok ts := lex_eq_ok.2 (hscans.run_eq hfinished)
  refine ⟨again, readProgram_eq_ok.2 ⟨ts, hlex, hscript⟩, hsame, ?_, ?_⟩
  · rw [← again.texts_unplaced, hsame, program.texts_unplaced]
  · rw [← again.render_unplaced, hsame, program.render_unplaced]

/-- A script whose text ends in `#` right before a placeholder. -/
def hashScript : String := "node a\n  say \"#\" \"#\x7b-2\x7d\"\nend"

def hashTokens : List Token :=
  [⟨.nodeWord, "node", ⟨⟨1, 1⟩, ⟨1, 5⟩⟩⟩, ⟨.identifier, "a", ⟨⟨1, 6⟩, ⟨1, 7⟩⟩⟩,
    ⟨.newline, "\n", .point ⟨1, 7⟩⟩, ⟨.indent, "2", ⟨⟨2, 1⟩, ⟨2, 3⟩⟩⟩,
    ⟨.sayWord, "say", ⟨⟨2, 3⟩, ⟨2, 6⟩⟩⟩, ⟨.string, "#", ⟨⟨2, 7⟩, ⟨2, 10⟩⟩⟩,
    ⟨.placeholderStart, "#\x7b", ⟨⟨2, 12⟩, ⟨2, 14⟩⟩⟩, ⟨.minus, "-", ⟨⟨2, 14⟩, ⟨2, 15⟩⟩⟩,
    ⟨.number, "2", ⟨⟨2, 15⟩, ⟨2, 16⟩⟩⟩, ⟨.placeholderEnd, "\x7d", ⟨⟨2, 16⟩, ⟨2, 17⟩⟩⟩,
    ⟨.newline, "\n", .point ⟨2, 18⟩⟩, ⟨.dedent, "", .point ⟨3, 1⟩⟩,
    ⟨.endWord, "end", ⟨⟨3, 1⟩, ⟨3, 4⟩⟩⟩, ⟨.newline, "\n", .point ⟨3, 4⟩⟩, .endOfFile ⟨3, 4⟩]

def hashProgram : Program :=
  [⟨"a", [.say ⟨"#", [(.unary .negate (.literal (.number (.ofRatio false 2 1)) ⟨⟨2, 15⟩, ⟨2, 16⟩⟩)
    ⟨⟨2, 14⟩, ⟨2, 16⟩⟩, "")]⟩ ⟨⟨2, 3⟩, ⟨2, 17⟩⟩], ⟨⟨1, 1⟩, ⟨3, 4⟩⟩⟩]

theorem readProgram_hashScript : readProgram hashScript = .ok hashProgram := by
  have hlex : lex hashScript = .ok hashTokens := by cbv
  have hparse : parse hashTokens = .ok hashProgram := by decide +kernel
  exact readProgram_eq_ok.2 ⟨hashTokens, hlex, (parse_eq_ok (terminated_of_lex hlex)).1 hparse⟩

theorem renderable_hashProgram : hashProgram.Renderable := by
  have hfinite : (Double.ofRatio false 2 1).isFinite = true := by decide +kernel
  have hplain : IsPlain "#".toList ∧ IsPlain "".toList := by
    unfold IsPlain
    decide
  constructor
  · intro node hnode s hs x hx
    obtain rfl := List.mem_singleton.1 hnode
    obtain rfl := List.mem_singleton.1 hs
    have hvalue : x = .ofRatio false 2 1 := List.mem_singleton.1 hx
    rw [hvalue]
    exact hfinite
  · intro node hnode s hs run hrun
    obtain rfl := List.mem_singleton.1 hnode
    obtain rfl := List.mem_singleton.1 hs
    rcases List.mem_pair.1 hrun with rfl | rfl
    · exact hplain.1
    · exact hplain.2

theorem readProgram_render_hashProgram :
    readProgram hashScript = .ok hashProgram ∧ hashProgram.Renderable ∧
      ∃ again : Program, readProgram hashProgram.render = .ok again ∧
        again.unplaced = hashProgram.unplaced ∧ again.texts = hashProgram.texts ∧
        again.render = hashProgram.render :=
  ⟨readProgram_hashScript, renderable_hashProgram,
    readProgram_render readProgram_hashScript renderable_hashProgram⟩

end DialogueScript
