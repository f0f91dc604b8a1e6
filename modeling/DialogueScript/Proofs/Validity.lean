import Mathlib.Data.List.Nodup
import DialogueScript.Proofs.FindingCauses

namespace DialogueScript

/-- The first expression is the second one, or stands somewhere inside of it. -/
inductive Expression.Within : Expression → Expression → Prop
  | refl {e : Expression} : Within e e
  | left {p left right : Expression} {operator : BinaryOperator} {span : Span} (h : Within p left) :
    Within p (.binary operator left right span)
  | right {p left right : Expression} {operator : BinaryOperator} {span : Span} (h : Within p right) :
    Within p (.binary operator left right span)
  | operand {p operand : Expression} {operator : UnaryOperator} {span : Span} (h : Within p operand) :
    Within p (.unary operator operand span)
  | argument {p e : Expression} {name : String} {args : List Expression} {span : Span}
    (he : e ∈ args) (h : Within p e) : Within p (.call name args span)

/-- What a statement evaluates: the value of an assignment, the placeholders of a `say`, the condition
of a choice. -/
inductive Statement.Evaluates : Statement → Expression → Prop
  | value {name : String} {operator : AssignOperator} {e : Expression} {span : Span} :
    Evaluates (.assign name operator e span) e
  | placeholder {speech : Speech} {e : Expression} {text : String} {span : Span}
    (h : (e, text) ∈ speech.placeholders) : Evaluates (.say speech span) e
  | condition {text target : String} {e : Expression} {span textSpan targetSpan : Span} :
    Evaluates (.choice text target (some e) span textSpan targetSpan) e

/-- The statement leads on to the node with the given id. -/
inductive Statement.LeadsTo : Statement → String → Prop
  | choice {text target : String} {condition : Option Expression} {span textSpan targetSpan : Span} :
    LeadsTo (.choice text target condition span textSpan targetSpan) target
  | goto {target : String} {span targetSpan : Span} : LeadsTo (.goto target span targetSpan) target

/-- Every call in the statement, however deep, is one of a built-in function with just as many arguments
as it takes. -/
def Statement.CallsBuiltins (s : Statement) : Prop :=
  ∀ e, s.Evaluates e → ∀ name args span, Expression.Within (.call name args span) e →
    ∃ builtin ∈ Builtin.all, builtin.name = name ∧ builtin.arity = args.length

/-- The rules whose breach is an error. -/
structure Program.Sound (program : Program) : Prop where
  filled : ∀ node ∈ program, node.statements ≠ []
  distinct : (program.map Node.id).Nodup
  calls : ∀ node ∈ program, ∀ s ∈ node.statements, s.CallsBuiltins
  targets : ∀ node ∈ program, ∀ s ∈ node.statements, ∀ target, s.LeadsTo target →
    ∃ other ∈ program, other.id = target
  entry : program = [] ∨ ∃ node ∈ program, node.id = "start"

namespace Expression

mutual

theorem within_of_mem_parts {p : Expression} : ∀ {e : Expression}, p ∈ e.parts → Within p e
  | .literal .., h | .var .., h => by
    obtain rfl := List.mem_singleton.1 h
    exact .refl
  | .binary operator left right span, h => by
    rcases List.mem_cons.1 h with rfl | h
    · exact .refl
    · rcases List.mem_append.1 h with h | h
      · exact .left (within_of_mem_parts h)
      · exact .right (within_of_mem_parts h)
  | .unary operator operand span, h => by
    rcases List.mem_cons.1 h with rfl | h
    · exact .refl
    · exact .operand (within_of_mem_parts h)
  | .call name args span, h => by
    rcases List.mem_cons.1 h with rfl | h
    · exact .refl
    · obtain ⟨e, he, hp⟩ := within_of_mem_partsOfAll h
      exact .argument he hp

theorem within_of_mem_partsOfAll {p : Expression} :
    ∀ {es : List Expression}, p ∈ partsOfAll es → ∃ e ∈ es, Within p e
  | [], h => by cases h
  | e :: es, h => by
    rcases List.mem_append.1 h with h | h
    · exact ⟨e, List.mem_cons_self, within_of_mem_parts h⟩
    · obtain ⟨e', he', hp⟩ := within_of_mem_partsOfAll h
      exact ⟨e', List.mem_cons_of_mem e he', hp⟩

end

theorem self_mem_parts (e : Expression) : e ∈ e.parts := by
  cases e <;> exact List.mem_cons_self

theorem mem_partsOfAll {p e : Expression} {es : List Expression} (he : e ∈ es) (hp : p ∈ e.parts) :
    p ∈ partsOfAll es := by
  induction es with
  | nil => cases he
  | cons e' es ih =>
    rcases List.mem_cons.1 he with rfl | he
    · exact List.mem_append_left _ hp
    · exact List.mem_append_right _ (ih he)

theorem mem_parts_iff_within {p e : Expression} : p ∈ e.parts ↔ Within p e := by
  constructor
  · exact within_of_mem_parts
  · intro h
    induction h with
    | refl => exact p.self_mem_parts
    | left _ ih => exact List.mem_cons_of_mem _ (List.mem_append_left _ ih)
    | right _ ih => exact List.mem_cons_of_mem _ (List.mem_append_right _ ih)
    | operand _ ih => exact List.mem_cons_of_mem _ ih
    | argument he _ ih => exact List.mem_cons_of_mem _ (mem_partsOfAll he ih)

theorem mem_calls {c : Call} {e : Expression} :
    c ∈ e.calls ↔ Within (.call c.name c.arguments c.span) e := by
  unfold calls
  rw [List.mem_filterMap, ← mem_parts_iff_within]
  constructor
  · rintro ⟨p, hp, hcall⟩
    cases p <;> cases hcall
    exact hp
  · exact fun h => ⟨_, h, rfl⟩

end Expression

theorem Builtin.find?_eq_some {name : String} {builtin : Builtin} :
    find? name = some builtin ↔ builtin ∈ all ∧ builtin.name = name := by
  -- no two built-in functions share a name, so the first one found is the only one
  have hnames : all.Pairwise fun a b => a.name ≠ b.name := by decide
  unfold find?
  constructor
  · intro h
    exact ⟨List.mem_of_find?_eq_some h, by simpa using List.find?_some h⟩
  · rintro ⟨hmem, rfl⟩
    obtain ⟨before, after, hall⟩ := List.append_of_mem hmem
    rw [hall] at hnames ⊢
    rw [List.find?_eq_some_iff_append]
    refine ⟨by simp, before, after, rfl, ?_⟩
    intro a ha
    have hne := (List.pairwise_append.1 hnames).2.2 a ha builtin List.mem_cons_self
    simpa using hne

theorem Expression.Call.problem?_eq_none {call : Expression.Call} :
    call.problem? = none ↔
      ∃ builtin ∈ Builtin.all, builtin.name = call.name ∧ builtin.arity = call.arguments.length := by
  unfold problem?
  cases hfind : Builtin.find? call.name with
  | none =>
    simp only [reduceCtorEq, false_iff]
    rintro ⟨builtin, hmem, hname, -⟩
    rw [Builtin.find?_eq_some.2 ⟨hmem, hname⟩] at hfind
    cases hfind
  | some builtin =>
    obtain ⟨hmem, hname⟩ := Builtin.find?_eq_some.1 hfind
    simp only [ite_eq_left_iff, reduceCtorEq, imp_false, not_not]
    constructor
    · exact fun harity => ⟨builtin, hmem, hname, harity.symm⟩
    · rintro ⟨builtin', hmem', hname', harity⟩
      rw [Builtin.find?_eq_some.2 ⟨hmem', hname'⟩] at hfind
      cases hfind
      exact harity.symm

theorem Expression.Call.severity_of_problem? {call : Expression.Call} {cause : FindingCause}
    (h : call.problem? = some cause) : cause.severity = .error := by
  obtain ⟨_, rfl⟩ | ⟨_, _, _, rfl⟩ := cause_of_problem? h <;> rfl

def Harmless (findings : List Finding) : Prop := ∀ f ∈ findings, f.severity ≠ .error

section Harmless

theorem harmless_append {a b : List Finding} : Harmless (a ++ b) ↔ Harmless a ∧ Harmless b :=
  List.forall_mem_append

theorem harmless_map_inNode {id : String} {a : List Finding} :
    Harmless (a.map (·.inNode id)) ↔ Harmless a :=
  List.forall_mem_map

theorem harmless_flatMap {α : Type} {f : α → List Finding} {as : List α} :
    Harmless (as.flatMap f) ↔ ∀ a ∈ as, Harmless (f a) :=
  List.forall_mem_flatMap

@[simp] theorem severity_atPosition (cause : FindingCause) (p : Position) :
    (Finding.atPosition cause p).severity = cause.severity := rfl

@[simp] theorem severity_spanning (cause : FindingCause) (span : Span) :
    (Finding.spanning cause span).severity = cause.severity := by
  unfold Finding.spanning
  split <;> rfl

end Harmless

theorem Statement.mem_expressions {s : Statement} {e : Expression} :
    e ∈ s.expressions ↔ s.Evaluates e := by
  constructor
  · intro h
    cases s with
    | assign =>
      obtain rfl := List.mem_singleton.1 h
      exact .value
    | say speech span =>
      obtain ⟨⟨e, text⟩, hmem, rfl⟩ := List.mem_map.1 h
      exact .placeholder hmem
    | choice text target condition =>
      obtain rfl := Option.mem_toList.1 h
      exact .condition
    | goto => cases h
  · intro h
    cases h with
    | value => exact List.mem_singleton_self _
    | placeholder h => exact List.mem_map_of_mem h
    | condition => exact List.mem_singleton_self _

theorem harmless_callFindings {s : Statement} : Harmless s.callFindings ↔ s.CallsBuiltins := by
  have hcall : ∀ call : Expression.Call, (∀ f ∈ call.finding?, f.severity ≠ .error) ↔
      ∃ builtin ∈ Builtin.all, builtin.name = call.name ∧ builtin.arity = call.arguments.length := by
    intro call
    rw [← Expression.Call.problem?_eq_none]
    unfold Expression.Call.finding?
    cases hproblem : call.problem? with
    | none => simp
    | some cause =>
      have herror := Expression.Call.severity_of_problem? hproblem
      simp [herror]
  unfold Statement.callFindings Statement.CallsBuiltins
  rw [harmless_flatMap]
  constructor
  · intro h e he name args span hwithin
    have hmem : ⟨name, args, span⟩ ∈ e.calls := Expression.mem_calls.2 hwithin
    refine (hcall ⟨name, args, span⟩).1 fun f hf => ?_
    exact h e (Statement.mem_expressions.2 he) f (List.mem_filterMap.2 ⟨_, hmem, hf⟩)
  · intro h e he f hf
    obtain ⟨call, hmem, hf⟩ := List.mem_filterMap.1 hf
    have hbuiltin := h e (Statement.mem_expressions.1 he) _ _ _ (Expression.mem_calls.1 hmem)
    exact (hcall call).2 hbuiltin f hf

theorem harmless_choiceFindings (s : Statement) (id : String) (texts : List String) :
    Harmless (s.choiceFindings id texts) := by
  intro f hf
  rcases Statement.cause_choiceFindings hf with ⟨text, hcause⟩ | ⟨e, text, hcause⟩
  · simp [Finding.severity, hcause, FindingCause.severity]
  · simp [Finding.severity, hcause, FindingCause.severity]

theorem harmless_statements {id : String} {texts : List String} {ss : List Statement} :
    Harmless (Statement.findingsAfter id texts ss) ↔ ∀ s ∈ ss, s.CallsBuiltins := by
  induction ss generalizing texts with
  | nil => simp [Statement.findingsAfter, Harmless]
  | cons s ss ih =>
    rw [Statement.findingsAfter, harmless_append, harmless_append, harmless_callFindings, ih,
      List.forall_mem_cons]
    have hchoice := harmless_choiceFindings s id texts
    tauto

theorem node?_eq_none {program : Program} {id : String} :
    program.node? id = none ↔ id ∉ program.map Node.id := by
  simp [Program.node?]

theorem harmless_frameFindings {earlier : List Node} {node : Node} :
    Harmless (node.frameFindings earlier) ↔
      node.id ∉ earlier.map Node.id ∧ node.statements ≠ [] := by
  unfold Node.frameFindings
  rw [harmless_append, ← node?_eq_none]
  apply and_congr
  · cases Program.node? earlier node.id with
    | none => simp [Harmless]
    | some first => simp [Harmless, FindingCause.severity]
  · cases node.statements with
    | nil => simp [Harmless, FindingCause.severity]
    | cons s ss =>
      cases node.hasExit <;> simp [Harmless, FindingCause.severity]

theorem harmless_nodes {earlier nodes : List Node} :
    Harmless (Node.findingsAfter earlier nodes) ↔
      (∀ node ∈ nodes, node.statements ≠ [] ∧ ∀ s ∈ node.statements, s.CallsBuiltins) ∧
        (nodes.map Node.id).Nodup ∧ ∀ node ∈ nodes, node.id ∉ earlier.map Node.id := by
  induction nodes generalizing earlier with
  | nil => simp [Node.findingsAfter, Harmless]
  | cons node nodes ih =>
    rw [Node.findingsAfter, harmless_append, Node.findings, harmless_map_inNode, harmless_append,
      harmless_frameFindings, harmless_statements, ih]
    simp only [List.forall_mem_cons, List.map_cons, List.nodup_cons, List.map_append, List.map_nil,
      List.mem_append, List.mem_singleton, List.mem_map, not_or, not_exists, not_and]
    constructor
    · rintro ⟨⟨⟨hnew, hfilled⟩, hcalls⟩, hrest, hdistinct, hfresh⟩
      exact ⟨⟨⟨hfilled, hcalls⟩, hrest⟩, ⟨fun other hmem => (hfresh other hmem).2, hdistinct⟩, hnew,
        fun other hmem => (hfresh other hmem).1⟩
    · rintro ⟨⟨⟨hfilled, hcalls⟩, hrest⟩, ⟨hother, hdistinct⟩, hnew, hfresh⟩
      exact ⟨⟨⟨hnew, hfilled⟩, hcalls⟩, hrest, hdistinct,
        fun other hmem => ⟨hfresh other hmem, hother other hmem⟩⟩

theorem Statement.reference?_eq_some {source : String} {s : Statement} {r : Reference}
    (h : s.reference? source = some r) : s.LeadsTo r.target := by
  cases s <;> cases h
  · exact .choice
  · exact .goto

theorem Statement.LeadsTo.exists_reference {target : String} {s : Statement} (h : s.LeadsTo target)
    (source : String) : ∃ r, s.reference? source = some r ∧ r.target = target := by
  cases h <;> exact ⟨_, rfl, rfl⟩

namespace Program

theorem defines_iff {program : Program} {id : String} :
    program.defines id = true ↔ ∃ node ∈ program, node.id = id := by
  simp [defines]

theorem harmless_missingFindings {program : Program} :
    Harmless program.missingFindings ↔ ∀ node ∈ program, ∀ s ∈ node.statements, ∀ target,
      s.LeadsTo target → ∃ other ∈ program, other.id = target := by
  simp only [← defines_iff]
  constructor
  · intro h node hnode s hs target htarget
    by_contra hmissing
    obtain ⟨r, hr, rfl⟩ := htarget.exists_reference node.id
    have hmem : r ∈ program.references :=
      List.mem_flatMap.2 ⟨node, hnode, List.mem_filterMap.2 ⟨s, hs, hr⟩⟩
    refine h _ (List.mem_map_of_mem (List.mem_filter.2 ⟨hmem, by simpa using hmissing⟩)) ?_
    exact severity_spanning ..
  · intro h f hf
    obtain ⟨r, hr, rfl⟩ := List.mem_map.1 hf
    obtain ⟨hmem, hmissing⟩ := List.mem_filter.1 hr
    obtain ⟨node, hnode, hr⟩ := List.mem_flatMap.1 hmem
    obtain ⟨s, hs, hr⟩ := List.mem_filterMap.1 hr
    simp [h node hnode s hs r.target (Statement.reference?_eq_some hr)] at hmissing

theorem harmless_entryFindings {program : Program} :
    Harmless program.entryFindings ↔ program = [] ∨ ∃ node ∈ program, node.id = "start" := by
  rw [← List.isEmpty_iff, ← defines_iff, ← Bool.or_eq_true]
  unfold entryFindings entryPoint
  split
  · simp_all [Harmless]
  · simp_all [Harmless, FindingCause.severity]

end Program

theorem harmless_of_warning {findings : List Finding}
    (h : ∀ f ∈ findings, f.cause.severity = .warning ∨ f.cause.severity = .suggestion) :
    Harmless findings := by
  intro f hf
  rcases h f hf with hseverity | hseverity
  · simp [Finding.severity, hseverity]
  · simp [Finding.severity, hseverity]

namespace Program

theorem harmless_unreachableFindings (program : Program) : Harmless program.unreachableFindings := by
  refine harmless_of_warning fun f hf => ?_
  obtain ⟨id, rfl⟩ := mem_unreachableFindings hf
  exact .inl rfl

theorem harmless_circularFindings (program : Program) : Harmless program.circularFindings := by
  refine harmless_of_warning fun f hf => ?_
  obtain ⟨id, path, rfl⟩ := mem_circularFindings hf
  exact .inl rfl

theorem harmless_undefinedFindings (program : Program) : Harmless program.undefinedFindings := by
  refine harmless_of_warning fun f hf => ?_
  obtain ⟨node, -, s, -, e, -, name, span, -, rfl⟩ := mem_undefinedFindings hf
  rw [Finding.cause_inNode, Finding.cause_spanning]
  exact .inl rfl

theorem harmless_typeFindings (program : Program) : Harmless program.typeFindings := by
  refine harmless_of_warning fun f hf => ?_
  obtain ⟨node, -, s, -, e, -, p, -, operator, required, left, right, rfl⟩ := mem_typeFindings hf
  rw [Finding.cause_inNode, Finding.cause_spanning]
  exact .inl rfl

theorem harmless_unusedFindings (program : Program) : Harmless program.unusedFindings := by
  refine harmless_of_warning fun f hf => ?_
  obtain ⟨node, -, s, -, name, rfl⟩ := mem_unusedFindings hf
  rw [Finding.cause_inNode, Finding.cause_spanning]
  exact .inr rfl

end Program

theorem valid_iff_harmless (program : Program) :
    (analyze program).valid = true ↔ Harmless program.findings := by
  simp [analyze, Analysis.ofFindings, Analysis.valid, Harmless]

/-- A program is valid exactly if every node has a statement, no two nodes share an id, every call is one
of a built-in function with as many arguments as it takes, every choice and goto leads to a node, and
there is a node to begin with unless there is no node at all. -/
theorem valid_iff_sound (program : Program) : (analyze program).valid = true ↔ program.Sound := by
  have hnodes : Harmless program.nodeFindings ↔
      (∀ node ∈ program, node.statements ≠ [] ∧ ∀ s ∈ node.statements, s.CallsBuiltins) ∧
        (program.map Node.id).Nodup := by
    unfold Program.nodeFindings
    rw [harmless_nodes]
    simp
  rw [valid_iff_harmless, Program.findings]
  simp only [harmless_append, hnodes, Program.harmless_missingFindings, Program.harmless_entryFindings,
    Program.harmless_unreachableFindings, Program.harmless_circularFindings,
    Program.harmless_undefinedFindings, Program.harmless_typeFindings, Program.harmless_unusedFindings, and_true]
  constructor
  · rintro ⟨⟨⟨hnode, hdistinct⟩, htargets⟩, hentry⟩
    exact ⟨fun node hmem => (hnode node hmem).1, hdistinct, fun node hmem => (hnode node hmem).2,
      htargets, hentry⟩
  · intro h
    exact ⟨⟨⟨fun node hmem => ⟨h.filled node hmem, h.calls node hmem⟩, h.distinct⟩, h.targets⟩, h.entry⟩

end DialogueScript
