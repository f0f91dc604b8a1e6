import DialogueScript.Analysis

namespace DialogueScript

namespace FindingCause

def isLocal : FindingCause → Bool
  | emptyNode _ | duplicateNode .. | deadEnd _ | unknownFunction _ | wrongArity ..
  | impossibleChoice .. | repeatedChoice .. => true
  | missingNode .. | unreachableNode _ | circularGoto _ | missingStart | undefinedVariable _
  | typeMismatch .. | unusedVariable _ => false

end FindingCause

inductive Check where
  | nodes | references | entry | reachability | cycles | definitions | types | usage
deriving DecidableEq

def FindingCause.check : FindingCause → Check
  | emptyNode _ | duplicateNode .. | deadEnd _ | unknownFunction _ | wrongArity ..
  | impossibleChoice .. | repeatedChoice .. => .nodes
  | missingNode .. => .references
  | missingStart => .entry
  | unreachableNode _ => .reachability
  | circularGoto _ => .cycles
  | undefinedVariable _ => .definitions
  | typeMismatch .. => .types
  | unusedVariable _ => .usage

theorem FindingCause.check_of_isLocal {cause : FindingCause} (h : cause.isLocal = true) :
    cause.check = .nodes := by
  revert h
  cases cause <;> simp [isLocal, check]

@[simp] theorem Finding.cause_atPosition (cause : FindingCause) (p : Position) :
    (atPosition cause p).cause = cause := rfl

@[simp] theorem Finding.cause_spanning (cause : FindingCause) (span : Span) :
    (spanning cause span).cause = cause := by
  unfold spanning
  split <;> rfl

@[simp] theorem Finding.cause_inNode (id : String) (f : Finding) : (f.inNode id).cause = f.cause := rfl

theorem Expression.Call.cause_of_problem? {call : Expression.Call} {cause : FindingCause}
    (h : call.problem? = some cause) :
    (∃ name, cause = .unknownFunction name) ∨ ∃ name arity given, cause = .wrongArity name arity given := by
  unfold problem? at h
  split at h
  · cases h
    exact .inl ⟨_, rfl⟩
  · split at h <;> cases h
    exact .inr ⟨_, _, _, rfl⟩

theorem Expression.Call.isLocal_of_problem? {call : Expression.Call} {cause : FindingCause}
    (h : call.problem? = some cause) : cause.isLocal = true := by
  obtain ⟨_, rfl⟩ | ⟨_, _, _, rfl⟩ := cause_of_problem? h <;> rfl

namespace Statement

variable {s : Statement} {ss : List Statement} {id : String} {texts : List String} {f : Finding}

theorem mem_callFindings (h : f ∈ s.callFindings) : ∃ e ∈ s.expressions, ∃ p ∈ e.parts,
    ∃ (call : Expression.Call) (cause : FindingCause),
      call.problem? = some cause ∧ f = .spanning cause p.span := by
  obtain ⟨e, he, hf⟩ := List.mem_flatMap.1 h
  obtain ⟨call, hcall, hf⟩ := List.mem_filterMap.1 hf
  obtain ⟨cause, hcause, rfl⟩ := Option.map_eq_some_iff.1 hf
  obtain ⟨p, hp, hcall⟩ := List.mem_filterMap.1 hcall
  refine ⟨e, he, p, hp, call, cause, hcause, ?_⟩
  cases p with
  | call =>
    cases hcall
    rfl
  | literal | var | binary | unary => cases hcall

theorem mem_choiceFindings (h : f ∈ s.choiceFindings id texts) :
    ∃ text target condition span textSpan targetSpan,
      s = .choice text target condition span textSpan targetSpan ∧
        (f = .spanning (.repeatedChoice text id) textSpan ∨ ∃ e, f = .spanning (.impossibleChoice e text) span) := by
  cases s with
  | choice text target condition span textSpan =>
    refine ⟨text, target, condition, span, textSpan, _, rfl, ?_⟩
    rcases List.mem_append.1 h with h | h
    · split at h
      · exact .inl (List.mem_singleton.1 h)
      · cases h
    · obtain ⟨e, -, rfl⟩ := List.mem_map.1 h
      exact .inr ⟨e, rfl⟩
  | assign | say | goto => cases h

theorem cause_choiceFindings (h : f ∈ s.choiceFindings id texts) :
    (∃ text, f.cause = .repeatedChoice text id) ∨ ∃ e text, f.cause = .impossibleChoice e text := by
  obtain ⟨text, _, _, _, _, _, -, rfl | ⟨e, rfl⟩⟩ := mem_choiceFindings h
  · exact .inl ⟨text, Finding.cause_spanning ..⟩
  · exact .inr ⟨e, text, Finding.cause_spanning ..⟩

theorem mem_findingsAfter (h : f ∈ findingsAfter id texts ss) :
    ∃ s ∈ ss, f ∈ s.callFindings ∨ ∃ texts, f ∈ s.choiceFindings id texts := by
  induction ss generalizing texts with
  | nil => cases h
  | cons s ss ih =>
    rcases List.mem_append.1 h with h | h
    · exact ⟨s, List.mem_cons_self, (List.mem_append.1 h).imp_right fun hf => ⟨texts, hf⟩⟩
    · obtain ⟨s', hs', hf⟩ := ih h
      exact ⟨s', List.mem_cons_of_mem _ hs', hf⟩

theorem isLocal_findingsAfter (h : f ∈ findingsAfter id texts ss) : f.cause.isLocal = true := by
  obtain ⟨s, -, hf | ⟨texts', hf⟩⟩ := mem_findingsAfter h
  · obtain ⟨_, -, _, -, call, cause, hcause, rfl⟩ := mem_callFindings hf
    rw [Finding.cause_spanning]
    exact Expression.Call.isLocal_of_problem? hcause
  · rcases cause_choiceFindings hf with ⟨text, hcause⟩ | ⟨e, text, hcause⟩
    · rw [hcause]
      rfl
    · rw [hcause]
      rfl

end Statement

theorem Node.mem_frameFindings {earlier : List Node} {node : Node} {f : Finding}
    (h : f ∈ node.frameFindings earlier) :
    ∃ cause : FindingCause, cause.isLocal = true ∧ f = .atPosition cause node.span.start := by
  rcases List.mem_append.1 h with h | h
  · split at h
    · exact ⟨_, rfl, List.mem_singleton.1 h⟩
    · cases h
  · split at h
    · exact ⟨_, rfl, List.mem_singleton.1 h⟩
    · split at h
      · cases h
      · exact ⟨_, rfl, List.mem_singleton.1 h⟩

/-- A finding of a node is about the node as a whole, or about what stands in it. -/
theorem Node.mem_findingsAfter {earlier nodes : List Node} {f : Finding} (h : f ∈ findingsAfter earlier nodes) :
    ∃ node ∈ nodes, ∃ f', f = f'.inNode node.id ∧
      ((∃ before, f' ∈ node.frameFindings before) ∨ f' ∈ Statement.findingsAfter node.id [] node.statements) := by
  induction nodes generalizing earlier with
  | nil => cases h
  | cons node nodes ih =>
    rcases List.mem_append.1 h with h | h
    · obtain ⟨f', hf, rfl⟩ := List.mem_map.1 h
      exact ⟨node, List.mem_cons_self, f', rfl, (List.mem_append.1 hf).imp_left fun hf => ⟨earlier, hf⟩⟩
    · obtain ⟨node', hnode', hf⟩ := ih h
      exact ⟨node', List.mem_cons_of_mem _ hnode', hf⟩

section Types

theorem BinaryOperator.exists_of_mismatch? {operator : BinaryOperator} {left right : ValueType}
    {cause : FindingCause} (h : operator.mismatch? left right = some cause) :
    ∃ required, cause = .typeMismatch operator required left right := by
  unfold mismatch? at h
  split at h
  · cases h
  · split at h <;> cases h
    exact ⟨_, rfl⟩

namespace TypeEnvironment

variable {env : TypeEnvironment} {f : Finding}

mutual

theorem mem_infer : ∀ e : Expression, f ∈ (env.infer e).mismatches → ∃ p ∈ e.parts,
    ∃ operator required left right, f = .spanning (.typeMismatch operator required left right) p.span
  | .literal .., h | .var .., h => by cases h
  | .call _ args _, h => by
    obtain ⟨p, hp, hf⟩ := mem_inferAll args h
    exact ⟨p, List.mem_cons_of_mem _ hp, hf⟩
  | .unary _ operand _, h => by
    obtain ⟨p, hp, hf⟩ := mem_infer operand h
    exact ⟨p, List.mem_cons_of_mem _ hp, hf⟩
  | .binary operator left right span, h => by
    rw [mismatches_binary] at h
    rcases List.mem_append.1 h with h | h
    · rcases List.mem_append.1 h with h | h
      · obtain ⟨p, hp, hf⟩ := mem_infer left h
        exact ⟨p, List.mem_cons_of_mem _ (List.mem_append_left _ hp), hf⟩
      · obtain ⟨p, hp, hf⟩ := mem_infer right h
        exact ⟨p, List.mem_cons_of_mem _ (List.mem_append_right _ hp), hf⟩
    · obtain ⟨cause, hcause, rfl⟩ := List.mem_map.1 h
      obtain ⟨required, rfl⟩ := BinaryOperator.exists_of_mismatch? (Option.mem_toList.1 hcause)
      exact ⟨_, List.mem_cons_self, operator, required, _, _, rfl⟩

theorem mem_inferAll : ∀ es : List Expression, f ∈ env.inferAll es → ∃ p ∈ Expression.partsOfAll es,
    ∃ operator required left right, f = .spanning (.typeMismatch operator required left right) p.span
  | [], h => by cases h
  | e :: es, h => by
    rcases List.mem_append.1 h with h | h
    · obtain ⟨p, hp, hf⟩ := mem_infer e h
      exact ⟨p, List.mem_append_left _ hp, hf⟩
    · obtain ⟨p, hp, hf⟩ := mem_inferAll es h
      exact ⟨p, List.mem_append_right _ hp, hf⟩

end

end TypeEnvironment

end Types

namespace Program

variable {program : Program} {f : Finding}

theorem isLocal_nodeFindings (h : f ∈ program.nodeFindings) : f.cause.isLocal = true := by
  obtain ⟨node, -, f', rfl, ⟨before, hf⟩ | hf⟩ := Node.mem_findingsAfter h
  · obtain ⟨cause, hcause, rfl⟩ := Node.mem_frameFindings hf
    exact hcause
  · rw [Finding.cause_inNode]
    exact Statement.isLocal_findingsAfter hf

theorem mem_missingFindings (h : f ∈ program.missingFindings) :
    ∃ node ∈ program, ∃ s ∈ node.statements, ∃ target span, s.target? = some (target, span) ∧
      f = (Finding.spanning (.missingNode node.id target) span).inNode node.id := by
  obtain ⟨r, hr, rfl⟩ := List.mem_map.1 h
  obtain ⟨node, hnode, hr⟩ := List.mem_flatMap.1 (List.mem_filter.1 hr).1
  obtain ⟨s, hs, hr⟩ := List.mem_filterMap.1 hr
  refine ⟨node, hnode, s, hs, ?_⟩
  cases s with
  | choice | goto =>
    cases hr
    exact ⟨_, _, rfl, rfl⟩
  | assign | say => cases hr

theorem mem_entryFindings (h : f ∈ program.entryFindings) : f = .atPosition .missingStart .start := by
  unfold entryFindings at h
  split at h
  · cases h
  · exact List.mem_singleton.1 h

theorem mem_unreachableFindings (h : f ∈ program.unreachableFindings) :
    ∃ id, f = (Finding.atPosition (.unreachableNode id) (program.definitionOf id)).inNode id := by
  unfold unreachableFindings at h
  split at h
  · obtain ⟨id, -, rfl⟩ := List.mem_map.1 h
    exact ⟨id, rfl⟩
  · cases h

theorem mem_circularFindings (h : f ∈ program.circularFindings) :
    ∃ id path, f = (Finding.atPosition (.circularGoto path) (program.definitionOf id)).inNode id := by
  obtain ⟨id, -, hf⟩ := List.mem_filterMap.1 h
  obtain ⟨path, -, rfl⟩ := Option.map_eq_some_iff.1 hf
  exact ⟨id, path, rfl⟩

theorem mem_undefinedFindings (h : f ∈ program.undefinedFindings) :
    ∃ node ∈ program, ∃ s ∈ node.statements, ∃ e ∈ s.expressions, ∃ name span,
      .var name span ∈ e.parts ∧ f = (Finding.spanning (.undefinedVariable name) span).inNode node.id := by
  obtain ⟨u, hu, rfl⟩ := List.mem_map.1 h
  obtain ⟨node, hnode, hu⟩ := List.mem_flatMap.1 (List.mem_filter.1 hu).1
  obtain ⟨s, hs, hu⟩ := List.mem_flatMap.1 hu
  obtain ⟨e, he, hu⟩ := List.mem_flatMap.1 hu
  obtain ⟨v, hv, rfl⟩ := List.mem_map.1 hu
  obtain ⟨p, hp, hv⟩ := List.mem_filterMap.1 hv
  refine ⟨node, hnode, s, hs, e, he, ?_⟩
  cases p with
  | var =>
    cases hv
    exact ⟨_, _, hp, rfl⟩
  | literal | call | binary | unary => cases hv

theorem mem_typeFindings (h : f ∈ program.typeFindings) :
    ∃ node ∈ program, ∃ s ∈ node.statements, ∃ e ∈ s.typedExpressions, ∃ p ∈ e.parts,
      ∃ operator required left right,
        f = (Finding.spanning (.typeMismatch operator required left right) p.span).inNode node.id := by
  obtain ⟨node, hnode, hf⟩ := List.mem_flatMap.1 h
  obtain ⟨s, hs, hf⟩ := List.mem_flatMap.1 hf
  obtain ⟨e, he, hf⟩ := List.mem_flatMap.1 hf
  obtain ⟨f', hf', rfl⟩ := List.mem_map.1 hf
  obtain ⟨p, hp, operator, required, left, right, rfl⟩ := TypeEnvironment.mem_infer e hf'
  exact ⟨node, hnode, s, hs, e, he, p, hp, operator, required, left, right, rfl⟩

theorem mem_unusedFindings (h : f ∈ program.unusedFindings) :
    ∃ node ∈ program, ∃ s ∈ node.statements, ∃ name,
      f = (Finding.spanning (.unusedVariable name) s.span).inNode node.id := by
  obtain ⟨name, -, hf⟩ := List.mem_filterMap.1 h
  obtain ⟨a, ha, rfl⟩ := Option.map_eq_some_iff.1 hf
  obtain ⟨node, hnode, ha⟩ := List.mem_flatMap.1 (List.mem_of_find?_eq_some ha)
  obtain ⟨s, hs, ha⟩ := List.mem_filterMap.1 ha
  refine ⟨node, hnode, s, hs, name, ?_⟩
  cases s with
  | assign =>
    cases ha
    rfl
  | say | choice | goto => cases ha

def findingsOf (program : Program) : Check → List Finding
  | .nodes => program.nodeFindings
  | .references => program.missingFindings
  | .entry => program.entryFindings
  | .reachability => program.unreachableFindings
  | .cycles => program.circularFindings
  | .definitions => program.undefinedFindings
  | .types => program.typeFindings
  | .usage => program.unusedFindings

theorem check_of_mem_findingsOf {check : Check} (h : f ∈ program.findingsOf check) :
    f.cause.check = check := by
  cases check with
  | nodes => exact FindingCause.check_of_isLocal (isLocal_nodeFindings h)
  | references =>
    obtain ⟨node, -, s, -, target, span, -, rfl⟩ := mem_missingFindings h
    rw [Finding.cause_inNode, Finding.cause_spanning]
    rfl
  | entry =>
    rw [mem_entryFindings h]
    rfl
  | reachability =>
    obtain ⟨id, rfl⟩ := mem_unreachableFindings h
    rfl
  | cycles =>
    obtain ⟨id, path, rfl⟩ := mem_circularFindings h
    rfl
  | definitions =>
    obtain ⟨node, -, s, -, e, -, name, span, -, rfl⟩ := mem_undefinedFindings h
    rw [Finding.cause_inNode, Finding.cause_spanning]
    rfl
  | types =>
    obtain ⟨node, -, s, -, e, -, p, -, operator, required, left, right, rfl⟩ := mem_typeFindings h
    rw [Finding.cause_inNode, Finding.cause_spanning]
    rfl
  | usage =>
    obtain ⟨node, -, s, -, name, rfl⟩ := mem_unusedFindings h
    rw [Finding.cause_inNode, Finding.cause_spanning]
    rfl

theorem findings_eq (program : Program) : program.findings = program.findingsOf .nodes ++
    program.findingsOf .references ++ program.findingsOf .entry ++ program.findingsOf .reachability ++
    program.findingsOf .cycles ++ program.findingsOf .definitions ++ program.findingsOf .types ++
    program.findingsOf .usage := rfl

theorem mem_findingsOf (h : f ∈ program.findings) : f ∈ program.findingsOf f.cause.check := by
  obtain ⟨check, hf⟩ : ∃ check, f ∈ program.findingsOf check := by
    rw [findings_eq] at h
    simp only [List.mem_append] at h
    rcases h with ((((((h | h) | h) | h) | h) | h) | h) | h <;> exact ⟨_, h⟩
  rwa [check_of_mem_findingsOf hf]

/-- Findings of one check only come from that check. -/
theorem filter_findings (program : Program) {p : Finding → Bool} {check : Check}
    (h : ∀ f, p f = true → f.cause.check = check) :
    program.findings.filter p = (program.findingsOf check).filter p := by
  have hother : ∀ other, other ≠ check → (program.findingsOf other).filter p = [] := by
    intro other hne
    rw [List.filter_eq_nil_iff]
    intro f hf hp
    exact hne ((check_of_mem_findingsOf hf).symm.trans (h f hp))
  rw [findings_eq]
  simp only [List.filter_append]
  cases check <;> simp [hother]

end Program

theorem Analysis.findings_perm (findings : List Finding) :
    (ofFindings findings).findings.Perm findings := by
  induction findings with
  | nil => exact .refl _
  | cons f findings ih =>
    unfold Analysis.findings ofFindings at ih ⊢
    dsimp only at ih ⊢
    cases hseverity : f.severity with
    | error => simpa [hseverity] using ih.cons f
    | warning =>
      simp only [hseverity, List.filter_cons, decide_true, reduceCtorEq, decide_false, Bool.false_eq_true,
        ↓reduceIte]
      exact (List.perm_middle.append_right _).trans (ih.cons f)
    | suggestion =>
      simp only [hseverity, List.filter_cons, decide_true, reduceCtorEq, decide_false, Bool.false_eq_true,
        ↓reduceIte]
      exact List.perm_middle.trans (ih.cons f)

theorem Analysis.filter_findings {findings : List Finding} {p : Finding → Bool} {severity : Severity}
    (h : ∀ f, p f = true → f.severity = severity) :
    (ofFindings findings).findings.filter p = findings.filter p := by
  have hgraded : ∀ grade, (findings.filter (·.severity = grade)).filter p =
      if grade = severity then findings.filter p else [] := by
    intro grade
    rw [List.filter_filter]
    split
    · rename_i hgrade
      apply List.filter_congr
      intro f hf
      cases hp : p f with
      | false => rfl
      | true => simp [h f hp, hgrade]
    · rename_i hgrade
      rw [List.filter_eq_nil_iff]
      intro f hf hboth
      rw [Bool.and_eq_true, decide_eq_true_eq] at hboth
      exact hgrade (hboth.2.symm.trans (h f hboth.1))
  unfold Analysis.findings ofFindings
  simp only [List.filter_append, hgraded]
  cases severity <;> simp

/-- The code and the severity that all findings of a check have, if there is only one kind of them. -/
def Check.mark? : Check → Option (String × Severity)
  | .nodes => none
  | .references => some ("missing_node", .error)
  | .entry => some ("missing_entry_point", .error)
  | .reachability => some ("unreachable_node", .warning)
  | .cycles => some ("circular_reference", .warning)
  | .definitions => some ("undefined_variable", .warning)
  | .types => some ("type_mismatch", .warning)
  | .usage => some ("unused_variable", .suggestion)

theorem Check.code_eq_iff {check : Check} {code : String} {severity : Severity}
    (h : check.mark? = some (code, severity)) (cause : FindingCause) : cause.code = code ↔ cause.check = check := by
  cases check <;> cases h <;> cases cause <;> simp [FindingCause.code, FindingCause.check]

theorem Check.severity_eq {check : Check} {code : String} {severity : Severity}
    (h : check.mark? = some (code, severity)) {cause : FindingCause} (hcause : cause.check = check) :
    cause.severity = severity := by
  subst hcause
  cases cause <;> cases h <;> rfl

/-- What is filed under the code of one check stands in an analysis as that check found it. -/
theorem Program.filter_code (program : Program) (check : Check) {code : String} {severity : Severity}
    (h : check.mark? = some (code, severity)) :
    (analyze program).findings.filter (·.code = code) = program.findingsOf check := by
  have hkind : ∀ f : Finding, decide (f.code = code) = true → f.cause.check = check :=
    fun f hf => (Check.code_eq_iff h f.cause).1 (of_decide_eq_true hf)
  unfold analyze
  rw [Analysis.filter_findings fun f hf => Check.severity_eq h (hkind f hf), program.filter_findings hkind]
  exact List.filter_eq_self.2 fun f hf =>
    decide_eq_true ((Check.code_eq_iff h f.cause).2 (check_of_mem_findingsOf hf))

end DialogueScript
