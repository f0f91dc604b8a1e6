import DialogueScript.Proofs.Addresses
import DialogueScript.Proofs.AnalyzerState
import DialogueScript.Proofs.NodeOrder

namespace DialogueScript

/-- Whether the comparison holds of two values. The other operators compare nothing. -/
def BinaryOperator.comparison? : BinaryOperator → Option (Literal → Literal → Bool)
  | equals => some fun l r => l.looselyEquals r
  | notEquals => some fun l r => !l.looselyEquals r
  | less => some fun l r => (l.compare? r).any Ordering.isLT
  | lessEquals => some fun l r => (l.compare? r).any Ordering.isLE
  | greater => some fun l r => (l.compare? r).any Ordering.isGT
  | greaterEquals => some fun l r => (l.compare? r).any Ordering.isGE
  | or | and | add | subtract | multiply | divide => none

namespace Expression

/-- Built from literals by `!`, `&&`, `||` and comparisons alone. -/
inductive IsConstant : Expression → Prop
  | literal (value : Literal) (span : Span) : IsConstant (.literal value span)
  | not {operand : Expression} (span : Span) (hoperand : IsConstant operand) : IsConstant (.unary .not operand span)
  | and {left right : Expression} (span : Span) (hleft : IsConstant left) (hright : IsConstant right) :
      IsConstant (.binary .and left right span)
  | or {left right : Expression} (span : Span) (hleft : IsConstant left) (hright : IsConstant right) :
      IsConstant (.binary .or left right span)
  | comparison {operator : BinaryOperator} {left right : Expression} (span : Span)
      (hoperator : operator.comparison?.isSome = true) (hleft : IsConstant left) (hright : IsConstant right) :
      IsConstant (.binary operator left right span)

/-- The value of an expression in a run, where `given` tells what the run makes of variables, calls, arithmetic and
negations: any value, or none if it breaks off there. The second operand of a connective does not count if the first
one decides. -/
def eval (given : Expression → Option Literal) : Expression → Option Literal
  | literal value _ => some value
  | unary .not operand _ => do
    let value ← operand.eval given
    some (.boolean !value.isTruthy)
  | binary .and left right _ => do
    let value ← left.eval given
    if value.isTruthy then right.eval given else some value
  | binary .or left right _ => do
    let value ← left.eval given
    if value.isTruthy then some value else right.eval given
  | e@(binary operator left right _) =>
    match operator.comparison? with
    | some holds => do
      let l ← left.eval given
      let r ← right.eval given
      some (.boolean (holds l r))
    | none => given e
  | e@(unary .negate ..) | e@(var ..) | e@(call ..) => given e

end Expression

theorem BinaryOperator.apply?_of_comparison? {operator : BinaryOperator} {holds : Literal → Literal → Bool}
    (h : operator.comparison? = some holds) (l r : Literal) : operator.apply? l r = some (.boolean (holds l r)) := by
  cases operator <;> cases h <;> unfold BinaryOperator.apply? <;> dsimp only
  all_goals rcases l.compare? r with _ | _ | _ | _ <;> rfl

namespace Expression

variable {e : Expression} {c : Literal} {given : Expression → Option Literal}

theorem eval_comparison {operator : BinaryOperator} {holds : Literal → Literal → Bool}
    (h : operator.comparison? = some holds) (left right : Expression) (span : Span) :
    (binary operator left right span).eval given =
      (left.eval given).bind fun l => (right.eval given).bind fun r => some (.boolean (holds l r)) := by
  cases operator <;> cases h <;> rfl

/-- What folds is built from literals, and comes to the same in every run. -/
theorem constant_of_fold (h : e.fold = some c) : e.IsConstant ∧ e.eval given = some c := by
  induction e using fold.induct generalizing c with
  | case1 value span =>
    cases h
    exact ⟨.literal value span, rfl⟩
  | case2 operator operand span ih =>
    obtain ⟨value, hoperand, hvalue⟩ := Option.bind_eq_some_iff.1 h
    obtain ⟨hconstant, heval⟩ := ih hoperand
    cases operator with
    | not =>
      cases hvalue
      exact ⟨.not span hconstant, by rw [eval, heval]; rfl⟩
    | negate => cases hvalue
  | case3 operator left right span ihl ihr =>
    obtain ⟨l, hl, h⟩ := Option.bind_eq_some_iff.1 h
    obtain ⟨r, hr, hvalue⟩ := Option.bind_eq_some_iff.1 h
    obtain ⟨hleft, hevall⟩ := ihl hl
    obtain ⟨hright, hevalr⟩ := ihr hr
    cases hcomparison : operator.comparison? with
    | some holds =>
      refine ⟨.comparison span (by rw [hcomparison]; rfl) hleft hright, ?_⟩
      rw [eval_comparison hcomparison, hevall, hevalr, ← hvalue, operator.apply?_of_comparison? hcomparison]
      rfl
    | none =>
      -- only the connectives are left
      cases operator with
      | and =>
        cases hvalue
        refine ⟨.and span hleft hright, ?_⟩
        rw [eval, hevall, Option.bind_eq_bind, Option.bind_some, hevalr, apply_ite some]
      | or =>
        cases hvalue
        refine ⟨.or span hleft hright, ?_⟩
        rw [eval, hevall, Option.bind_eq_bind, Option.bind_some, hevalr, apply_ite some]
      | equals | notEquals | less | lessEquals | greater | greaterEquals => cases hcomparison
      | add | subtract | multiply | divide => cases hvalue
  | case4 | case5 => cases h

/-- What is built from literals folds: no operator that may stand there asks for more than two values. -/
theorem IsConstant.exists_fold (h : e.IsConstant) : ∃ c, e.fold = some c := by
  induction h with
  | literal value span => exact ⟨value, rfl⟩
  | not span _ ih =>
    obtain ⟨value, hvalue⟩ := ih
    exact ⟨.boolean !value.isTruthy, by rw [fold, hvalue]; rfl⟩
  | and span _ _ ihl ihr | or span _ _ ihl ihr =>
    obtain ⟨l, hl⟩ := ihl
    obtain ⟨r, hr⟩ := ihr
    exact ⟨_, by rw [fold, hl, hr]; rfl⟩
  | comparison span hoperator _ _ ihl ihr =>
    obtain ⟨l, hl⟩ := ihl
    obtain ⟨r, hr⟩ := ihr
    obtain ⟨holds, hholds⟩ := Option.isSome_iff_exists.1 hoperator
    refine ⟨.boolean (holds l r), ?_⟩
    rw [fold, hl, hr, Option.bind_some, Option.bind_some, BinaryOperator.apply?_of_comparison? hholds]

theorem isSome_fold_iff : e.fold.isSome = true ↔ e.IsConstant := by
  rw [Option.isSome_iff_exists]
  exact ⟨fun ⟨_, hc⟩ => (@constant_of_fold _ _ (fun _ => none) hc).1, IsConstant.exists_fold⟩

theorem fold_eq_some_iff : e.fold = some c ↔ e.IsConstant ∧ e.eval given = some c := by
  refine ⟨constant_of_fold, fun ⟨hconstant, heval⟩ => ?_⟩
  obtain ⟨value, hvalue⟩ := hconstant.exists_fold
  rw [hvalue, ← (constant_of_fold hvalue).2, heval]

theorem isAlwaysFalse_iff : e.isAlwaysFalse = true ↔ e.IsConstant ∧ e.eval given = some (.boolean false) := by
  rw [isAlwaysFalse, decide_eq_true_eq, fold_eq_some_iff]

end Expression

section Findings

def FindingCause.isImpossible : FindingCause → Bool
  | impossibleChoice .. => true
  | _ => false

theorem FindingCause.isImpossible_iff {cause : FindingCause} :
    cause.isImpossible = true ↔ cause.code = "suspicious_condition" := by
  cases cause <;> simp [isImpossible, code]

def Statement.impossible? : Statement → Option Finding
  | choice text _ (some condition) span _ _ =>
    if condition.isAlwaysFalse then some (.spanning (.impossibleChoice condition text) span) else none
  | choice _ _ none .. | assign .. | say .. | goto .. => none

theorem Expression.Call.not_impossible {call : Expression.Call} {cause : FindingCause}
    (h : call.problem? = some cause) : cause.isImpossible = false := by
  obtain ⟨_, rfl⟩ | ⟨_, _, _, rfl⟩ := cause_of_problem? h <;> rfl

namespace Statement

theorem filter_callFindings (s : Statement) : s.callFindings.filter (·.cause.isImpossible) = [] := by
  rw [List.filter_eq_nil_iff]
  intro f hf
  obtain ⟨_, -, _, -, call, cause, hcause, rfl⟩ := mem_callFindings hf
  rw [Finding.cause_spanning, Expression.Call.not_impossible hcause]
  exact Bool.false_ne_true

theorem filter_choiceFindings (id : String) (texts : List String) (s : Statement) :
    (s.choiceFindings id texts).filter (·.cause.isImpossible) = s.impossible?.toList := by
  cases s with
  | choice text target condition span textSpan targetSpan =>
    have hrepeated : (if text ∈ texts then [Finding.spanning (.repeatedChoice text id) textSpan] else []).filter
        (·.cause.isImpossible) = [] := by
      split <;> simp [FindingCause.isImpossible]
    rw [choiceFindings, List.filter_append, hrepeated, List.nil_append]
    cases condition with
    | none => rfl
    | some e =>
      cases hfalse : e.isAlwaysFalse <;> simp [impossible?, hfalse, FindingCause.isImpossible]
  | assign | say | goto => rfl

theorem filter_impossible (id : String) (texts : List String) (ss : List Statement) :
    (findingsAfter id texts ss).filter (·.cause.isImpossible) = ss.filterMap impossible? := by
  induction ss generalizing texts with
  | nil => rfl
  | cons s ss ih =>
    rw [findingsAfter, List.filter_append, List.filter_append, filter_callFindings, filter_choiceFindings, ih,
      List.nil_append, List.filterMap_cons]
    cases s.impossible? <;> rfl

end Statement

namespace Node

theorem filter_frameFindings (earlier : List Node) (node : Node) :
    (node.frameFindings earlier).filter (·.cause.isImpossible) = [] := by
  unfold frameFindings
  dsimp only
  rw [List.filter_append, List.append_eq_nil_iff]
  constructor
  · split <;> rfl
  · split
    · rfl
    · split <;> rfl

theorem filter_impossible (earlier nodes : List Node) :
    (findingsAfter earlier nodes).filter (·.cause.isImpossible) =
      nodes.flatMap fun node => (node.statements.filterMap Statement.impossible?).map (·.inNode node.id) := by
  induction nodes generalizing earlier with
  | nil => rfl
  | cons node nodes ih =>
    have hown : (node.frameFindings earlier ++ Statement.findingsAfter node.id [] node.statements).filter
        (·.cause.isImpossible) = node.statements.filterMap Statement.impossible? := by
      rw [List.filter_append, filter_frameFindings, List.nil_append, Statement.filter_impossible]
    have hnode : (node.findings earlier).filter (·.cause.isImpossible) =
        (node.statements.filterMap Statement.impossible?).map (·.inNode node.id) := by
      unfold findings
      rw [List.filter_map, ← hown]
      rfl
    rw [findingsAfter, List.filter_append, hnode, ih, List.flatMap_cons]

end Node

namespace Program

/-- At the address there is a choice with that text and span that is only offered under the condition, in the node
with that id. -/
inductive OffersIf (program : Program) : Address → Expression → String → Span → String → Prop
  | intro {n k : Nat} {node : Node} {condition : Expression} {text target : String} {span textSpan targetSpan : Span}
    (hnode : program[n]? = some node)
    (hstatement : node.statements[k]? = some (.choice text target (some condition) span textSpan targetSpan)) :
    OffersIf program [n, k] condition text span node.id

theorem ofCode_suspicious_condition (program : Program) : (analyze program).ofCode "suspicious_condition" =
    program.flatMap fun node => (node.statements.filterMap Statement.impossible?).map (·.inNode node.id) := by
  have hcode : ∀ f : Finding, decide (f.code = "suspicious_condition") = f.cause.isImpossible := by
    intro f
    rw [Bool.eq_iff_iff, decide_eq_true_eq]
    exact FindingCause.isImpossible_iff.symm
  have hkind : ∀ cause : FindingCause, cause.isImpossible = true →
      cause.severity = .warning ∧ cause.check = .nodes := by
    intro cause h
    cases cause with
    | impossibleChoice => exact ⟨rfl, rfl⟩
    | _ => cases h
  unfold Analysis.ofCode analyze
  simp only [hcode]
  rw [Analysis.filter_findings fun f hf => (hkind f.cause hf).1,
    program.filter_findings fun f hf => (hkind f.cause hf).2]
  exact Node.filter_impossible [] program

theorem suspicious_condition_inAddressOrder (program : Program) :
    InAddressOrder (fun address f => ∃ condition text span id, program.OffersIf address condition text span id ∧
      condition.isAlwaysFalse = true ∧ f = (Finding.spanning (.impossibleChoice condition text) span).inNode id)
      ((analyze program).ofCode "suspicious_condition") := by
  rw [ofCode_suspicious_condition]
  have hall : InAddressOrder (Below program fun node path f =>
      ∃ f', (∃ s, (∃ k, path = [k] ∧ node.statements[k]? = some s) ∧ s.impossible? = some f') ∧
        f'.inNode node.id = f)
      (program.flatMap fun node => (node.statements.filterMap Statement.impossible?).map (·.inNode node.id)) :=
    .flatMap fun node _ =>
      ((InAddressOrder.self node.statements).filterMap Statement.impossible?).map (·.inNode node.id)
  refine hall.congr fun address f => ?_
  constructor
  · rintro ⟨n, _, node, rfl, hnode, f', ⟨s, ⟨k, rfl, hstatement⟩, hfinding⟩, rfl⟩
    cases s with
    | choice text target condition span textSpan targetSpan =>
      cases condition with
      | none => cases hfinding
      | some e =>
        obtain ⟨hfalse, hf⟩ := Option.ite_none_right_eq_some.1 hfinding
        cases hf
        exact ⟨e, text, span, node.id, .intro hnode hstatement, hfalse, rfl⟩
    | assign | say | goto => cases hfinding
  · rintro ⟨_, _, _, _, ⟨hnode, hstatement⟩, hfalse, rfl⟩
    exact ⟨_, _, _, rfl, hnode, _, ⟨_, ⟨_, rfl, hstatement⟩, if_pos hfalse⟩, rfl⟩

end Program

end Findings

/-- Folding is exact. An expression folds just when it is built from literals by `!`, `&&`, `||` and comparisons
alone, and then it comes to what any run makes of it, whatever that run makes of the rest. So the choices that are
reported as never shown are those with such a condition that comes to false itself, in the order of the choices. -/
theorem constant_conditions_exact (program : Program) (given : Expression → Option Literal) :
    (∀ e : Expression, e.fold.isSome = true ↔ e.IsConstant) ∧
      (∀ (e : Expression) (c : Literal), e.fold = some c ↔ e.IsConstant ∧ e.eval given = some c) ∧
      InAddressOrder (fun address f => ∃ condition text span id, program.OffersIf address condition text span id ∧
          condition.IsConstant ∧ condition.eval given = some (.boolean false) ∧
          f = (Finding.spanning (.impossibleChoice condition text) span).inNode id)
        ((program.foldl Analyzer.feed .empty).finalize.ofCode "suspicious_condition") := by
  refine ⟨fun _ => Expression.isSome_fold_iff, fun _ _ => Expression.fold_eq_some_iff, ?_⟩
  rw [Analyzer.finalize_foldl_feed]
  refine program.suspicious_condition_inAddressOrder.congr fun address f => ?_
  simp only [@Expression.isAlwaysFalse_iff _ given, and_assoc]

end DialogueScript
