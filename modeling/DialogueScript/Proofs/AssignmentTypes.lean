import Mathlib.Data.List.Induction
import DialogueScript.Proofs.FindingCauses
import DialogueScript.Proofs.Validity

namespace DialogueScript

namespace Expression

theorem reads_binary (operator : BinaryOperator) (left right : Expression) (span : Span) :
    (binary operator left right span).reads = left.reads ++ right.reads :=
  List.filterMap_append

mutual

theorem parts_subset {p q : Expression} (hq : q ∈ p.parts) : ∀ {e : Expression}, p ∈ e.parts → q ∈ e.parts
  | .literal .., h | .var .., h => by
    obtain rfl := List.mem_singleton.1 h
    exact hq
  | .binary operator left right span, h => by
    rcases List.mem_cons.1 h with rfl | h
    · exact hq
    · refine List.mem_cons_of_mem _ (List.mem_append.2 ?_)
      exact (List.mem_append.1 h).imp (parts_subset hq) (parts_subset hq)
  | .unary operator operand span, h => by
    rcases List.mem_cons.1 h with rfl | h
    · exact hq
    · exact List.mem_cons_of_mem _ (parts_subset hq h)
  | .call name arguments span, h => by
    rcases List.mem_cons.1 h with rfl | h
    · exact hq
    · exact List.mem_cons_of_mem _ (partsOfAll_subset hq h)

theorem partsOfAll_subset {p q : Expression} (hq : q ∈ p.parts) :
    ∀ {es : List Expression}, p ∈ partsOfAll es → q ∈ partsOfAll es
  | [], h => by cases h
  | _ :: _, h => List.mem_append.2 ((List.mem_append.1 h).imp (parts_subset hq) (partsOfAll_subset hq))

end

theorem reads_subset {p e : Expression} (hp : p ∈ e.parts) {v : Variable} (hv : v ∈ p.reads) : v ∈ e.reads := by
  obtain ⟨q, hq, hv⟩ := List.mem_filterMap.1 hv
  exact List.mem_filterMap.2 ⟨q, parts_subset hq hp, hv⟩

end Expression

namespace TypeEnvironment

variable {env env' : TypeEnvironment} {f : Finding}

mutual

/-- What is inferred depends on the types of the variables that are read, and on nothing else. -/
theorem infer_congr : ∀ e : Expression, (∀ v ∈ e.reads, env.typeOf v.name = env'.typeOf v.name) →
    env.infer e = env'.infer e
  | .literal .., _ => rfl
  | .var name span, h => by
    have htype := h ⟨name, span⟩ List.mem_cons_self
    simp only [infer, htype]
  | .binary operator left right span, h => by
    rw [Expression.reads_binary, List.forall_mem_append] at h
    simp only [infer, infer_congr left h.1, infer_congr right h.2]
  | .unary operator operand span, h => by
    simp only [infer, infer_congr operand h]
  | .call name arguments span, h => by
    simp only [infer, inferAll_congr arguments h]

theorem inferAll_congr : ∀ es : List Expression,
    (∀ v ∈ (Expression.partsOfAll es).filterMap Expression.variableUse?,
      env.typeOf v.name = env'.typeOf v.name) → env.inferAll es = env'.inferAll es
  | [], _ => rfl
  | e :: es, h => by
    rw [Expression.partsOfAll, List.filterMap_append, List.forall_mem_append] at h
    simp only [inferAll, infer_congr e h.1, inferAll_congr es h.2]

end

mutual

theorem mem_infer_of_part {p : Expression} (hf : f ∈ (env.infer p).mismatches) :
    ∀ {e : Expression}, p ∈ e.parts → f ∈ (env.infer e).mismatches
  | .literal .., h | .var .., h => by
    obtain rfl := List.mem_singleton.1 h
    exact hf
  | .binary operator left right span, h => by
    rcases List.mem_cons.1 h with rfl | h
    · exact hf
    · have hinner : f ∈ (env.infer left).mismatches ++ (env.infer right).mismatches :=
        List.mem_append.2 ((List.mem_append.1 h).imp (mem_infer_of_part hf) (mem_infer_of_part hf))
      rw [mismatches_binary]
      exact List.mem_append_left _ hinner
  | .unary operator operand span, h => by
    rcases List.mem_cons.1 h with rfl | h
    · exact hf
    · have hinner : f ∈ (env.infer operand).mismatches := mem_infer_of_part hf h
      exact hinner
  | .call name arguments span, h => by
    rcases List.mem_cons.1 h with rfl | h
    · exact hf
    · have hinner : f ∈ env.inferAll arguments := mem_inferAll_of_part hf h
      exact hinner

theorem mem_inferAll_of_part {p : Expression} (hf : f ∈ (env.infer p).mismatches) :
    ∀ {es : List Expression}, p ∈ Expression.partsOfAll es → f ∈ env.inferAll es
  | [], h => by cases h
  | _ :: _, h =>
    List.mem_append.2 ((List.mem_append.1 h).imp (mem_infer_of_part hf) (mem_inferAll_of_part hf))

end

/-- The types that the assignments leave, made in this order. -/
def after (assignments : List Assignment) : TypeEnvironment :=
  .ofAssignments (assignments.map fun a => (a.name, a.value))

variable {before later : List Assignment} {a : Assignment} {name : String}

theorem after_concat : after (before ++ [a]) = (after before).assign a.name a.value := by
  simp only [after, ofAssignments, List.map_append, List.foldl_append, List.map_cons, List.map_nil,
    List.foldl_cons, List.foldl_nil]

theorem typeOf_assign_self (value : Expression) : (env.assign name value).typeOf name = (env.infer value).type := by
  simp [assign, typeOf]

theorem typeOf_assign_of_ne {other : String} (value : Expression) (h : other ≠ name) :
    (env.assign name value).typeOf other = env.typeOf other := by
  have hne : (other == name) = false := beq_eq_false_iff_ne.2 h
  simp [assign, typeOf, List.lookup_cons, hne]

/-- A variable keeps its type as long as it is not assigned again. -/
theorem typeOf_after_append (h : ∀ a ∈ later, name ≠ a.name) :
    (after (before ++ later)).typeOf name = (after before).typeOf name := by
  induction later using List.reverseRecOn with
  | nil => rw [List.append_nil]
  | append_singleton later a ih =>
    rw [List.forall_mem_append, List.forall_mem_singleton] at h
    rw [← List.append_assoc, after_concat, typeOf_assign_of_ne _ h.2, ih h.1]

end TypeEnvironment

namespace Program

variable {program : Program} {before later : List Assignment} {a : Assignment} {f : Finding} {e p : Expression}

/-- A mismatch of types at a part of the expression, which stands in node `id`, is among the findings. -/
def ReportsMismatch (program : Program) (id : String) (e : Expression) : Prop :=
  ∃ p ∈ e.parts, ∃ operator required left right,
    (Finding.spanning (.typeMismatch operator required left right) p.span).inNode id ∈ (analyze program).findings

theorem mem_typeFindings_of_assignment (ha : a ∈ program.assignments)
    (hf : f ∈ (program.environment.infer a.value).mismatches) : f.inNode a.node ∈ program.typeFindings := by
  obtain ⟨node, hnode, ha⟩ := List.mem_flatMap.1 ha
  obtain ⟨s, hs, ha⟩ := List.mem_filterMap.1 ha
  refine List.mem_flatMap.2 ⟨node, hnode, List.mem_flatMap.2 ⟨s, hs, ?_⟩⟩
  cases s with
  | assign =>
    cases ha
    exact List.mem_flatMap.2 ⟨_, List.mem_singleton_self _, List.mem_map_of_mem hf⟩
  | say | choice | goto => cases ha

theorem mem_findings_of_typeFindings (h : f ∈ program.typeFindings) : f ∈ (analyze program).findings := by
  refine (Analysis.findings_perm _).mem_iff.2 ?_
  rw [findings_eq]
  exact List.mem_append_left _ (List.mem_append_right _ h)

theorem reportsMismatch_of_part (ha : a ∈ program.assignments) (hp : p ∈ a.value.parts)
    (hmismatch : (program.environment.infer p).mismatches ≠ []) : program.ReportsMismatch a.node p := by
  obtain ⟨f, hf⟩ := List.exists_mem_of_ne_nil _ hmismatch
  obtain ⟨q, hq, operator, required, left, right, rfl⟩ := TypeEnvironment.mem_infer p hf
  have hwhole := TypeEnvironment.mem_infer_of_part hf hp
  exact ⟨q, hq, operator, required, left, right,
    mem_findings_of_typeFindings (mem_typeFindings_of_assignment ha hwhole)⟩

end Program

open TypeEnvironment in
/-- An assigned value is checked with the types that hold just behind the assignment, if nothing that it reads
is assigned later. So what is wrong with a part of it in front of the assignment is reported, except where
the part reads the assigned variable and the assignment gives this another type. -/
theorem mismatch_reported_unless_retyped {program : Program} {before later : List Assignment} {a : Assignment}
    (hplace : program.assignments = before ++ a :: later)
    (hlater : ∀ b ∈ later, ∀ v ∈ a.value.reads, v.name ≠ b.name) :
    program.environment.infer a.value = (after (before ++ [a])).infer a.value ∧
      (∀ f ∈ ((after (before ++ [a])).infer a.value).mismatches, f.inNode a.node ∈ (analyze program).findings) ∧
      ∀ p ∈ a.value.parts, ((after before).infer p).mismatches ≠ [] →
        (a.name ∈ p.reads.map Expression.Variable.name →
          ((after before).infer a.value).type = (after before).typeOf a.name) →
        program.ReportsMismatch a.node p := by
  have ha : a ∈ program.assignments := hplace ▸ List.mem_append_right _ List.mem_cons_self
  have henv : program.environment = after ((before ++ [a]) ++ later) := by
    rw [Program.environment, hplace, List.append_assoc]
    rfl
  -- nothing that the value reads has another type in the end than just behind the assignment
  have hkept : ∀ v ∈ a.value.reads,
      program.environment.typeOf v.name = (after (before ++ [a])).typeOf v.name := by
    intro v hv
    rw [henv]
    exact typeOf_after_append fun b hb => hlater b hb v hv
  have hwhole := infer_congr a.value hkept
  refine ⟨hwhole, fun f hf => ?_, fun p hp hmismatch hretyped => ?_⟩
  · rw [← hwhole] at hf
    exact Program.mem_findings_of_typeFindings (Program.mem_typeFindings_of_assignment ha hf)
  · refine Program.reportsMismatch_of_part ha hp ?_
    rwa [infer_congr p fun v hv => ?_]
    rw [hkept v (Expression.reads_subset hp hv), after_concat]
    by_cases hname : v.name = a.name
    · rw [hname, typeOf_assign_self]
      exact hretyped (List.mem_map.2 ⟨v, hv, hname⟩)
    · exact typeOf_assign_of_ne _ hname

def setScore : Statement :=
  .assign "score" .assign (.literal (.text "ten") ⟨⟨2, 12⟩, ⟨2, 17⟩⟩) ⟨⟨2, 3⟩, ⟨2, 17⟩⟩

def scoreSet : Assignment :=
  ⟨"score", .literal (.text "ten") ⟨⟨2, 12⟩, ⟨2, 17⟩⟩, ⟨⟨2, 3⟩, ⟨2, 17⟩⟩, "start"⟩

def textProduct : Expression :=
  .binary .multiply (.literal (.text "one") ⟨⟨3, 13⟩, ⟨3, 18⟩⟩) (.literal (.text "two") ⟨⟨3, 21⟩, ⟨3, 26⟩⟩)
    ⟨⟨3, 13⟩, ⟨3, 26⟩⟩

/-- A node with the lines `@score = "ten"`, `@score += "one" * "two"` and `@open = true`. -/
def productScript : Program :=
  [⟨"start", [setScore, .assign "score" .add textProduct ⟨⟨3, 3⟩, ⟨3, 26⟩⟩,
    .assign "open" .assign (.literal (.boolean true) ⟨⟨4, 11⟩, ⟨4, 15⟩⟩) ⟨⟨4, 3⟩, ⟨4, 15⟩⟩], ⟨⟨1, 1⟩, ⟨5, 4⟩⟩⟩]

def scoreProduct : Assignment :=
  ⟨"score", AssignOperator.add.result "score" textProduct ⟨⟨3, 3⟩, ⟨3, 26⟩⟩, ⟨⟨3, 3⟩, ⟨3, 26⟩⟩, "start"⟩

def openSet : Assignment :=
  ⟨"open", .literal (.boolean true) ⟨⟨4, 11⟩, ⟨4, 15⟩⟩, ⟨⟨4, 3⟩, ⟨4, 15⟩⟩, "start"⟩

open TypeEnvironment in
/-- The product is wrong whatever the score is, so it is reported although the score becomes a number. -/
theorem mismatch_reported_textProduct :
    productScript.assignments = [scoreSet] ++ scoreProduct :: [openSet] ∧
      (∀ b ∈ [openSet], ∀ v ∈ scoreProduct.value.reads, v.name ≠ b.name) ∧
      ((after [scoreSet]).infer scoreProduct.value).type ≠ (after [scoreSet]).typeOf "score" ∧
      productScript.ReportsMismatch "start" textProduct := by
  have hplace : productScript.assignments = [scoreSet] ++ scoreProduct :: [openSet] := by rfl
  have hlater : ∀ b ∈ [openSet], ∀ v ∈ scoreProduct.value.reads, v.name ≠ b.name := by decide
  refine ⟨hplace, hlater, by decide, ?_⟩
  exact (mismatch_reported_unless_retyped hplace hlater).2.2 textProduct (by decide) (by decide) (by decide)

/-- A node with the lines `@score = "ten"` and `@score += "one"`. -/
def joinedScript : Program :=
  [⟨"start", [setScore, .assign "score" .add (.literal (.text "one") ⟨⟨3, 13⟩, ⟨3, 18⟩⟩) ⟨⟨3, 3⟩, ⟨3, 18⟩⟩],
    ⟨⟨1, 1⟩, ⟨4, 4⟩⟩⟩]

def scoreJoined : Assignment :=
  ⟨"score", AssignOperator.add.result "score" (.literal (.text "one") ⟨⟨3, 13⟩, ⟨3, 18⟩⟩) ⟨⟨3, 3⟩, ⟨3, 18⟩⟩,
    ⟨⟨3, 3⟩, ⟨3, 18⟩⟩, "start"⟩

open TypeEnvironment in
/-- The second assignment does not fit the text of the first. As a mismatch it leaves a score of no known type,
with which it fits, and nothing is reported. -/
theorem mismatch_masked_joinedScript :
    joinedScript.assignments = [scoreSet] ++ scoreJoined :: [] ∧
      ((after [scoreSet]).infer scoreJoined.value).mismatches ≠ [] ∧
      (∀ b ∈ ([] : List Assignment), ∀ v ∈ scoreJoined.value.reads, v.name ≠ b.name) ∧
      ¬ joinedScript.ReportsMismatch "start" scoreJoined.value := by
  refine ⟨by rfl, by decide, by simp, ?_⟩
  rintro ⟨p, -, operator, required, left, right, hf⟩
  have hnone : joinedScript.typeFindings = [] := by decide
  have htypes := Program.mem_findingsOf ((Analysis.findings_perm _).mem_iff.1 hf)
  rw [Finding.cause_inNode, Finding.cause_spanning] at htypes
  change _ ∈ joinedScript.typeFindings at htypes
  rw [hnone] at htypes
  cases htypes

end DialogueScript
