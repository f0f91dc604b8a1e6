import DialogueScript.Analyzer
import DialogueScript.Proofs.GotoCycles

namespace DialogueScript

namespace Registry

variable {α β : Type} {r : Registry α} {items : List (String × α)} {name : String}

/-- The registry holds the first value for each name, and the names in the order of their first values. -/
structure Holds (r : Registry α) (items : List (String × α)) : Prop where
  lookup_eq : ∀ name, r.lookup name = items.lookup name
  names_eq : r.names = (items.map Prod.fst).eraseDups

theorem holds_nil : Holds ([] : Registry α) [] := ⟨fun _ => rfl, rfl⟩

theorem mem_names : name ∈ r.names ↔ r.defines name = true := by
  unfold names defines
  induction r with
  | nil => simp
  | cons item r ih =>
    rw [List.map_cons, List.mem_cons, List.lookup_cons, ih]
    by_cases h : name = item.1
    · simp [h]
    · simp only [h, beq_false_of_ne h, false_or]

theorem Holds.add (h : Holds r items) (name : String) (value : α) :
    Holds (r.add name value) (items ++ [(name, value)]) := by
  have hknown : name ∈ items.map Prod.fst ↔ r.defines name = true := by
    rw [← mem_names, h.names_eq, List.mem_eraseDups]
  refine ⟨fun other => ?_, ?_⟩
  · rw [List.lookup_append, ← h.lookup_eq]
    unfold Registry.add
    split
    · rename_i hname
      by_cases hother : other = name
      · subst hother
        obtain ⟨first, hfirst⟩ := Option.isSome_iff_exists.1 hname
        rw [hfirst, Option.some_or]
      · simp [List.lookup_cons, beq_false_of_ne hother]
    · exact List.lookup_append
  · rw [List.map_append, List.map_singleton, eraseDups_concat, ← h.names_eq]
    unfold Registry.add
    simp only [hknown]
    split
    · rfl
    · simp [names]

theorem lookup_map (as : List β) (key : β → String) (value : β → α) (name : String) :
    (as.map fun a => (key a, value a)).lookup name = (as.find? (key · = name)).map value := by
  induction as with
  | nil => rfl
  | cons a as ih =>
    rw [List.map_cons, List.lookup_cons, List.find?_cons, ih]
    by_cases h : name = key a
    · simp [h]
    · simp [beq_false_of_ne h, Ne.symm h]

end Registry

namespace Statement

theorem flatMap_typedExpressions (id : String) (env : TypeEnvironment) (ss : List Statement) :
    ((ss.flatMap typedExpressions).map fun e => (e, id)).flatMap
        (fun e => (env.infer e.1).mismatches.map (·.inNode e.2)) =
      ss.flatMap fun s => s.typedExpressions.flatMap fun e => (env.infer e).mismatches.map (·.inNode id) := by
  rw [List.flatMap_map, List.flatMap_assoc]

end Statement

theorem Node.findingsAfter_concat (earlier nodes : List Node) (node : Node) :
    findingsAfter earlier (nodes ++ [node]) = findingsAfter earlier nodes ++ node.findings (earlier ++ nodes) := by
  induction nodes generalizing earlier with
  | nil => simp [findingsAfter]
  | cons first nodes ih =>
    rw [List.cons_append, findingsAfter, findingsAfter, ih, List.append_assoc, List.append_assoc,
      List.singleton_append]

def Program.typedExpressions (program : Program) : List (Expression × String) :=
  program.flatMap fun node => (node.statements.flatMap Statement.typedExpressions).map fun e => (e, node.id)

namespace Analyzer

variable {a : Analyzer} {program : Program}

theorem visitAll_eq (a : Analyzer) (id : String) (texts : List String) (ss : List Statement) :
    a.visitAll id texts ss =
      { definitions := a.definitions
        references := a.references ++ ss.filterMap (·.reference? id)
        assignments := a.assignments ++ (ss.filterMap (·.assignment? id)).map fun m => (m.name, m.value)
        definedVariables := (ss.filterMap (·.assignment? id)).foldl (fun r m => r.add m.name ⟨m.span, m.node⟩)
          a.definedVariables
        uses := a.uses ++ ss.flatMap fun s => s.expressions.flatMap fun e => e.reads.map fun v => (v, id)
        expressions := a.expressions ++ (ss.flatMap Statement.typedExpressions).map fun e => (e, id)
        findings := a.findings ++ (Statement.findingsAfter id texts ss).map (·.inNode id) } := by
  induction ss generalizing a texts with
  | nil => simp [visitAll, Statement.findingsAfter]
  | cons s ss ih =>
    rw [visitAll, ih]
    unfold visit
    cases hmade : s.assignment? id <;> cases hreference : s.reference? id <;>
      simp [report, recordAssignment, Statement.findingsAfter, hmade, hreference]

/-- The analyzer knows all of a program that the checks look at. -/
structure Covers (a : Analyzer) (program : Program) : Prop where
  definitions : a.definitions.Holds (program.map fun node => (node.id, node.span))
  references : a.references = program.references
  assignments : a.assignments = program.assignments.map fun m => (m.name, m.value)
  definedVariables : a.definedVariables.Holds (program.assignments.map fun m => (m.name, ⟨m.span, m.node⟩))
  uses : a.uses = program.variableUses
  expressions : a.expressions = program.typedExpressions
  findings : a.findings = program.nodeFindings

theorem covers_empty : empty.Covers [] := ⟨Registry.holds_nil, rfl, rfl, Registry.holds_nil, rfl, rfl, rfl⟩

namespace Covers

theorem lookup_definitions (h : a.Covers program) (id : String) :
    a.definitions.lookup id = (program.node? id).map Node.span :=
  (h.definitions.lookup_eq id).trans (Registry.lookup_map program Node.id Node.span id)

theorem lookup_variables (h : a.Covers program) (name : String) : a.definedVariables.lookup name =
    (program.assignments.find? (·.name = name)).map fun m => ⟨m.span, m.node⟩ :=
  (h.definedVariables.lookup_eq name).trans (Registry.lookup_map program.assignments Assignment.name _ name)

theorem defines_definitions (h : a.Covers program) (id : String) :
    a.definitions.defines id = program.defines id := by
  rw [Registry.defines, h.lookup_definitions, Option.isSome_map, Program.node?, Bool.eq_iff_iff,
    List.find?_isSome, Program.defines, List.any_eq_true]

theorem names_definitions (h : a.Covers program) : a.definitions.names = program.ids := by
  rw [h.definitions.names_eq, List.map_map]
  rfl

theorem names_variables (h : a.Covers program) :
    a.definedVariables.names = (program.assignments.map Assignment.name).eraseDups := by
  rw [h.definedVariables.names_eq, List.map_map]
  rfl

theorem definitionOf_eq (h : a.Covers program) (id : String) : a.definitionOf id = program.definitionOf id := by
  rw [definitionOf, h.lookup_definitions, Option.map_map]
  rfl

theorem frame_eq (h : a.Covers program) (node : Node) : (a.define node).checkExit node =
    { a with
      definitions := a.definitions.add node.id node.span
      findings := a.findings ++ (node.frameFindings program).map (·.inNode node.id) } := by
  unfold define checkExit Node.frameFindings report Registry.add Registry.defines
  rw [h.lookup_definitions]
  cases program.node? node.id <;> dsimp only [Option.map] <;> split_ifs <;> simp_all

theorem feed (h : a.Covers program) (node : Node) : (a.feed node).Covers (program ++ [node]) := by
  have hassignments : Program.assignments (program ++ [node]) =
      program.assignments ++ node.statements.filterMap (·.assignment? node.id) := by
    simp [Program.assignments]
  have hvariables : ∀ (r : Registry VariableDefinition) (known made : List Assignment),
      r.Holds (known.map fun m => (m.name, ⟨m.span, m.node⟩)) →
        (made.foldl (fun r m => r.add m.name ⟨m.span, m.node⟩) r).Holds
          ((known ++ made).map fun m => (m.name, ⟨m.span, m.node⟩)) := by
    intro r known made hr
    induction made generalizing r known with
    | nil => rwa [List.append_nil]
    | cons m made ih =>
      rw [List.append_cons]
      exact ih _ _ (by simpa using hr.add m.name ⟨m.span, m.node⟩)
  unfold Analyzer.feed
  rw [h.frame_eq, visitAll_eq]
  refine ⟨?_, ?_, ?_, ?_, ?_, ?_, ?_⟩
  · simpa using h.definitions.add node.id node.span
  · simp [h.references, Program.references, Node.references]
  · simp [h.assignments, hassignments]
  · rw [hassignments]
    exact hvariables _ _ _ h.definedVariables
  · simp [h.uses, Program.variableUses]
  · simp [h.expressions, Program.typedExpressions]
  · simp [h.findings, Program.nodeFindings, Node.findingsAfter_concat, Node.findings]

theorem foldl_feed (h : a.Covers program) (nodes : List Node) :
    (nodes.foldl Analyzer.feed a).Covers (program ++ nodes) := by
  induction nodes generalizing a program with
  | nil => rwa [List.append_nil]
  | cons node nodes ih =>
    rw [List.append_cons]
    exact ih (h.feed node)

theorem missingFindings_eq (h : a.Covers program) : a.missingFindings = program.missingFindings := by
  unfold missingFindings Program.missingFindings
  simp only [h.references, h.defines_definitions]

theorem entryFindings_eq (h : a.Covers program) : a.entryFindings = program.entryFindings := by
  have hempty : a.definitions.isEmpty = program.isEmpty := by
    rw [Bool.eq_iff_iff, List.isEmpty_iff, List.isEmpty_iff, ← List.map_eq_nil_iff (f := Prod.fst)]
    change a.definitions.names = [] ↔ _
    rw [h.names_definitions]
    cases program <;> simp [Program.ids, List.eraseDups_cons]
  unfold entryFindings Program.entryFindings
  rw [hempty, h.defines_definitions]

theorem unreachableFindings_eq (h : a.Covers program) :
    a.unreachableFindings = program.unreachableFindings := by
  unfold unreachableFindings Program.unreachableFindings Program.links
  simp only [h.defines_definitions, h.references, h.names_definitions, h.definitionOf_eq]

theorem circularFindings_eq (h : a.Covers program) : a.circularFindings = program.circularFindings := by
  unfold circularFindings Program.circularFindings Program.gotoLinks
  simp only [h.references, h.names_definitions, h.definitionOf_eq]

theorem undefinedFindings_eq (h : a.Covers program) : a.undefinedFindings = program.undefinedFindings := by
  have hdefines : ∀ name, (!a.definedVariables.defines name) =
      decide (name ∉ program.assignments.map Assignment.name) := by
    intro name
    rw [Bool.eq_iff_iff, Bool.not_eq_true', ← Bool.not_eq_true, ← Registry.mem_names, h.names_variables,
      List.mem_eraseDups, decide_eq_true_eq]
  unfold undefinedFindings Program.undefinedFindings
  simp only [h.uses, hdefines]

theorem typeFindings_eq (h : a.Covers program) : a.typeFindings = program.typeFindings := by
  unfold typeFindings Program.typeFindings Program.environment
  simp only [h.assignments, h.expressions, Program.typedExpressions, List.flatMap_assoc,
    Statement.flatMap_typedExpressions]

theorem unusedFindings_eq (h : a.Covers program) : a.unusedFindings = program.unusedFindings := by
  unfold unusedFindings Program.unusedFindings
  simp only [h.uses, h.names_variables, h.lookup_variables, Option.map_map]
  rfl

theorem finalize_eq (h : a.Covers program) : a.finalize = analyze program := by
  unfold finalize analyze Program.findings
  rw [h.findings, h.missingFindings_eq, h.entryFindings_eq, h.unreachableFindings_eq, h.circularFindings_eq,
    h.undefinedFindings_eq, h.typeFindings_eq, h.unusedFindings_eq]

end Covers

/-- An analysis node by node comes to the analysis of the whole program. -/
theorem finalize_foldl_feed (program : Program) : (program.foldl Analyzer.feed .empty).finalize = analyze program :=
  (covers_empty.foldl_feed program).finalize_eq

end Analyzer

end DialogueScript
