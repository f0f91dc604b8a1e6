import Mathlib.Data.Finset.Card
import Mathlib.Data.Finset.Dedup
import Mathlib.Data.List.Perm.Basic
import DialogueScript.Proofs.GotoCycles
import DialogueScript.Proofs.Validity

namespace DialogueScript

def Analysis.ofCode (a : Analysis) (code : String) : List Finding := a.findings.filter (·.code = code)

/-- The codes of findings that are the same to the letter in whatever order the nodes stand. -/
def orderlessCodes : List String :=
  ["empty_node", "unknown_function", "invalid_function_args", "missing_node", "missing_entry_point",
    "dead_end", "suspicious_condition", "identical_choices", "undefined_variable"]

namespace FindingCause

def isDuplicate : FindingCause → Bool
  | duplicateNode .. => true
  | _ => false

/-- Whether the order of the nodes makes no difference to findings with this cause. -/
def isOrderless (cause : FindingCause) : Bool :=
  match cause.check with
  | .nodes => !cause.isDuplicate
  | .references | .entry | .definitions => true
  | .reachability | .cycles | .types | .usage => false

theorem isOrderless_iff {cause : FindingCause} : cause.isOrderless = true ↔ cause.code ∈ orderlessCodes := by
  cases cause <;> simp [isOrderless, check, isDuplicate, code, orderlessCodes]

theorem isDuplicate_iff {cause : FindingCause} : cause.isDuplicate = true ↔ cause.code = "duplicate_node" := by
  cases cause <;> simp [isDuplicate, code]

theorem orderless_or_duplicate {cause : FindingCause} (h : cause.severity = .error) :
    cause.isOrderless = true ∨ cause.isDuplicate = true := by
  revert h
  cases cause <;> simp [isOrderless, check, isDuplicate, severity]

end FindingCause

section Nodes

theorem Expression.Call.not_duplicate {call : Expression.Call} {cause : FindingCause}
    (h : call.problem? = some cause) : cause.isDuplicate = false := by
  obtain ⟨_, rfl⟩ | ⟨_, _, _, rfl⟩ := cause_of_problem? h <;> rfl

theorem Statement.not_duplicate {id : String} {texts : List String} {ss : List Statement} {f : Finding}
    (h : f ∈ findingsAfter id texts ss) : f.cause.isDuplicate = false := by
  obtain ⟨s, -, hf | ⟨texts', hf⟩⟩ := mem_findingsAfter h
  · obtain ⟨_, -, _, -, call, cause, hcause, rfl⟩ := mem_callFindings hf
    rw [Finding.cause_spanning]
    exact Expression.Call.not_duplicate hcause
  · rcases cause_choiceFindings hf with ⟨text, hcause⟩ | ⟨e, text, hcause⟩
    · rw [hcause]
      rfl
    · rw [hcause]
      rfl

namespace Node

theorem not_duplicate {node : Node} {f : Finding} (h : f ∈ node.findings []) :
    f.cause.isDuplicate = false := by
  obtain ⟨f, hf, rfl⟩ := List.mem_map.1 h
  rw [Finding.cause_inNode]
  rcases List.mem_append.1 hf with hf | hf
  · unfold frameFindings at hf
    simp only [Program.node?, List.find?_nil, List.nil_append] at hf
    split_ifs at hf
    · obtain rfl := List.mem_singleton.1 hf
      rfl
    · cases hf
    · obtain rfl := List.mem_singleton.1 hf
      rfl
  · exact Statement.not_duplicate hf

/-- The nodes before a node only matter to whether its id is new. -/
theorem exists_findings_eq (earlier : List Node) (node : Node) :
    ∃ duplicates, node.findings earlier = duplicates ++ node.findings [] ∧
      (∀ f ∈ duplicates, f.cause.isDuplicate = true) ∧
      duplicates.length = if node.id ∈ earlier.map Node.id then 1 else 0 := by
  unfold findings frameFindings
  cases hfind : Program.node? earlier node.id with
  | none =>
    rw [if_neg (node?_eq_none.1 hfind)]
    exact ⟨[], rfl, by simp, rfl⟩
  | some first =>
    have hmem : node.id ∈ earlier.map Node.id := by
      by_contra hmem
      rw [node?_eq_none.2 hmem] at hfind
      cases hfind
    rw [if_pos hmem]
    exact ⟨[(Finding.atPosition (.duplicateNode node.id first.span.start.line) node.span.start).inNode node.id],
      rfl, by simp [FindingCause.isDuplicate], rfl⟩

theorem filter_findingsAfter (earlier nodes : List Node) :
    (findingsAfter earlier nodes).filter (!·.cause.isDuplicate) = nodes.flatMap (findings []) := by
  induction nodes generalizing earlier with
  | nil => rfl
  | cons node nodes ih =>
    obtain ⟨duplicates, hfindings, hduplicates, -⟩ := exists_findings_eq earlier node
    have hnone : duplicates.filter (!·.cause.isDuplicate) = [] := by
      simpa using hduplicates
    have hown : (node.findings []).filter (!·.cause.isDuplicate) = node.findings [] := by
      simpa using fun f hf => not_duplicate hf
    rw [findingsAfter, List.filter_append, hfindings, List.filter_append, hnone, hown, ih, List.nil_append,
      List.flatMap_cons]

/-- Each node but the first with its id is a duplicate. -/
theorem countP_findingsAfter (earlier nodes : List Node) :
    (findingsAfter earlier nodes).countP (·.cause.isDuplicate) +
        ((earlier ++ nodes).map Node.id).toFinset.card =
      (earlier.map Node.id).toFinset.card + nodes.length := by
  induction nodes generalizing earlier with
  | nil => simp [findingsAfter]
  | cons node nodes ih =>
    obtain ⟨duplicates, hfindings, hduplicates, hlength⟩ := exists_findings_eq earlier node
    have hhere : (node.findings earlier).countP (·.cause.isDuplicate) =
        if node.id ∈ earlier.map Node.id then 1 else 0 := by
      have hown : (node.findings []).countP (·.cause.isDuplicate) = 0 :=
        List.countP_eq_zero.2 fun f hf => by simp [not_duplicate hf]
      rw [hfindings, List.countP_append, hown, List.countP_eq_length.2 hduplicates, hlength, Nat.add_zero]
    have hcard : ((earlier ++ [node]).map Node.id).toFinset.card +
        (if node.id ∈ earlier.map Node.id then 1 else 0) = (earlier.map Node.id).toFinset.card + 1 := by
      have hinsert : ((earlier ++ [node]).map Node.id).toFinset =
          insert node.id (earlier.map Node.id).toFinset := by
        ext id
        simp [eq_comm]
      rw [hinsert, Finset.card_insert_eq_ite]
      simp only [List.mem_toFinset]
      split <;> omega
    have hrest := ih (earlier ++ [node])
    rw [List.append_assoc, List.singleton_append] at hrest
    rw [findingsAfter, List.countP_append, hhere, List.length_cons]
    omega

end Node

end Nodes

namespace Program

variable {p q : Program}

theorem defines_perm (h : p.Perm q) (id : String) : p.defines id = q.defines id := h.any_eq

theorem references_perm (h : p.Perm q) : p.references.Perm q.references := h.flatMap_right _

theorem nodeFindings_perm (h : p.Perm q) : (p.nodeFindings.filter (!·.cause.isDuplicate)).Perm
    (q.nodeFindings.filter (!·.cause.isDuplicate)) := by
  unfold nodeFindings
  rw [Node.filter_findingsAfter, Node.filter_findingsAfter]
  exact h.flatMap_right _

theorem missingFindings_perm (h : p.Perm q) : p.missingFindings.Perm q.missingFindings := by
  unfold missingFindings
  simp only [defines_perm h]
  exact ((references_perm h).filter _).map _

theorem entryFindings_perm (h : p.Perm q) : p.entryFindings = q.entryFindings := by
  unfold entryFindings
  rw [h.isEmpty_eq, defines_perm h]

theorem assignments_perm (h : p.Perm q) : p.assignments.Perm q.assignments := h.flatMap_right _

theorem variableUses_perm (h : p.Perm q) : p.variableUses.Perm q.variableUses := h.flatMap_right _

theorem undefinedFindings_perm (h : p.Perm q) : p.undefinedFindings.Perm q.undefinedFindings := by
  have hassigned : ∀ name,
      name ∈ p.assignments.map Assignment.name ↔ name ∈ q.assignments.map Assignment.name :=
    fun name => ((assignments_perm h).map _).mem_iff
  unfold undefinedFindings
  simp only [hassigned]
  exact ((variableUses_perm h).filter _).map _

theorem filter_orderless (program : Program) (check : Check) :
    (program.findingsOf check).filter (·.cause.isOrderless) =
      match check with
      | .nodes => program.nodeFindings.filter (!·.cause.isDuplicate)
      | .references => program.missingFindings
      | .entry => program.entryFindings
      | .definitions => program.undefinedFindings
      | .reachability | .cycles | .types | .usage => [] := by
  have hcheck : ∀ f ∈ program.findingsOf check, f.cause.check = check :=
    fun f hf => check_of_mem_findingsOf hf
  cases check with
  | nodes => exact List.filter_congr fun f hf => by simp [FindingCause.isOrderless, hcheck f hf]
  | references | entry | definitions =>
    exact List.filter_eq_self.2 fun f hf => by simp [FindingCause.isOrderless, hcheck f hf]
  | reachability | cycles | types | usage =>
    exact List.filter_eq_nil_iff.2 fun f hf => by simp [FindingCause.isOrderless, hcheck f hf]

theorem orderless_perm (h : p.Perm q) : (p.findings.filter (·.cause.isOrderless)).Perm
    (q.findings.filter (·.cause.isOrderless)) := by
  rw [findings_eq, findings_eq]
  simp only [List.filter_append, filter_orderless, List.append_nil]
  rw [entryFindings_perm h]
  exact (((nodeFindings_perm h).append (missingFindings_perm h)).append_right _).append
    (undefinedFindings_perm h)

theorem duplicates_perm (h : p.Perm q) : p.findings.countP (·.cause.isDuplicate) =
    q.findings.countP (·.cause.isDuplicate) := by
  have hcheck : ∀ f : Finding, f.cause.isDuplicate = true → f.cause.check = .nodes := by
    intro f hf
    cases hcause : f.cause <;> simp_all [FindingCause.isDuplicate, FindingCause.check]
  have hcount : ∀ program : Program, program.findings.countP (·.cause.isDuplicate) +
      (program.map Node.id).toFinset.card = program.length := by
    intro program
    have hnodes := Node.countP_findingsAfter [] program
    rw [List.countP_eq_length_filter, filter_findings program hcheck, ← List.countP_eq_length_filter]
    simpa [findingsOf, nodeFindings] using hnodes
  have hp := hcount p
  have hq := hcount q
  rw [List.toFinset_eq_of_perm _ _ (h.map Node.id), h.length_eq] at hp
  omega

theorem mem_node_unreachableFindings {program : Program} {id : String} :
    some id ∈ program.unreachableFindings.map Finding.node ↔
      program.defines entryPoint = true ∧ id ∈ program.map Node.id ∧ ¬ program.links.Reaches entryPoint id := by
  unfold unreachableFindings
  split
  · rename_i hentry
    simp [hentry, Finding.inNode, ids, List.mem_eraseDups, Edges.mem_reachableFrom]
  · rename_i hentry
    simp [hentry]

theorem mem_cause_unusedFindings {program : Program} {name : String} :
    .unusedVariable name ∈ program.unusedFindings.map Finding.cause ↔
      name ∈ program.assignments.map Assignment.name ∧ name ∉ program.variableUses.map (·.1.name) := by
  have hfirst : ∀ name ∈ program.assignments.map Assignment.name,
      ∃ a, program.assignments.find? (·.name = name) = some a := by
    intro name hname
    obtain ⟨a, ha, rfl⟩ := List.mem_map.1 hname
    rw [← Option.isSome_iff_exists, List.find?_isSome]
    exact ⟨a, ha, by simp⟩
  unfold unusedFindings
  rw [List.mem_map]
  constructor
  · rintro ⟨f, hf, hcause⟩
    obtain ⟨other, hother, hf⟩ := List.mem_filterMap.1 hf
    obtain ⟨a, -, rfl⟩ := Option.map_eq_some_iff.1 hf
    rw [Finding.cause_inNode, Finding.cause_spanning] at hcause
    cases hcause
    simpa [List.mem_eraseDups] using hother
  · rintro ⟨hname, hunused⟩
    obtain ⟨a, ha⟩ := hfirst name hname
    refine ⟨_, List.mem_filterMap.2 ⟨name, ?_, by rw [ha]; rfl⟩, by simp⟩
    simpa [List.mem_eraseDups] using ⟨by simpa using hname, by simpa using hunused⟩

theorem reaches_links_perm (h : p.Perm q) (a b : String) : p.links.Reaches a b ↔ q.links.Reaches a b := by
  have hedge : (fun a b => (a, b) ∈ p.links) = fun a b => (a, b) ∈ q.links := by
    funext a b
    exact propext ((references_perm h).map _).mem_iff
  unfold Edges.Reaches
  rw [hedge]

theorem goesTo_perm (h : p.Perm q) : p.GoesTo = q.GoesTo := by
  funext a b
  unfold GoesTo
  simp only [h.mem_iff]

end Program

namespace Program

variable {program p q : Program} {code : String}

theorem mem_ofCode {check : Check} (h : ∀ cause : FindingCause, cause.code = code ↔ cause.check = check)
    {f : Finding} : f ∈ (analyze program).ofCode code ↔ f ∈ program.findingsOf check := by
  have hcheck : ∀ f : Finding, decide (f.code = code) = true → f.cause.check = check :=
    fun f hf => (h f.cause).1 (of_decide_eq_true hf)
  unfold Analysis.ofCode analyze
  rw [((Analysis.findings_perm _).filter _).mem_iff, program.filter_findings hcheck, List.mem_filter,
    and_iff_left_iff_imp]
  exact fun hf => decide_eq_true ((h f.cause).2 (check_of_mem_findingsOf hf))

theorem ofCode_perm (h : p.Perm q) (hcode : code ∈ orderlessCodes) :
    ((analyze p).ofCode code).Perm ((analyze q).ofCode code) := by
  have hfilter : ∀ program : Program, ((analyze program).ofCode code).Perm
      ((program.findings.filter (·.cause.isOrderless)).filter (·.code = code)) := by
    intro program
    have hall : ∀ f : Finding, f.code = code → f.cause.isOrderless = true := by
      rintro f rfl
      exact FindingCause.isOrderless_iff.2 hcode
    have hboth : (program.findings.filter (·.cause.isOrderless)).filter (·.code = code) =
        program.findings.filter (·.code = code) := by
      rw [List.filter_filter]
      exact List.filter_congr fun f _ => by simpa using hall f
    rw [hboth]
    exact (Analysis.findings_perm _).filter _
  exact ((hfilter p).trans ((orderless_perm h).filter _)).trans (hfilter q).symm

theorem length_ofCode_duplicate (program : Program) : ((analyze program).ofCode "duplicate_node").length =
    program.findings.countP (·.cause.isDuplicate) := by
  have hsame : (fun f : Finding => decide (f.code = "duplicate_node")) = fun f => f.cause.isDuplicate := by
    funext f
    rw [Bool.eq_iff_iff, decide_eq_true_eq]
    exact FindingCause.isDuplicate_iff.symm
  unfold Analysis.ofCode
  rw [hsame, ← List.countP_eq_length_filter]
  exact (Analysis.findings_perm _).countP_eq _

/-- The errors of a program are its duplicates and the errors that do not depend on the order. -/
theorem valid_iff_orderless (program : Program) : (analyze program).valid = true ↔
    Harmless (program.findings.filter (·.cause.isOrderless)) ∧
      program.findings.countP (·.cause.isDuplicate) = 0 := by
  have herror : ∀ cause : FindingCause, cause.isDuplicate = true → cause.severity = .error := by
    intro cause h
    cases cause <;> simp_all [FindingCause.isDuplicate, FindingCause.severity]
  rw [valid_iff_harmless, List.countP_eq_zero]
  constructor
  · intro h
    exact ⟨fun f hf => h f (List.mem_of_mem_filter hf), fun f hf hduplicate => h f hf (herror _ hduplicate)⟩
  · rintro ⟨horderless, hduplicate⟩ f hf hseverity
    rcases FindingCause.orderless_or_duplicate hseverity with hkind | hkind
    · exact horderless f (List.mem_filter.2 ⟨hf, hkind⟩) hseverity
    · exact hduplicate f hf hkind

theorem valid_perm (h : p.Perm q) : (analyze p).valid = (analyze q).valid := by
  rw [Bool.eq_iff_iff, valid_iff_orderless, valid_iff_orderless, duplicates_perm h]
  unfold Harmless
  simp only [(orderless_perm h).mem_iff]

theorem mem_unreachable_node {id : String} :
    some id ∈ ((analyze program).ofCode "unreachable_node").map Finding.node ↔
      some id ∈ program.unreachableFindings.map Finding.node := by
  have hcode : ∀ cause : FindingCause, cause.code = "unreachable_node" ↔ cause.check = .reachability := by
    intro cause
    cases cause <;> simp [FindingCause.code, FindingCause.check]
  simp only [List.mem_map, mem_ofCode hcode, findingsOf]

theorem mem_circular_reference {id : String} :
    some id ∈ ((analyze program).ofCode "circular_reference").map Finding.node ↔
      Relation.TransGen program.GoesTo id id := by
  rw [Analysis.ofCode, filter_circular_reference, node_circularFindings,
    List.mem_map_of_injective (Option.some_injective _), mem_circularIds]

theorem mem_unused_variable {name : String} :
    .unusedVariable name ∈ ((analyze program).ofCode "unused_variable").map Finding.cause ↔
      .unusedVariable name ∈ program.unusedFindings.map Finding.cause := by
  have hcode : ∀ cause : FindingCause, cause.code = "unused_variable" ↔ cause.check = .usage := by
    intro cause
    cases cause <;> simp [FindingCause.code, FindingCause.check]
  simp only [List.mem_map, mem_ofCode hcode, findingsOf]

end Program

/-- The order of its nodes does not change what is found about a program. It is valid in every order or
in none; what is found in one place is found in every order; there are as many duplicates; and the same ids
are reported as out of reach or on a cycle of gotos, and the same names as never used. -/
theorem analyze_perm {p q : Program} (h : p.Perm q) :
    (analyze p).valid = (analyze q).valid ∧
      (∀ code ∈ orderlessCodes, ((analyze p).ofCode code).Perm ((analyze q).ofCode code)) ∧
      ((analyze p).ofCode "duplicate_node").length = ((analyze q).ofCode "duplicate_node").length ∧
      (∀ code ∈ ["unreachable_node", "circular_reference"], ∀ id : String,
        some id ∈ ((analyze p).ofCode code).map Finding.node ↔
          some id ∈ ((analyze q).ofCode code).map Finding.node) ∧
      ∀ name : String, .unusedVariable name ∈ ((analyze p).ofCode "unused_variable").map Finding.cause ↔
        .unusedVariable name ∈ ((analyze q).ofCode "unused_variable").map Finding.cause := by
  refine ⟨Program.valid_perm h, fun code hcode => Program.ofCode_perm h hcode, ?_, ?_, fun name => ?_⟩
  · rw [Program.length_ofCode_duplicate, Program.length_ofCode_duplicate, Program.duplicates_perm h]
  · simp only [List.forall_mem_cons, List.not_mem_nil, false_imp_iff, implies_true, and_true]
    refine ⟨fun id => ?_, fun id => ?_⟩
    · rw [Program.mem_unreachable_node, Program.mem_unreachable_node, Program.mem_node_unreachableFindings,
        Program.mem_node_unreachableFindings, Program.defines_perm h, (h.map Node.id).mem_iff,
        Program.reaches_links_perm h]
    · rw [Program.mem_circular_reference, Program.mem_circular_reference, Program.goesTo_perm h]
  · rw [Program.mem_unused_variable, Program.mem_unused_variable, Program.mem_cause_unusedFindings,
      Program.mem_cause_unusedFindings, ((Program.assignments_perm h).map _).mem_iff,
      ((Program.variableUses_perm h).map _).mem_iff]

/-- Two nodes with one id, an empty one on line 1 and one on line 3 that goes to itself. -/
def twoStarts : Program :=
  [⟨"start", [], ⟨⟨1, 1⟩, ⟨2, 4⟩⟩⟩,
    ⟨"start", [.goto "start" ⟨⟨4, 3⟩, ⟨4, 14⟩⟩ ⟨⟨4, 8⟩, ⟨4, 14⟩⟩], ⟨⟨3, 1⟩, ⟨5, 4⟩⟩⟩]

/-- Which of the two is the duplicate depends on the order, but not that one of them is. -/
theorem analyze_perm_twoStarts : twoStarts.reverse.Perm twoStarts ∧
    (analyze twoStarts).ofCode "duplicate_node" ≠ (analyze twoStarts.reverse).ofCode "duplicate_node" ∧
    ((analyze twoStarts.reverse).ofCode "duplicate_node").length =
      ((analyze twoStarts).ofCode "duplicate_node").length ∧
    ((analyze twoStarts.reverse).ofCode "empty_node").Perm ((analyze twoStarts).ofCode "empty_node") ∧
    some "start" ∈ ((analyze twoStarts.reverse).ofCode "circular_reference").map Finding.node := by
  have hperm : twoStarts.reverse.Perm twoStarts := List.reverse_perm _
  have hcircular : some "start" ∈ ((analyze twoStarts).ofCode "circular_reference").map Finding.node := by
    rw [Program.mem_circular_reference]
    exact .single ⟨_, List.mem_of_getElem? (i := 1) rfl, rfl, _, _, List.mem_singleton_self _⟩
  obtain ⟨-, horderless, hcount, hids, -⟩ := analyze_perm hperm
  exact ⟨hperm, by decide, hcount, horderless _ (by decide), (hids _ (by decide) _).2 hcircular⟩

end DialogueScript
