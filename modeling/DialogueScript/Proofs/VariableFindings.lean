import DialogueScript.Proofs.Addresses
import DialogueScript.Proofs.AnalyzerState
import DialogueScript.Proofs.NodeOrder

namespace DialogueScript

section Firsts

variable {α β : Type}

/-- The first value with each key, in the order in which the keys come up. -/
def firstsBy (key : β → String) (values : List β) : List β :=
  (values.map key).eraseDups.filterMap fun k => values.find? (key · = k)

theorem find?_isSome_of_mem_map {key : β → String} {values : List β} {k : String} (h : k ∈ values.map key) :
    (values.find? (key · = k)).isSome = true := by
  obtain ⟨b, hb, rfl⟩ := List.mem_map.1 h
  rw [List.find?_isSome]
  exact ⟨b, hb, decide_eq_true rfl⟩

theorem firstsBy_concat (key : β → String) (values : List β) (b : β) :
    firstsBy key (values ++ [b]) =
      if key b ∈ values.map key then firstsBy key values else firstsBy key values ++ [b] := by
  have hknown : (values.map key).eraseDups.filterMap (fun k => (values ++ [b]).find? (key · = k)) =
      firstsBy key values := by
    apply List.filterMap_congr
    intro k hk
    obtain ⟨first, hfirst⟩ := Option.isSome_iff_exists.1 (find?_isSome_of_mem_map (List.mem_eraseDups.1 hk))
    rw [List.find?_append, hfirst, Option.some_or]
  unfold firstsBy at hknown ⊢
  rw [List.map_append, List.map_singleton, eraseDups_concat]
  split
  · exact hknown
  · rename_i hnew
    have hnone : values.find? (key · = key b) = none := by
      rw [List.find?_eq_none]
      intro c hc hkey
      exact hnew (List.mem_map.2 ⟨c, hc, of_decide_eq_true hkey⟩)
    have hlast : (values ++ [b]).find? (key · = key b) = some b := by
      rw [List.find?_append, hnone, Option.none_or, List.find?_singleton, decide_eq_true rfl, if_pos rfl]
    rw [List.filterMap_append, hknown, List.filterMap_cons, hlast, List.filterMap_nil]

theorem filterMap_find?_map (key : β → String) (keep : String → Bool) (make : String → β → α) (values : List β) :
    ((values.map key).eraseDups.filter keep).filterMap
        (fun k => (values.find? (key · = k)).map (make k)) =
      ((firstsBy key values).filter fun b => keep (key b)).map fun b => make (key b) b := by
  unfold firstsBy
  rw [List.filterMap_filter, List.filter_filterMap, List.map_filterMap]
  apply List.filterMap_congr
  intro k _
  cases hfind : values.find? (key · = k) with
  | none => simp
  | some b =>
    obtain rfl : key b = k := of_decide_eq_true (List.find?_some (p := fun b => decide (key b = k)) hfind)
    by_cases hkeep : keep (key b) = true <;> simp [hkeep]

/-- The values that stand before all others with their key. -/
theorem InAddressOrder.firsts {stands : Address → β → Prop} {values : List β} (h : InAddressOrder stands values)
    (key : β → String) :
    InAddressOrder (fun address b => stands address b ∧
      ∀ other c, stands other c → key c = key b → ¬other < address) (firstsBy key values) := by
  obtain ⟨places, rfl, horder, hall⟩ := h
  simp only [← hall]
  clear hall
  -- the first ones are some of the places, so that they are in order as well
  suffices hfirsts : ∃ firsts : List (Address × β), firsts.Sublist places ∧
      firsts.map Prod.snd = firstsBy key (places.map Prod.snd) ∧
        ∀ p, p ∈ firsts ↔ p ∈ places ∧ ∀ q ∈ places, key q.2 = key p.2 → ¬q.1 < p.1 by
    obtain ⟨firsts, hsublist, hvalues, hmem⟩ := hfirsts
    refine ⟨firsts, hvalues, horder.sublist hsublist, fun address b => ?_⟩
    rw [hmem, Prod.forall]
  induction places using List.reverseRecOn with
  | nil => exact ⟨[], .slnil, rfl, by simp⟩
  | append_singleton places last ih =>
    obtain ⟨horder, -, hlast⟩ := List.pairwise_append.1 horder
    obtain ⟨firsts, hsublist, hvalues, hmem⟩ := ih horder
    have hbefore : ∀ p ∈ places, p.1 < last.1 := fun p hp => hlast p hp last List.mem_cons_self
    have hold : ∀ p, p ∈ firsts ↔
        p ∈ places ∧ ∀ q ∈ places ++ [last], key q.2 = key p.2 → ¬q.1 < p.1 := by
      intro p
      rw [hmem, List.forall_mem_append, List.forall_mem_singleton]
      constructor
      · rintro ⟨hp, hfirst⟩
        exact ⟨hp, hfirst, fun _ hlt => List.lt_asymm hlt (hbefore p hp)⟩
      · rintro ⟨hp, hfirst, -⟩
        exact ⟨hp, hfirst⟩
    rw [List.map_append, List.map_singleton, firstsBy_concat]
    split
    · rename_i hkey
      rw [List.map_map] at hkey
      obtain ⟨q, hq, hkey⟩ := List.mem_map.1 hkey
      refine ⟨firsts, hsublist.trans (List.sublist_append_left ..), hvalues, fun p => ?_⟩
      rw [hold, List.mem_append, List.mem_singleton]
      constructor
      · exact fun ⟨hp, hfirst⟩ => ⟨.inl hp, hfirst⟩
      · rintro ⟨hp | rfl, hfirst⟩
        · exact ⟨hp, hfirst⟩
        · exact absurd (hbefore q hq) (hfirst q (List.mem_append_left _ hq) hkey)
    · rename_i hkey
      refine ⟨firsts ++ [last], hsublist.append (.refl _), ?_, fun p => ?_⟩
      · rw [List.map_append, List.map_singleton, hvalues]
      rw [List.mem_append, List.mem_append, List.mem_singleton, hold]
      constructor
      · rintro (⟨hp, hfirst⟩ | rfl)
        · exact ⟨.inl hp, hfirst⟩
        · refine ⟨.inr rfl, fun q hq hsame => ?_⟩
          rcases List.mem_append.1 hq with hq | hq
          · rw [List.map_map] at hkey
            exact absurd (List.mem_map.2 ⟨q, hq, hsame⟩) hkey
          · rw [List.mem_singleton.1 hq]
            exact List.lt_irrefl _
      · rintro ⟨hp | rfl, hfirst⟩
        · exact .inl ⟨hp, hfirst⟩
        · exact .inr rfl

end Firsts

/-- What a statement evaluates, in the order it does so: the value of an assignment, the placeholders of a `say`
from left to right, the condition of a choice. -/
inductive Statement.EvaluatesAt : Statement → Nat → Expression → Prop
  | value {name : String} {operator : AssignOperator} {e : Expression} {span : Span} :
    EvaluatesAt (.assign name operator e span) 0 e
  | placeholder {speech : Speech} {j : Nat} {e : Expression} {text : String} {span : Span}
    (h : speech.placeholders[j]? = some (e, text)) : EvaluatesAt (.say speech span) j e
  | condition {text target : String} {e : Expression} {span textSpan targetSpan : Span} :
    EvaluatesAt (.choice text target (some e) span textSpan targetSpan) 0 e

theorem Statement.getElem?_expressions {s : Statement} {j : Nat} {e : Expression} :
    s.expressions[j]? = some e ↔ s.EvaluatesAt j e := by
  constructor
  · intro h
    cases s with
    | assign name operator value span =>
      obtain ⟨rfl, hvalue⟩ := Option.ite_none_right_eq_some.1 (List.getElem?_singleton.symm.trans h)
      cases hvalue
      exact .value
    | say speech span =>
      obtain ⟨⟨e, text⟩, hplaceholder, rfl⟩ := Option.map_eq_some_iff.1 ((List.getElem?_map ..).symm.trans h)
      exact .placeholder hplaceholder
    | choice text target condition =>
      cases condition with
      | none => cases h
      | some condition =>
        obtain ⟨rfl, hcondition⟩ := Option.ite_none_right_eq_some.1 (List.getElem?_singleton.symm.trans h)
        cases hcondition
        exact .condition
    | goto => cases h
  · intro h
    cases h with
    | value | condition => rfl
    | placeholder hplaceholder =>
      apply (List.getElem?_map ..).trans
      rw [hplaceholder, Option.map_some]

namespace Program

/-- At the address a variable is read, in the node with that id: it stands in an expression that a statement
evaluates, as the whole of it or somewhere inside. -/
inductive Reads (program : Program) : Address → Expression.Variable → String → Prop
  | intro {n k j : Nat} {path : Address} {node : Node} {s : Statement} {e : Expression} {name : String} {span : Span}
    (hnode : program[n]? = some node) (hstatement : node.statements[k]? = some s)
    (hexpression : s.EvaluatesAt j e) (hvariable : e.HoldsAt path (.var name span)) :
    Reads program (n :: k :: j :: path) ⟨name, span⟩ node.id

/-- At the address a variable is set, by an assignment with that span in the node with that id, whatever the
operator. -/
inductive Sets (program : Program) : Address → String → Span → String → Prop
  | intro {n k : Nat} {node : Node} {name : String} {operator : AssignOperator} {value : Expression} {span : Span}
    (hnode : program[n]? = some node) (hstatement : node.statements[k]? = some (.assign name operator value span)) :
    Sets program [n, k] name span node.id

/-- The variable is set at the address, and at none before it. -/
def SetsFirst (program : Program) (address : Address) (name : String) (span : Span) (id : String) : Prop :=
  program.Sets address name span id ∧ ∀ other span' id', program.Sets other name span' id' → ¬other < address

def IsRead (program : Program) (name : String) : Prop := ∃ address span id, program.Reads address ⟨name, span⟩ id

def IsSet (program : Program) (name : String) : Prop := ∃ address span id, program.Sets address name span id

variable {program : Program}

/-- The places where variables are read are listed in the order of their addresses. -/
theorem variableUses_inAddressOrder (program : Program) :
    InAddressOrder (fun address u => program.Reads address u.1 u.2) program.variableUses := by
  have hall : InAddressOrder (Below program fun node => Below node.statements fun s =>
      Below s.expressions fun e path u =>
        ∃ v, (∃ p, e.HoldsAt path p ∧ p.variableUse? = some v) ∧ (v, node.id) = u) program.variableUses :=
    .flatMap fun node _ => .flatMap fun s _ => .flatMap fun e _ =>
      (e.parts_inAddressOrder.filterMap Expression.variableUse?).map fun v => (v, node.id)
  refine hall.congr fun address u => ?_
  constructor
  · rintro ⟨n, _, node, rfl, hnode, k, _, s, rfl, hstatement, j, path, e, rfl, he, v, ⟨p, hp, huse⟩, rfl⟩
    cases p with
    | var name span =>
      cases huse
      exact .intro hnode hstatement (Statement.getElem?_expressions.1 he) hp
    | literal | binary | unary | call => cases huse
  · obtain ⟨v, id⟩ := u
    rintro ⟨hnode, hstatement, he, hp⟩
    have hexpression := Statement.getElem?_expressions.2 he
    exact ⟨_, _, _, rfl, hnode, _, _, _, rfl, hstatement, _, _, _, rfl, hexpression, _, ⟨_, hp, rfl⟩, rfl⟩

theorem assignments_inAddressOrder (program : Program) :
    InAddressOrder (fun address a => ∃ n k node s, address = [n, k] ∧ program[n]? = some node ∧
      node.statements[k]? = some s ∧ s.assignment? node.id = some a) program.assignments := by
  have hall : InAddressOrder (Below program fun node path a =>
      ∃ s, (∃ k, path = [k] ∧ node.statements[k]? = some s) ∧ s.assignment? node.id = some a)
      program.assignments :=
    .flatMap fun node _ => (InAddressOrder.self node.statements).filterMap (·.assignment? node.id)
  refine hall.congr fun address a => ?_
  constructor
  · rintro ⟨n, _, node, rfl, hnode, s, ⟨k, rfl, hstatement⟩, hassignment⟩
    exact ⟨n, k, node, s, rfl, hnode, hstatement, hassignment⟩
  · rintro ⟨n, k, node, s, rfl, hnode, hstatement, hassignment⟩
    exact ⟨n, [k], node, rfl, hnode, s, ⟨k, rfl, hstatement⟩, hassignment⟩

theorem sets_iff {address : Address} {name : String} {span : Span} {id : String} :
    program.Sets address name span id ↔ ∃ a : Assignment, (∃ n k node s, address = [n, k] ∧
      program[n]? = some node ∧ node.statements[k]? = some s ∧ s.assignment? node.id = some a) ∧
      a.name = name ∧ a.span = span ∧ a.node = id := by
  constructor
  · rintro ⟨hnode, hstatement⟩
    exact ⟨_, ⟨_, _, _, _, rfl, hnode, hstatement, rfl⟩, rfl, rfl, rfl⟩
  · rintro ⟨a, ⟨n, k, node, s, rfl, hnode, hstatement, hassignment⟩, rfl, rfl, rfl⟩
    cases s with
    | assign name operator value span =>
      cases hassignment
      exact .intro hnode hstatement
    | say | choice | goto => cases hassignment

theorem isRead_iff {name : String} : program.IsRead name ↔ name ∈ program.variableUses.map (·.1.name) := by
  rw [List.mem_map]
  constructor
  · rintro ⟨address, span, id, hread⟩
    exact ⟨(⟨name, span⟩, id), program.variableUses_inAddressOrder.mem_iff.2 ⟨address, hread⟩, rfl⟩
  · rintro ⟨⟨v, id⟩, hmem, rfl⟩
    obtain ⟨address, hread⟩ := program.variableUses_inAddressOrder.mem_iff.1 hmem
    exact ⟨address, v.span, id, hread⟩

theorem isSet_iff {name : String} : program.IsSet name ↔ name ∈ program.assignments.map Assignment.name := by
  simp only [IsSet, sets_iff, List.mem_map, program.assignments_inAddressOrder.mem_iff]
  constructor
  · rintro ⟨address, _, _, a, ha, rfl, -, -⟩
    exact ⟨a, ⟨address, ha⟩, rfl⟩
  · rintro ⟨a, ⟨address, ha⟩, rfl⟩
    exact ⟨address, _, _, a, ha, rfl, rfl, rfl⟩

theorem undefinedFindings_inAddressOrder (program : Program) :
    InAddressOrder (fun address f => ∃ v id, program.Reads address v id ∧ ¬program.IsSet v.name ∧
      f = (Finding.spanning (.undefinedVariable v.name) v.span).inNode id) program.undefinedFindings := by
  refine ((program.variableUses_inAddressOrder.filter _).map _).congr fun address f => ?_
  simp only [Prod.exists, decide_eq_true_eq, ← isSet_iff, and_assoc, eq_comm (a := f)]

theorem unusedFindings_inAddressOrder (program : Program) :
    InAddressOrder (fun address f => ∃ name span id, program.SetsFirst address name span id ∧
      ¬program.IsRead name ∧ f = (Finding.spanning (.unusedVariable name) span).inNode id)
      program.unusedFindings := by
  unfold unusedFindings
  dsimp only
  rw [filterMap_find?_map Assignment.name _ fun name a => (Finding.spanning (.unusedVariable name) a.span).inNode a.node]
  refine (((program.assignments_inAddressOrder.firsts Assignment.name).filter _).map _).congr fun address f => ?_
  simp only [decide_eq_true_eq, ← isRead_iff, SetsFirst, sets_iff]
  constructor
  · rintro ⟨a, ⟨⟨ha, hfirst⟩, hread⟩, rfl⟩
    refine ⟨a.name, a.span, a.node, ⟨⟨a, ha, rfl, rfl, rfl⟩, ?_⟩, hread, rfl⟩
    rintro other _ _ ⟨c, hc, hname, -, -⟩
    exact hfirst other c hc hname
  · rintro ⟨_, _, _, ⟨⟨a, ha, rfl, rfl, rfl⟩, hfirst⟩, hread, rfl⟩
    exact ⟨a, ⟨⟨ha, fun other c hc hname => hfirst other _ _ ⟨c, hc, hname, rfl, rfl⟩⟩, hread⟩, rfl⟩

theorem nodup_cause_unusedFindings (program : Program) : (program.unusedFindings.map Finding.cause).Nodup := by
  obtain ⟨places, hvalues, horder, hall⟩ := program.unusedFindings_inAddressOrder
  rw [← hvalues, List.map_map]
  refine List.pairwise_map.2 (horder.imp_of_mem fun {p q} hp hq hlt hcause => ?_)
  obtain ⟨name, span, id, ⟨hset, -⟩, -, hf⟩ := (hall p.1 p.2).1 hp
  obtain ⟨name', span', id', ⟨-, hfirst⟩, -, hf'⟩ := (hall q.1 q.2).1 hq
  rw [Function.comp_apply, Function.comp_apply, hf, hf'] at hcause
  simp only [Finding.cause_inNode, Finding.cause_spanning] at hcause
  cases hcause
  exact hfirst _ _ _ hset hlt

theorem ofCode_undefined_variable : (analyze program).ofCode "undefined_variable" = program.undefinedFindings :=
  program.filter_code .definitions rfl

theorem ofCode_unused_variable : (analyze program).ofCode "unused_variable" = program.unusedFindings :=
  program.filter_code .usage rfl

end Program

/-- The findings about variables are exact. There is a warning for each place where a variable is read that no
node sets, in the order of the places; and a suggestion for each variable that some node sets and none reads, at
the place where it is set first, in the order of these. So no variable is reported in both ways. -/
theorem variable_findings_exact (program : Program) :
    let found := (program.foldl Analyzer.feed .empty).finalize
    let undefined := found.ofCode "undefined_variable"
    let unused := found.ofCode "unused_variable"
    InAddressOrder (fun address f => ∃ v id, program.Reads address v id ∧ ¬program.IsSet v.name ∧
        f = (Finding.spanning (.undefinedVariable v.name) v.span).inNode id) undefined ∧
      InAddressOrder (fun address f => ∃ name span id, program.SetsFirst address name span id ∧
        ¬program.IsRead name ∧ f = (Finding.spanning (.unusedVariable name) span).inNode id) unused ∧
      (unused.map Finding.cause).Nodup ∧
      (∀ name, .unusedVariable name ∈ unused.map Finding.cause ↔ program.IsSet name ∧ ¬program.IsRead name) ∧
      (∀ f ∈ undefined, f.severity = .warning) ∧ (∀ f ∈ unused, f.severity = .suggestion) ∧
      ∀ name, .undefinedVariable name ∈ undefined.map Finding.cause →
        .unusedVariable name ∉ unused.map Finding.cause := by
  dsimp only
  rw [Analyzer.finalize_foldl_feed, Program.ofCode_undefined_variable, Program.ofCode_unused_variable]
  have hundefined := program.undefinedFindings_inAddressOrder
  have hunused := program.unusedFindings_inAddressOrder
  have hcauses : ∀ name, .unusedVariable name ∈ program.unusedFindings.map Finding.cause ↔
      program.IsSet name ∧ ¬program.IsRead name := by
    intro name
    rw [Program.mem_cause_unusedFindings, Program.isSet_iff, Program.isRead_iff]
  refine ⟨hundefined, hunused, program.nodup_cause_unusedFindings, hcauses, fun f hf => ?_, fun f hf => ?_,
    fun name hname hboth => ?_⟩
  · obtain ⟨_, v, id, -, -, rfl⟩ := hundefined.mem_iff.1 hf
    rw [Finding.severity, Finding.cause_inNode, Finding.cause_spanning, FindingCause.severity]
  · obtain ⟨_, name, span, id, -, -, rfl⟩ := hunused.mem_iff.1 hf
    rw [Finding.severity, Finding.cause_inNode, Finding.cause_spanning, FindingCause.severity]
  · obtain ⟨f, hf, hcause⟩ := List.mem_map.1 hname
    obtain ⟨_, v, id, -, hset, rfl⟩ := hundefined.mem_iff.1 hf
    rw [Finding.cause_inNode, Finding.cause_spanning] at hcause
    cases hcause
    exact hset ((hcauses _).1 hboth).1

end DialogueScript
