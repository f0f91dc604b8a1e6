import Mathlib.Data.List.ReduceOption
import DialogueScript.Check
import DialogueScript.Proofs.AnalyzerState
import DialogueScript.Proofs.NodeLoop

namespace DialogueScript

namespace Parser

variable {p after : Parser} {n : Node}

/-- What an iterator over the nodes gives when it is asked `count` times, and the parser that it leaves. -/
def pull : Nat → Parser → List (Option Node) × Parser
  | 0, p => ([], p)
  | count + 1, p =>
    let (item, after) := p.nextNode
    let (items, last) := pull count after
    (item :: items, last)

/-- What iterators give that are made one after the other, each when the one before is dropped, and asked as
many times as the counts say. -/
def pullEach : List Nat → Parser → List (List (Option Node)) × Parser
  | [], p => ([], p)
  | count :: counts, p =>
    let (items, after) := pull count p
    let (others, last) := pullEach counts after
    (items :: others, last)

theorem pull_succ (count : Nat) (p : Parser) : pull (count + 1) p =
    (p.nextNode.1 :: (pull count p.nextNode.2).1, (pull count p.nextNode.2).2) := rfl

theorem pull_add (m count : Nat) (p : Parser) : pull (m + count) p =
    ((pull m p).1 ++ (pull count (pull m p).2).1, (pull count (pull m p).2).2) := by
  induction m generalizing p with
  | zero => rw [Nat.zero_add]; rfl
  | succ m ih =>
    rw [Nat.succ_add, pull_succ, ih]
    rfl

theorem pullEach_eq (counts : List Nat) (p : Parser) :
    ((pullEach counts p).1.flatten, (pullEach counts p).2) = pull counts.sum p := by
  induction counts generalizing p with
  | nil => rfl
  | cons count counts ih =>
    rw [List.sum_cons, pull_add, ← ih]
    rfl

theorem nextNode_of_none (h : p.nextNode = (none, after)) : after.nextNode = (none, after) := by
  induction p using tries_induction with
  | endOfFile p hend =>
    have hskip : p.skip.skip = p.skip := by
      simp only [skip, TokenStream.skipNewlines, List.dropWhile_idempotent _ _]
    obtain rfl : p.skip = after := by simpa [nextNode_of_endOfFile hend] using h
    rw [nextNode_of_endOfFile (p := p.skip) (by rwa [hskip]), hskip]
  | node p m after' hend hnode ih =>
    rw [nextNode_of_node hend hnode] at h
    cases h
  | error p e after' hend hnode ih => exact ih (nextNode_of_error hend hnode ▸ h)

theorem pull_of_none (h : p.nextNode = (none, p)) (count : Nat) :
    pull count p = (List.replicate count none, p) := by
  induction count with
  | zero => rfl
  | succ count ih => rw [pull_succ, h, ih, List.replicate_succ]

theorem nodes_of_none (h : p.nextNode = (none, after)) : p.nodes = ([], after) := by
  rw [nodes, nodesWithin, h]

/-- The iterator first gives the nodes and then nothing any more, and it leaves the nodes not asked for. -/
theorem pull_eq (count : Nat) (p : Parser) :
    (pull count p).1 = (p.nodes.1.take count).map some ++ List.replicate (count - p.nodes.1.length) none ∧
      (pull count p).2.nodes = (p.nodes.1.drop count, p.nodes.2) := by
  induction count generalizing p with
  | zero => simp [pull]
  | succ count ih =>
    rcases hnext : p.nextNode with ⟨_ | n, after⟩
    · have hrest := nextNode_of_none hnext
      rw [pull_succ, hnext, nodes_of_none hnext]
      simp [pull_of_none hrest, nodes_of_none hrest, List.replicate_succ]
    · obtain ⟨hitems, hlast⟩ := ih after
      rw [pull_succ, hnext, nodes_of_nextNode hnext]
      simp [hitems, hlast]

theorem reduceOption_pull (count : Nat) (p : Parser) :
    (pull count p).1.reduceOption = p.nodes.1.take count := by
  rw [(pull_eq count p).1, List.reduceOption_append, List.reduceOption_replicate_none, List.append_nil]
  simp [List.reduceOption]

theorem none_mem_pull {count : Nat} {p : Parser} :
    none ∈ (pull count p).1 ↔ p.nodes.1.length < count := by
  have hgiven : none ∉ (p.nodes.1.take count).map some := by
    simp only [List.mem_map, reduceCtorEq, and_false, exists_false, not_false_iff]
  rw [(pull_eq count p).1, List.mem_append, or_iff_right hgiven, List.mem_replicate, and_iff_left rfl, ne_eq,
    Nat.sub_eq_zero_iff_le, Nat.not_le]

theorem pull_exhausted {count : Nat} (h : p.nodes.1.length < count) : (pull count p).2 = p.nodes.2 := by
  induction count generalizing p with
  | zero => cases h
  | succ count ih =>
    rcases hnext : p.nextNode with ⟨_ | n, after⟩
    · rw [pull_succ, hnext, nodes_of_none hnext, pull_of_none (nextNode_of_none hnext)]
    · rw [nodes_of_nextNode hnext, List.length_cons] at h
      rw [pull_succ, hnext, nodes_of_nextNode hnext]
      exact ih (Nat.lt_of_succ_lt_succ h)

theorem foldNodesWithin_eq {α : Type} (f : α → Node → α) (limit : Nat) (init : α) (p : Parser) :
    foldNodesWithin f limit init p = ((nodesWithin limit p).1.foldl f init, (nodesWithin limit p).2) := by
  induction limit generalizing init p with
  | zero => rfl
  | succ limit ih =>
    unfold foldNodesWithin nodesWithin
    rcases p.nextNode with ⟨_ | n, after⟩
    · rfl
    · exact ih _ _

theorem foldNodes_eq {α : Type} (f : α → Node → α) (init : α) (p : Parser) :
    foldNodes f init p = (p.nodes.1.foldl f init, p.nodes.2) :=
  foldNodesWithin_eq f _ init p

end Parser

theorem Checking.foldl_take (c : Checking) (nodes : List Node) :
    nodes.foldl take c = ⟨c.nodes ++ nodes, nodes.foldl Analyzer.feed c.analyzer⟩ := by
  induction nodes generalizing c with
  | nil => rw [List.append_nil]; rfl
  | cons node nodes ih =>
    rw [List.foldl_cons, ih, List.append_cons]
    rfl

theorem checkScript_eq (source : String) : checkScript source =
    match lex source with
    | .error errors => .lexicalErrors errors
    | .ok tokens =>
      match parse tokens with
      | .error errors => .syntaxErrors errors
      | .ok program => .analyzed program (analyze program) := by
  unfold checkScript
  cases lex source with
  | error errors => rfl
  | ok tokens =>
    have hanalysis := Analyzer.finalize_foldl_feed (Parser.ofTokens tokens).nodes.1
    unfold parse
    dsimp only
    rw [Parser.foldNodes_eq, Checking.foldl_take]
    dsimp only [Checking.start]
    rw [hanalysis]
    split <;> rfl

/-- Nodes that are asked for one by one, by any number of iterators, are those that are read all at once; the
rest of them is still to come, and when nothing is left, the errors are those of reading all at once, and the
result of `parse` is made of both. To check a script while it is read is to go through the stages one after
the other. -/
theorem streamed_agrees_batch :
    (∀ (tokens : List Token) (counts : List Nat),
      let batch := (Parser.ofTokens tokens).nodes
      let pulled := Parser.pullEach counts (Parser.ofTokens tokens)
      let obtained := pulled.1.flatten.reduceOption
      obtained ++ pulled.2.nodes.1 = batch.1 ∧ pulled.2.nodes.2 = batch.2 ∧
        (none ∈ pulled.1.flatten ↔ batch.1.length < counts.sum) ∧
        (none ∈ pulled.1.flatten → obtained = batch.1 ∧ pulled.2.errors = batch.2.errors ∧
          parse tokens = if batch.2.errors = [] then .ok obtained else .error pulled.2.errors)) ∧
      (∀ source : String, checkScript source =
        match lex source with
        | .error errors => .lexicalErrors errors
        | .ok tokens =>
          match parse tokens with
          | .error errors => .syntaxErrors errors
          | .ok program => .analyzed program (analyze program)) ∧
      ∀ program : Program, (program.foldl Analyzer.feed .empty).finalize = analyze program := by
  refine ⟨fun tokens counts => ?_, checkScript_eq, Analyzer.finalize_foldl_feed⟩
  have hpull := Parser.pullEach_eq counts (Parser.ofTokens tokens)
  have hitems := congrArg Prod.fst hpull
  have hlast := congrArg Prod.snd hpull
  dsimp only at hitems hlast ⊢
  rw [hitems, hlast, Parser.reduceOption_pull, (Parser.pull_eq _ _).2, Parser.none_mem_pull]
  refine ⟨List.take_append_drop _ _, rfl, Iff.rfl, fun hlength => ?_⟩
  rw [Parser.pull_exhausted hlength, List.take_of_length_le hlength.le]
  refine ⟨rfl, rfl, ?_⟩
  simp [parse]

end DialogueScript
