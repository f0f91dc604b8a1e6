import Mathlib
import DialogueScript.Proofs.ScanSteps

namespace DialogueScript

theorem takeWhile_levels_ne_nil {levels : List Nat} {width : Nat} (hwidth : ¬ levels.headD 0 < width)
    (hlevel : (levels.dropWhile (width < ·)).headD 0 ≠ width) : levels.takeWhile (width < ·) ≠ [] := by
  cases levels with
  | nil =>
    simp only [List.headD_nil, List.dropWhile_nil] at hwidth hlevel
    omega
  | cons level levels =>
    simp only [List.headD_cons] at hwidth
    by_cases hlt : width < level
    · simp [hlt]
    · simp only [List.dropWhile_cons, hlt, decide_false, Bool.false_eq_true, ↓reduceIte,
        List.headD_cons] at hlevel
      omega

namespace Scanner

theorem Indents.tokens_of_error {s : Scanner} {start : Position} {width : Nat} {step : Step}
    {e : ScriptError} (h : Indents s start width step) (he : step.error = some e) :
    (∀ t ∈ step.tokens, t.kind = .dedent) ∧
      (step.tokens = [] ↔ ∀ level, e.cause ≠ .invalidDedent level) := by
  cases h with
  | refuse hcause =>
    cases he
    refine ⟨List.forall_mem_nil _, iff_of_true rfl fun level => ?_⟩
    rcases hcause with rfl | ⟨_, _, rfl⟩ <;> simp
  | deeper | back => cases he
  | between hwidth hlevel =>
    cases he
    refine ⟨fun t ht => ?_, iff_of_false ?_ fun h => h width rfl⟩
    · obtain ⟨_, _, rfl⟩ := List.mem_map.1 ht
      rfl
    · exact fun hnil => takeWhile_levels_ne_nil hwidth hlevel (List.map_eq_nil_iff.1 hnil)

theorem Move.tokens_of_error {s : Scanner} {step : Step} {e : ScriptError} (h : Move s step)
    (he : step.error = some e) :
    (∀ t ∈ step.tokens, t.kind = .dedent) ∧
      (step.tokens = [] ↔ ∀ level, e.cause ≠ .invalidDedent level) := by
  cases h with
  | margin _ _ _ _ _ _ hstep => exact hstep.tokens_of_error he
  | strange | endInText | endInPlaceholder =>
    cases he
    exact ⟨List.forall_mem_nil _, iff_of_true rfl fun level => by simp⟩
  | _ => cases he

end Scanner

namespace TokenSource

def item? (source : TokenSource) : Nat → Option Item
  | 0 => source.next.1
  | n + 1 => item? source.next.2 n

/-- After an error no call gives anything any more. -/
def Fused (source : TokenSource) : Prop :=
  ∀ m n e, source.item? m = some (.error e) → m < n → source.item? n = none

theorem next_of_none {source after : TokenSource} (h : source.next = (none, after)) :
    after.next = (none, after) := by
  fun_induction next source with
  | case1 => cases h
  | case2 source hpending hdone =>
    obtain rfl := (Prod.mk.inj h).2
    rw [next]
    split
    · simp_all
    · rw [dif_pos hdone]
  | case3 => cases h
  | case4 source hpending hdone step herror ih => exact ih h

theorem item?_of_none {source : TokenSource} (h : source.next = (none, source)) (n : Nat) :
    source.item? n = none := by
  induction n with
  | zero => rw [item?, h]
  | succ n ih => rw [item?, h, ih]

theorem item?_eq_getElem? (source : TokenSource) (n : Nat) : source.item? n = source.drain.1[n]? := by
  fun_induction drain source generalizing n with
  | case1 source after hnext =>
    cases n with
    | zero => rw [item?, hnext, List.getElem?_nil]
    | succ n => rw [item?, hnext, List.getElem?_nil, item?_of_none (next_of_none hnext)]
  | case2 source item after hnext rest ih =>
    cases n with
    | zero => rw [item?, hnext, List.getElem?_cons_zero]
    | succ n => rw [item?, hnext, List.getElem?_cons_succ, ih]

theorem drain_pending (s : Scanner) (pending : List Token) (failed : Bool) :
    (drain ⟨s, pending, failed⟩).1 = pending.map .ok ++ (drain ⟨s, [], failed⟩).1 := by
  induction pending with
  | nil => rfl
  | cons t pending ih => rw [drain_of_next (next_cons ..), ih, List.map_cons, List.cons_append]

theorem drain_failed (s : Scanner) : (drain ⟨s, [], true⟩).1 = [] := by
  have hnext : next ⟨s, [], true⟩ = (none, ⟨s, [], true⟩) := by
    rw [next]
    simp
  exact drain_of_none hnext

/-- Handed out one by one, the tokens are those of a whole run, up to the first error; behind the error
stand the tokens of the step that failed. -/
theorem drain_cases (s : Scanner) :
    (s.run.2 = [] ∧ (drain ⟨s, [], false⟩).1 = s.run.1.map .ok) ∨
      ∃ (s' : Scanner) (e : ScriptError) (errors : List ScriptError) (tokens : List Token),
        s.run.2 = e :: errors ∧ s'.step.error = some e ∧
        (drain ⟨s, [], false⟩).1 = tokens.map .ok ++ .error e :: s'.step.tokens.map .ok := by
  fun_induction Scanner.run s with
  | case1 s hfinished =>
    have hnext : next ⟨s, [], false⟩ = (none, ⟨s, [], false⟩) := by
      rw [next]
      simp [hfinished]
    exact .inl ⟨rfl, drain_of_none hnext⟩
  | case2 s hfinished after ih =>
    have hs : s.finished = false := by simpa using hfinished
    cases he : s.step.error with
    | some e =>
      refine .inr ⟨s, e, after.2, [], rfl, he, ?_⟩
      rw [drain_of_next (next_of_error hs he), drain_pending, drain_failed, List.append_nil]
      rfl
    | none =>
      rw [drain_congr (next_of_silent hs he), drain_pending]
      rcases ih with ⟨hrun, hdrain⟩ | ⟨s', e, errors, tokens, hrun, herror, hdrain⟩
      · exact .inl ⟨hrun, by rw [hdrain, List.map_append]⟩
      · refine .inr ⟨s', e, errors, s.step.tokens ++ tokens, hrun, herror, ?_⟩
        rw [hdrain, List.map_append, List.append_assoc]

theorem fused_iff_of_drain {source : TokenSource} {e : ScriptError} {tokens more : List Token}
    (h : source.drain.1 = tokens.map .ok ++ .error e :: more.map .ok) : source.Fused ↔ more = [] := by
  constructor
  · intro hfused
    have herror : source.item? tokens.length = some (.error e) := by
      simp [item?_eq_getElem?, h]
    have hlast := hfused tokens.length (tokens.length + 1) e herror (Nat.lt_succ_self _)
    simpa [item?_eq_getElem?, h] using hlast
  · rintro rfl m n e' herror hlt
    simp only [item?_eq_getElem?, h] at herror ⊢
    have hm : ¬ m < tokens.length := by
      intro hm
      rw [List.getElem?_append_left (by simpa using hm)] at herror
      simp [hm] at herror
    rw [List.getElem?_eq_none]
    simp
    omega

/-- A text is handed out with nothing behind an error, unless its first lexical error is a line that
lies between two open levels. -/
theorem fused_iff_no_invalidDedent (source : String) :
    (ofText source).Fused ↔ ∀ e, tokenize source = .error e → ∀ level, e.cause ≠ .invalidDedent level := by
  have htokenize : tokenize source = _ := mapM_drain (.ofText source)
  rcases drain_cases (.ofText source) with ⟨hrun, hdrain⟩ | ⟨s, e, errors, tokens, hrun, herror, hdrain⟩
  · have hitem : ∀ n e, (ofText source).item? n ≠ some (.error e) := by
      intro n e
      have hdrain : (ofText source).drain.1 = _ := hdrain
      simp [item?_eq_getElem?, hdrain]
    exact iff_of_true (fun m _ e he => absurd he (hitem m e)) fun e he => by simp [htokenize, hrun] at he
  · have hfused : (ofText source).Fused ↔ s.step.tokens = [] := fused_iff_of_drain hdrain
    rw [hfused, ((Scanner.move_step s).tokens_of_error herror).2, htokenize, hrun]
    simp

/-- A line that goes back to less than the level before it, but to none that is open. -/
def looseLine : String := "  a\n b"

/-- The end of the block comes out behind the error of the line that ends it. -/
theorem not_fused_looseLine : ¬ (ofText looseLine).Fused := by
  intro h
  have herror : (ofText looseLine).item? 3 = some (.error ⟨.invalidDedent 1, ⟨2, 1⟩⟩) := by cbv
  have hdedent : (ofText looseLine).item? 4 = some (.ok ⟨.dedent, "", .point ⟨2, 2⟩⟩) := by cbv
  rw [h 3 4 _ herror (by decide)] at hdedent
  cases hdedent

end TokenSource

/-- A text handed out token by token gives the tokens of the whole scan if there is no lexical error, and
otherwise the first error of the whole scan. -/
theorem tokenize_agrees_lex (source : String) :
    (∀ tokens, tokenize source = .ok tokens ↔ lex source = .ok tokens) ∧
      ∀ e, tokenize source = .error e ↔ ∃ errors, lex source = .error (e :: errors) := by
  refine ⟨fun tokens => tokenize_eq_ok_iff_lex, fun e => ?_⟩
  have htokenize : tokenize source = _ := TokenSource.mapM_drain (.ofText source)
  rw [htokenize]
  unfold lex
  rcases (Scanner.ofText source).run with ⟨tokens, errors⟩
  cases errors <;> simp

end DialogueScript
