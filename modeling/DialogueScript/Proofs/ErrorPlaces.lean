import DialogueScript.Proofs.NodeLoop

namespace DialogueScript

open TokenStream

/-- An error against the grammar, at a place of the given sort. -/
structure ScriptError.Placed (marks : Position → Prop) (e : ScriptError) : Prop where
  place : marks e.position
  syntactic : e.isLexical = false

/-- What the cause of an error against the grammar says of the token that is wrong. -/
def ErrorCause.TellsOf : ErrorCause → Token → Prop
  | unexpectedToken _ found _, t => found = t.describe
  | malformedNumber text, t => t.kind = .number ∧ text = t.value
  | unexpectedIndentation, t => t.kind = .indent
  | unexpectedCharacter _, _ | mixedIndentation, _ | inconsistentIndentation .., _ | invalidDedent _, _
  | unterminatedString, _ | unterminatedPlaceholder, _ => False

/-- The error is told of the token: it is where the token starts, and what it says of the token is so. -/
structure ScriptError.Blames (e : ScriptError) (t : Token) : Prop where
  position : e.position = t.span.start
  cause : e.cause.TellsOf t

theorem ScriptError.Blames.syntactic {e : ScriptError} {t : Token} (h : e.Blames t) : e.isLexical = false := by
  obtain ⟨cause, position⟩ := e
  have hcause := h.cause
  cases cause <;> first | rfl | cases hcause

namespace Parse

variable {α β : Type}

/-- A failure is told of the token at which the parser stops. -/
def Blames (p : Parse α) : Prop := ∀ s e rest, p s = (.error e, rest) → e.Blames rest.current

theorem blames_of_ok {p : Parse α} (h : ∀ s, ∃ a rest, p s = (.ok a, rest)) : Blames p := by
  intro s e rest hread
  obtain ⟨a, rest', hok⟩ := h s
  rw [hok] at hread
  cases hread

theorem blames_pure (a : α) : Blames (pure a : Parse α) := blames_of_ok fun _ => ⟨_, _, rfl⟩

theorem blames_current : Blames current := blames_of_ok fun _ => ⟨_, _, rfl⟩

theorem blames_following : Blames following := blames_of_ok fun _ => ⟨_, _, rfl⟩

theorem blames_advance : Blames advance := blames_of_ok fun _ => ⟨_, _, rfl⟩

theorem blames_unexpected (what : String) (hint : Option String) : Blames (unexpected what hint : Parse α) := by
  intro s e rest hread
  cases hread
  exact ⟨rfl, rfl⟩

theorem blames_bind {p : Parse α} {f : α → Parse β} (hp : Blames p) (hf : ∀ a, Blames (f a)) :
    Blames (p >>= f) := by
  intro s e rest hread
  rcases hfirst : p s with ⟨e' | a, mid⟩
  · rw [bind_of_error hfirst] at hread
    cases hread
    exact hp _ _ _ hfirst
  · rw [bind_of_ok hfirst] at hread
    exact hf _ _ _ _ hread

theorem blames_expectAs (kind : TokenKind) (what : String) (hint : Option String) :
    Blames (expectAs kind what hint) := by
  intro s e rest hread
  unfold expectAs at hread
  split at hread <;> cases hread
  exact ⟨rfl, rfl⟩

theorem blames_expect (kind : TokenKind) : Blames (expect kind) := blames_expectAs _ _ _

theorem blames_expectName (what : String) : Blames (expectName what) := by
  refine blames_bind blames_current fun token => ?_
  split
  · exact blames_unexpected _ _
  · exact blames_expectAs _ _ _

theorem fail_bind_apply (e : ScriptError) (f : α → Parse β) (s : TokenStream) :
    (fail e >>= f) s = (.error e, s) := rfl

theorem blames_literal : Blames literal := by
  have hvalue : ∀ (value : Literal) (token : Token), Blames (pure value >>= fun value =>
      advance >>= fun _ => pure (Expression.literal value token.span)) :=
    fun _ _ => blames_bind (blames_pure _) fun _ => blames_bind blames_advance fun _ => blames_pure _
  intro s e rest hread
  unfold literal at hread
  rw [current_bind_apply] at hread
  obtain ⟨q, hq, hread⟩ := exists_applied hread
  dsimp only at hq
  split at hq
  case h_1 hkind =>
    split at hq <;> subst hq
    · exact hvalue _ _ _ _ _ hread
    · rw [fail_bind_apply] at hread
      cases hread
      exact ⟨rfl, hkind, rfl⟩
  case h_2 | h_3 | h_4 =>
    subst hq
    exact hvalue _ _ _ _ _ hread
  case h_5 =>
    subst hq
    exact blames_bind (blames_unexpected _ _) (fun _ => hvalue _ _) _ _ _ hread

theorem blames_variableUse : Blames variableUse :=
  blames_bind blames_advance fun _ => blames_bind (blames_expectName _) fun _ => blames_pure _

variable {inner : Inner} (hinner : ∀ power, Blames (inner power))

include hinner

theorem blames_arguments (limit : Nat) : Blames (arguments inner limit) := by
  induction limit with
  | zero => exact blames_unexpected _ _
  | succ limit ih =>
    refine blames_bind (hinner _) fun e => blames_bind blames_current fun token => ?_
    split
    · exact blames_bind blames_advance fun _ => blames_bind ih fun _ => blames_pure _
    · exact blames_pure _

theorem blames_functionCall (limit : Nat) : Blames (functionCall inner limit) := by
  have hclose : ∀ (name : Token) (args : List Expression), Blames (expect .closeParen >>= fun close =>
      pure (Expression.call name.value args ⟨name.span.start, close.span.stop⟩)) :=
    fun _ _ => blames_bind (blames_expect _) fun _ => blames_pure _
  refine blames_bind blames_current fun name => blames_bind blames_following fun token => ?_
  split
  · refine blames_bind blames_advance fun _ => blames_bind blames_advance fun _ =>
      blames_bind blames_current fun token => ?_
    dsimp only
    split
    · exact blames_bind (blames_pure _) fun _ => hclose _ _
    · exact blames_bind (blames_arguments hinner limit) fun _ => hclose _ _
  · exact blames_unexpected _ _

theorem blames_unaryOperation : Blames (unaryOperation inner) := by
  refine blames_bind blames_current fun token => ?_
  split
  · exact blames_unexpected _ _
  · exact blames_bind blames_advance fun _ => blames_bind (hinner _) fun _ => blames_pure _

theorem blames_parenthesized : Blames (parenthesized inner) :=
  blames_bind blames_advance fun _ => blames_bind (hinner _) fun _ =>
    blames_bind (blames_expect _) fun _ => blames_pure _

theorem blames_binaryOperation (left : Expression) (power : Precedence) :
    Blames (binaryOperation inner left power) := by
  refine blames_bind blames_current fun token => ?_
  split
  · exact blames_unexpected _ _
  · exact blames_bind blames_advance fun _ => blames_bind (hinner _) fun _ => blames_pure _

theorem blames_operand (limit : Nat) : Blames (operand inner limit) := by
  refine blames_bind blames_current fun token => ?_
  split
  case h_1 | h_2 | h_3 | h_4 => exact blames_literal
  case h_5 => exact blames_variableUse
  case h_6 => exact blames_functionCall hinner limit
  case h_7 | h_8 => exact blames_unaryOperation hinner
  case h_9 => exact blames_parenthesized hinner
  case h_10 => exact blames_unexpected _ _

theorem blames_extend (limit : Nat) (power : Precedence) (left : Expression) :
    Blames (extend inner limit power left) := by
  induction limit generalizing left with
  | zero => exact blames_pure _
  | succ limit ih =>
    refine blames_bind blames_current fun token => ?_
    split
    · exact blames_pure _
    · split
      · exact blames_bind (blames_binaryOperation hinner _ _) fun e => ih e
      · exact blames_pure _

omit hinner

theorem blames_expressionWithin (limit : Nat) (power : Precedence) : Blames (expressionWithin limit power) := by
  induction limit generalizing power with
  | zero => exact blames_unexpected _ _
  | succ limit ih => exact blames_bind (blames_operand ih limit) fun left => blames_extend ih limit power left

theorem blames_expression (power : Precedence) : Blames (expression power) :=
  fun s => blames_expressionWithin _ power s

theorem blames_assignment : Blames assignment := by
  refine blames_bind blames_advance fun sign => blames_bind (blames_expectName _) fun name =>
    blames_bind blames_current fun token => ?_
  split
  · exact blames_unexpected _ _
  · exact blames_bind blames_advance fun _ => blames_bind (blames_expression _) fun _ =>
      blames_bind (blames_expect _) fun _ => blames_pure _

theorem blames_speech (limit : Nat) (stop : Position) : Blames (speech limit stop) := by
  induction limit generalizing stop with
  | zero => exact blames_pure _
  | succ limit ih =>
    refine blames_bind blames_current fun token => ?_
    split
    · exact blames_bind blames_advance fun _ => blames_bind (ih _) fun _ => blames_pure _
    · exact blames_bind blames_advance fun _ => blames_bind (blames_expression _) fun _ =>
        blames_bind (blames_expect _) fun _ => blames_bind (ih _) fun _ => blames_pure _
    · exact blames_pure _

theorem blames_say : Blames say := fun s =>
  blames_bind blames_advance (fun _ => blames_bind (blames_speech _ _) fun _ =>
    blames_bind (blames_expect _) fun _ => blames_pure _) s

theorem blames_nodeReference : Blames nodeReference := by
  refine blames_bind blames_current fun token => ?_
  split
  · exact blames_unexpected _ _
  · exact blames_bind (blames_expect _) fun _ => blames_bind (blames_expectName _) fun _ => blames_pure _

theorem blames_condition : Blames condition := by
  refine blames_bind blames_current fun token => ?_
  split
  · exact blames_bind blames_advance fun _ => blames_bind (blames_expectAs _ _ _) fun _ =>
      blames_bind (blames_expectAs _ _ _) fun _ => blames_bind (blames_expression _) fun _ => blames_pure _
  · exact blames_pure _

theorem blames_choice : Blames choice := by
  refine blames_bind blames_advance fun word => blames_bind (blames_expect _) fun text =>
    blames_bind blames_current fun token => ?_
  split
  · exact blames_unexpected _ _
  · exact blames_bind (blames_expectAs _ _ _) fun _ => blames_bind blames_nodeReference fun _ =>
      blames_bind blames_condition fun _ => blames_bind (blames_expectAs _ _ _) fun _ => blames_pure _

theorem blames_goto : Blames goto :=
  blames_bind blames_advance fun _ => blames_bind blames_nodeReference fun _ =>
    blames_bind (blames_expect _) fun _ => blames_pure _

theorem blames_statement : Blames statement := by
  refine blames_bind blames_current fun token => ?_
  split
  case h_1 => exact blames_assignment
  case h_2 => exact blames_say
  case h_3 => exact blames_choice
  case h_4 => exact blames_goto
  case h_5 | h_6 | h_7 => exact blames_unexpected _ _

theorem blames_node : Blames node := by
  have hheader : Blames nodeHeader :=
    blames_bind (blames_expectAs _ _ _) fun _ => blames_bind (blames_expectName _) fun _ =>
      blames_bind (blames_expect _) fun _ => blames_pure _
  have hblock : Blames nodeBlock := blames_of_ok fun s => by
    unfold nodeBlock
    split <;> exact ⟨_, _, rfl⟩
  have hend : ∀ id, Blames (nodeFooter id false) := fun id =>
    blames_bind (blames_expectAs _ _ _) fun _ => blames_pure _
  have hfooter : ∀ id hasBlock, Blames (nodeFooter id hasBlock) := by
    intro id hasBlock
    cases hasBlock with
    | false => exact hend id
    | true => exact blames_bind (blames_expect .dedent) fun _ => hend id
  exact blames_bind hheader fun _ => blames_bind hblock fun _ => blames_bind (hfooter _ _) fun _ =>
    blames_pure _

end Parse

namespace TokenStream

structure Starts (marks : Position → Prop) (s : TokenStream) : Prop where
  token : ∀ t ∈ s.tokens, marks t.span.start
  finish : marks s.finish

variable {marks : Position → Prop} {s rest : TokenStream}

theorem Starts.leftOf (h : s.Starts marks) (hrest : rest.LeftOf s) : rest.Starts marks :=
  ⟨fun t ht => h.token t (hrest.suffix.mem ht), hrest.finish_eq ▸ h.finish⟩

theorem Starts.current (h : s.Starts marks) : marks s.current.span.start := by
  obtain ⟨ts, finish⟩ := s
  cases ts with
  | nil => exact h.finish
  | cons t ts => exact h.token t List.mem_cons_self

end TokenStream

variable {marks : Position → Prop}

namespace Parser

variable {p after : Parser} {e : ScriptError}

end Parser

end DialogueScript
