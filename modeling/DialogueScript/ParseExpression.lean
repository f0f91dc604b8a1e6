import DialogueScript.Rendering
import DialogueScript.TokenStream

namespace DialogueScript.Parse

/-- A parser for expressions whose operators all bind tighter than a given precedence. -/
abbrev Inner := Precedence → Parse Expression

def literal : Parse Expression := do
  let token ← current
  let value ← match token.kind with
    | .number =>
      match Double.parse? token.value.toList with
      | some number => pure (Literal.number number)
      | none => fail ⟨.malformedNumber token.value, token.span.start⟩
    | .string => pure (Literal.text token.value)
    | .trueWord => pure (Literal.boolean true)
    | .falseWord => pure (Literal.boolean false)
    | _ => unexpected "literal" none
  let _ ← advance
  return .literal value token.span

def variableUse : Parse Expression := do
  let sign ← advance
  let name ← expectName "variable name"
  return .var name.value ⟨sign.span.start, name.span.stop⟩

def arguments (inner : Inner) (limit : Nat) : Parse (List Expression) :=
  match limit with
  | 0 => unexpected "expression" none
  | limit + 1 => do
    let e ← inner .lowest
    if (← current).kind = .comma then
      let _ ← advance
      let rest ← arguments inner limit
      return e :: rest
    else return [e]

/-- A name stands for a function, so its arguments must follow. -/
def functionCall (inner : Inner) (limit : Nat) : Parse Expression := do
  let name ← current
  if (← following).kind = .openParen then
    let _ ← advance
    let _ ← advance
    let args ← if (← current).kind = .closeParen then pure [] else arguments inner limit
    let close ← expect .closeParen
    return .call name.value args ⟨name.span.start, close.span.stop⟩
  else unexpected "expression" (some ("variables are written with '@', e.g. @" ++ name.value))

def unaryOperation (inner : Inner) : Parse Expression := do
  match UnaryOperator.ofToken? (← current).kind with
  | none => unexpected "'!' or '-'" none
  | some operator =>
    let sign ← advance
    let operand ← inner .unary
    return .unary operator operand ⟨sign.span.start, operand.span.stop⟩

/-- An expression in parentheses. They leave no trace in the tree. -/
def parenthesized (inner : Inner) : Parse Expression := do
  let _ ← advance
  let e ← inner .lowest
  let _ ← expect .closeParen
  return e

def binaryOperation (inner : Inner) (left : Expression) (power : Precedence) : Parse Expression := do
  match BinaryOperator.ofToken? (← current).kind with
  | none => unexpected "operator" none
  | some operator =>
    let _ ← advance
    let right ← inner power
    return .binary operator left right ⟨left.span.start, right.span.stop⟩

def startsExpression : TokenKind → Bool
  | .number | .string | .trueWord | .falseWord | .atSign | .identifier | .not | .minus
  | .openParen => true
  | _ => false

def operand (inner : Inner) (limit : Nat) : Parse Expression := do
  match (← current).kind with
  | .number | .string | .trueWord | .falseWord => literal
  | .atSign => variableUse
  | .identifier => functionCall inner limit
  | .not | .minus => unaryOperation inner
  | .openParen => parenthesized inner
  | _ => unexpected "expression" none

/-- Extends `left` by at most `limit` operators that bind tighter than `power`. -/
def extend (inner : Inner) (limit : Nat) (power : Precedence) (left : Expression) : Parse Expression :=
  match limit with
  | 0 => pure left
  | limit + 1 => do
    match BinaryOperator.ofToken? (← current).kind with
    | none => return left
    | some operator =>
      if power.rank < operator.precedence.rank then
        let e ← binaryOperation inner left operator.precedence
        extend inner limit power e
      else return left

/-- An expression nested at most `limit` deep. -/
def expressionWithin (limit : Nat) : Inner := fun power =>
  match limit with
  | 0 => unexpected "expression" none
  | limit + 1 => do
    let left ← operand (expressionWithin limit) limit
    extend (expressionWithin limit) limit power left

/-- The longest expression here whose operators all bind tighter than `power`. -/
def expression (power : Precedence) : Parse Expression := fun s =>
  expressionWithin (s.tokens.length + 1) power s

end DialogueScript.Parse
