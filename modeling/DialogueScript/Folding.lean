import DialogueScript.Blank
import DialogueScript.Expression

namespace DialogueScript

/-- A number that fits in 64 bits, in hexadecimal digits; a plus sign may stand in front of them. -/
def hexadecimal? (text : List Char) : Option Nat :=
  let digits := match text with
    | '+' :: rest => rest
    | text => text
  let digit? := fun (c : Char) =>
    if c.isDigit then some (c.toNat - '0'.toNat)
    else if 'a' ≤ c ∧ c ≤ 'f' then some (c.toNat - 'a'.toNat + 10)
    else if 'A' ≤ c ∧ c ≤ 'F' then some (c.toNat - 'A'.toNat + 10)
    else none
  match digits.mapM digit? with
  | none | some [] => none
  | some values =>
    let n := values.foldl (fun n v => 16 * n + v) 0
    if n < 2 ^ 64 then some n else none

/-- A text as a number: nothing but blanks is zero, and what cannot be read is not a number. -/
def numberOfText (text : List Char) : Double :=
  let name := String.ofList (Blank.trim text)
  if name = "" then .zero
  else if name = "Infinity" ∨ name = "+Infinity" then .infinity false
  else if name = "-Infinity" then .infinity true
  else
    match Blank.trim text with
    | '0' :: 'x' :: digits | '0' :: 'X' :: digits => ((hexadecimal? digits).map Double.ofNat).getD .nan
    | body =>
      if body.any fun c => c.isAlpha && c ≠ 'e' && c ≠ 'E' then .nan
      else (Double.parse? body).getD .nan

namespace Literal

def isTruthy : Literal → Bool
  | number value => value.isTruthy
  | text value => !value.isEmpty
  | boolean value => value

def toNumber : Literal → Double
  | number value => value
  | text value => numberOfText value.toList
  | boolean value => if value then .one else .zero

/-- Two texts or two booleans are equal if they are the same; all else is compared as numbers. -/
def looselyEquals : Literal → Literal → Bool
  | text a, text b => a = b
  | boolean a, boolean b => a = b
  | a, b => a.toNumber.equals b.toNumber

/-- Two texts are in the order of their characters; all else is compared as numbers. -/
def compare? : Literal → Literal → Option Ordering
  | text a, text b => some (compare a b)
  | a, b => a.toNumber.compare? b.toNumber

end Literal

def BinaryOperator.apply? (operator : BinaryOperator) (left right : Literal) : Option Literal :=
  match operator with
  | and => some (if left.isTruthy then right else left)
  | or => some (if left.isTruthy then left else right)
  | equals => some (.boolean (left.looselyEquals right))
  | notEquals => some (.boolean (!left.looselyEquals right))
  | less => some (.boolean (left.compare? right = some .lt))
  | lessEquals => some (.boolean (left.compare? right = some .lt ∨ left.compare? right = some .eq))
  | greater => some (.boolean (left.compare? right = some .gt))
  | greaterEquals => some (.boolean (left.compare? right = some .gt ∨ left.compare? right = some .eq))
  | add | subtract | multiply | divide => none

def UnaryOperator.apply? (operator : UnaryOperator) (operand : Literal) : Option Literal :=
  match operator with
  | not => some (.boolean !operand.isTruthy)
  | negate => none

namespace Expression

/-- The value of an expression of literals, comparisons and connectives. -/
def fold : Expression → Option Literal
  | literal value _ => some value
  | unary operator operand _ => operand.fold.bind operator.apply?
  | binary operator left right _ =>
    left.fold.bind fun l => right.fold.bind fun r => operator.apply? l r
  | var .. | call .. => none

/-- Whether the value is known to be false itself, not just a value that counts as false. -/
def isAlwaysFalse (e : Expression) : Bool := e.fold = some (.boolean false)

end Expression

end DialogueScript
