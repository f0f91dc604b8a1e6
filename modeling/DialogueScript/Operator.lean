import DialogueScript.Token

namespace DialogueScript

/-- Tiers of operators, loosest first. -/
inductive Precedence where
  | lowest | logicalOr | logicalAnd | relational | additive | multiplicative | unary
deriving DecidableEq, Repr

def Precedence.rank : Precedence → Nat
  | lowest => 0
  | logicalOr => 1
  | logicalAnd => 2
  | relational => 3
  | additive => 4
  | multiplicative => 5
  | unary => 6

inductive BinaryOperator where
  | or | and | equals | notEquals | less | lessEquals | greater | greaterEquals
  | add | subtract | multiply | divide
deriving DecidableEq, Repr

namespace BinaryOperator

def ofToken? : TokenKind → Option BinaryOperator
  | .or => some or
  | .and => some and
  | .equals => some equals
  | .notEquals => some notEquals
  | .less => some less
  | .lessEquals => some lessEquals
  | .greater => some greater
  | .greaterEquals => some greaterEquals
  | .plus => some add
  | .minus => some subtract
  | .star => some multiply
  | .slash => some divide
  | _ => none

def symbol : BinaryOperator → String
  | or => "||"
  | and => "&&"
  | equals => "=="
  | notEquals => "!="
  | less => "<"
  | lessEquals => "<="
  | greater => ">"
  | greaterEquals => ">="
  | add => "+"
  | subtract => "-"
  | multiply => "*"
  | divide => "/"

def precedence : BinaryOperator → Precedence
  | or => .logicalOr
  | and => .logicalAnd
  | equals | notEquals | less | lessEquals | greater | greaterEquals => .relational
  | add | subtract => .additive
  | multiply | divide => .multiplicative

def isArithmetic : BinaryOperator → Bool
  | add | subtract | multiply | divide => true
  | _ => false

def isOrdering : BinaryOperator → Bool
  | less | lessEquals | greater | greaterEquals => true
  | _ => false

def isLogical : BinaryOperator → Bool
  | or | and => true
  | _ => false

end BinaryOperator

inductive UnaryOperator where
  | not | negate
deriving DecidableEq, Repr

namespace UnaryOperator

def ofToken? : TokenKind → Option UnaryOperator
  | .not => some not
  | .minus => some negate
  | _ => none

def symbol : UnaryOperator → String
  | not => "!"
  | negate => "-"

end UnaryOperator

inductive AssignOperator where
  | assign | add | subtract | multiply | divide
deriving DecidableEq, Repr

namespace AssignOperator

def ofToken? : TokenKind → Option AssignOperator
  | .assign => some assign
  | .plusAssign => some add
  | .minusAssign => some subtract
  | .starAssign => some multiply
  | .slashAssign => some divide
  | _ => none

def symbol : AssignOperator → String
  | assign => "="
  | add => "+="
  | subtract => "-="
  | multiply => "*="
  | divide => "/="

/-- The arithmetic that the assignment does on the old value. -/
def binary? : AssignOperator → Option BinaryOperator
  | assign => none
  | add => some .add
  | subtract => some .subtract
  | multiply => some .multiply
  | divide => some .divide

end AssignOperator

end DialogueScript
