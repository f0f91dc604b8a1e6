import DialogueScript.Operator

namespace DialogueScript

/-- `any` is the type of a value that is not known, and goes with every other type. -/
inductive ValueType where
  | number | text | boolean | any
deriving DecidableEq, Repr

def ValueType.name : ValueType → String
  | number => "number"
  | text => "string"
  | boolean => "boolean"
  | any => "any"

namespace BinaryOperator

/-- The type that both operands must have. Equality is defined on all values. -/
def operandType? (operator : BinaryOperator) : Option ValueType :=
  if operator.isArithmetic || operator.isOrdering then some .number
  else if operator.isLogical then some .boolean
  else none

def resultType (operator : BinaryOperator) : ValueType :=
  if operator.isArithmetic then .number else .boolean

end BinaryOperator

def UnaryOperator.resultType : UnaryOperator → ValueType
  | not => .boolean
  | negate => .number

structure Builtin where
  name : String
  arity : Nat
  returns : ValueType
deriving DecidableEq, Repr

namespace Builtin

def random : Builtin := ⟨"random", 2, .number⟩

def all : List Builtin := [random]

def find? (name : String) : Option Builtin := all.find? (·.name = name)

end Builtin

end DialogueScript
