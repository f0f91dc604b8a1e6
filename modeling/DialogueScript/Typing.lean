import DialogueScript.Finding

namespace DialogueScript

/-- The types of the variables, the one assigned last in front. -/
abbrev TypeEnvironment := List (String × ValueType)

/-- The type of an expression and the mismatches in it, an inner one before those around it. -/
structure Inference where
  type : ValueType
  mismatches : List Finding
deriving DecidableEq

/-- Why the operator does not fit its operands. A type that is not known fits always. -/
def BinaryOperator.mismatch? (operator : BinaryOperator) (left right : ValueType) :
    Option FindingCause :=
  match operator.operandType? with
  | none => none
  | some required =>
    if left = .any ∨ right = .any ∨ left = required ∧ right = required then none
    else some (.typeMismatch operator required left right)

def Literal.type : Literal → ValueType
  | number _ => .number
  | text _ => .text
  | boolean _ => .boolean

namespace TypeEnvironment

def typeOf (env : TypeEnvironment) (name : String) : ValueType := (env.lookup name).getD .any

mutual

def infer (env : TypeEnvironment) : Expression → Inference
  | .literal value _ => ⟨value.type, []⟩
  | .var name _ => ⟨env.typeOf name, []⟩
  | .call name arguments _ =>
    ⟨((Builtin.find? name).map Builtin.returns).getD .any, inferAll env arguments⟩
  | .unary operator operand _ => ⟨operator.resultType, (infer env operand).mismatches⟩
  | .binary operator left right span =>
    let l := infer env left
    let r := infer env right
    match operator.mismatch? l.type r.type with
    | none => ⟨operator.resultType, l.mismatches ++ r.mismatches⟩
    | some cause => ⟨.any, l.mismatches ++ r.mismatches ++ [.spanning cause span]⟩

def inferAll (env : TypeEnvironment) : List Expression → List Finding
  | [] => []
  | e :: rest => (infer env e).mismatches ++ inferAll env rest

end

theorem type_binary (env : TypeEnvironment) (operator : BinaryOperator) (left right : Expression) (span : Span) :
    (env.infer (.binary operator left right span)).type =
      if (operator.mismatch? (env.infer left).type (env.infer right).type).isSome then .any
      else operator.resultType := by
  rw [infer]
  cases operator.mismatch? (env.infer left).type (env.infer right).type <;> rfl

/-- The mismatches in an operation are those in its operands, and behind them its own. -/
theorem mismatches_binary (env : TypeEnvironment) (operator : BinaryOperator) (left right : Expression)
    (span : Span) : (env.infer (.binary operator left right span)).mismatches =
      (env.infer left).mismatches ++ (env.infer right).mismatches ++
        (operator.mismatch? (env.infer left).type (env.infer right).type).toList.map (.spanning · span) := by
  rw [infer]
  cases operator.mismatch? (env.infer left).type (env.infer right).type with
  | none => exact (List.append_nil _).symm
  | some cause => rfl

def assign (env : TypeEnvironment) (name : String) (value : Expression) : TypeEnvironment :=
  (name, (env.infer value).type) :: env

def ofAssignments (assignments : List (String × Expression)) : TypeEnvironment :=
  assignments.foldl (fun env a => env.assign a.1 a.2) []

end TypeEnvironment

end DialogueScript
