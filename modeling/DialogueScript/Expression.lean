import DialogueScript.Decimal
import DialogueScript.Operator

namespace DialogueScript

inductive Literal where
  | number (value : Double)
  | text (value : String)
  | boolean (value : Bool)
deriving DecidableEq

inductive Expression where
  | literal (value : Literal) (span : Span)
  | var (name : String) (span : Span)
  | binary (operator : BinaryOperator) (left right : Expression) (span : Span)
  | unary (operator : UnaryOperator) (operand : Expression) (span : Span)
  | call (name : String) (arguments : List Expression) (span : Span)

namespace Expression

def span : Expression → Span
  | literal _ span | var _ span | binary _ _ _ span | unary _ _ span | call _ _ span => span

mutual

def decEq : (a b : Expression) → Decidable (a = b)
  | literal v s, b => match b with
    | literal v' s' => decidable_of_iff (v = v' ∧ s = s') (by simp)
    | var .. | binary .. | unary .. | call .. => isFalse nofun
  | var n s, b => match b with
    | var n' s' => decidable_of_iff (n = n' ∧ s = s') (by simp)
    | literal .. | binary .. | unary .. | call .. => isFalse nofun
  | binary o l r s, b => match b with
    | binary o' l' r' s' =>
      have := decEq l l'
      have := decEq r r'
      decidable_of_iff (o = o' ∧ l = l' ∧ r = r' ∧ s = s') (by simp)
    | literal .. | var .. | unary .. | call .. => isFalse nofun
  | unary o e s, b => match b with
    | unary o' e' s' =>
      have := decEq e e'
      decidable_of_iff (o = o' ∧ e = e' ∧ s = s') (by simp)
    | literal .. | var .. | binary .. | call .. => isFalse nofun
  | call n as s, b => match b with
    | call n' as' s' =>
      have := decEqAll as as'
      decidable_of_iff (n = n' ∧ as = as' ∧ s = s') (by simp)
    | literal .. | var .. | binary .. | unary .. => isFalse nofun

def decEqAll : (as bs : List Expression) → Decidable (as = bs)
  | [], bs => match bs with
    | [] => isTrue rfl
    | _ :: _ => isFalse nofun
  | a :: as, bs => match bs with
    | [] => isFalse nofun
    | b :: bs =>
      have := decEq a b
      have := decEqAll as bs
      decidable_of_iff (a = b ∧ as = bs) (by simp)

end

instance : DecidableEq Expression := decEq

mutual

/-- The expression and every part of it, a whole before its parts, parts in the order written. -/
def parts : Expression → List Expression
  | e@(literal ..) | e@(var ..) => [e]
  | e@(binary _ left right _) => e :: (left.parts ++ right.parts)
  | e@(unary _ operand _) => e :: operand.parts
  | e@(call _ arguments _) => e :: partsOfAll arguments

def partsOfAll : List Expression → List Expression
  | [] => []
  | e :: rest => e.parts ++ partsOfAll rest

end

structure Variable where
  name : String
  span : Span
deriving DecidableEq, Repr

structure Call where
  name : String
  arguments : List Expression
  span : Span
deriving DecidableEq

def variableUse? : Expression → Option Variable
  | var name span => some ⟨name, span⟩
  | _ => none

def functionCall? : Expression → Option Call
  | call name arguments span => some ⟨name, arguments, span⟩
  | _ => none

def reads (e : Expression) : List Variable := e.parts.filterMap variableUse?

/-- Every call in the expression, an outer one before those in its arguments. -/
def calls (e : Expression) : List Call := e.parts.filterMap functionCall?

end Expression

end DialogueScript
