import DialogueScript.ParseExpression

namespace DialogueScript.Parse

def assignment : Parse Statement := do
  let sign ← advance
  let name ← expectName "variable name"
  match AssignOperator.ofToken? (← current).kind with
  | none => unexpected "assignment operator" none
  | some operator =>
    let _ ← advance
    let value ← expression .lowest
    let _ ← expect .newline
    return .assign name.value operator value ⟨sign.span.start, value.span.stop⟩

/-- The text of a `say`, made of at most `limit` strings and placeholders, and where it stops;
`stop` is where the part before it stops. -/
def speech (limit : Nat) (stop : Position) : Parse (Speech × Position) :=
  match limit with
  | 0 => return (.ofString "", stop)
  | limit + 1 => do
    match (← current).kind with
    | .string =>
      let token ← advance
      let (rest, stop) ← speech limit token.span.stop
      return (rest.prependText token.value, stop)
    | .placeholderStart =>
      let _ ← advance
      let e ← expression .lowest
      let close ← expect .placeholderEnd
      let (rest, stop) ← speech limit close.span.stop
      return (rest.prependPlaceholder e, stop)
    | _ => return (.ofString "", stop)

def say : Parse Statement := fun s =>
  let p : Parse Statement := do
    let word ← advance
    let (text, stop) ← speech s.tokens.length word.span.stop
    let _ ← expect .newline
    return .say text ⟨word.span.start, stop⟩
  p s

def nodeReference : Parse (String × Span) := do
  let token ← current
  if token.kind = .identifier then
    unexpected "':'" (some ("node references start with ':', e.g. :" ++ token.value))
  else
    let colon ← expect .colon
    let name ← expectName "node name"
    return (name.value, ⟨colon.span.start, name.span.stop⟩)

def choiceHint : Option String := some "separate choice parameters with ','"

def conditionHint : Option String := some "conditions are written as `if: <expression>`"

def condition : Parse (Option Expression) := do
  if (← current).kind = .comma then
    let _ ← advance
    let _ ← expectAs .ifWord "'if'" conditionHint
    let _ ← expectAs .colon "':'" conditionHint
    let e ← expression .lowest
    return some e
  else return none

def choice : Parse Statement := do
  let word ← advance
  let text ← expect .string
  if (← current).kind = .placeholderStart then
    unexpected "','" (some "choice text cannot contain interpolations")
  else
    let _ ← expectAs .comma "','" choiceHint
    let (target, targetSpan) ← nodeReference
    let guard? ← condition
    let _ ← expectAs .newline "end of line" choiceHint
    let stop := (guard?.map (·.span.stop)).getD targetSpan.stop
    return .choice text.value target guard? ⟨word.span.start, stop⟩ text.span targetSpan

def goto : Parse Statement := do
  let word ← advance
  let (target, targetSpan) ← nodeReference
  let _ ← expect .newline
  return .goto target ⟨word.span.start, targetSpan.stop⟩ targetSpan

def startsStatement : TokenKind → Bool
  | .atSign | .sayWord | .choiceWord | .gotoWord => true
  | _ => false

def statement : Parse Statement := do
  let token ← current
  match token.kind with
  | .atSign => assignment
  | .sayWord => say
  | .choiceWord => choice
  | .gotoWord => goto
  | .endWord => unexpected "statement" (some "'end' must line up with the 'node' it closes")
  | .identifier =>
    unexpected "statement" (some ("assignments start with '@', e.g. @" ++ token.value ++ " = 1"))
  | _ => unexpected "statement" none

end DialogueScript.Parse
