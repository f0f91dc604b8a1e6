import DialogueScript.Program

namespace DialogueScript.Grammar

inductive Tier where
  | disjunction | conjunction | comparison | sum | product | unary | primary
deriving DecidableEq, Repr

namespace Tier

def next : Tier → Tier
  | disjunction => conjunction
  | conjunction => comparison
  | comparison => sum
  | sum => product
  | product => unary
  | unary | primary => primary

def operators : Tier → List (TokenKind × BinaryOperator)
  | disjunction => [(.or, .or)]
  | conjunction => [(.and, .and)]
  | comparison =>
    [(.equals, .equals), (.notEquals, .notEquals), (.less, .less), (.lessEquals, .lessEquals),
      (.greater, .greater), (.greaterEquals, .greaterEquals)]
  | sum => [(.plus, .add), (.minus, .subtract)]
  | product => [(.star, .multiply), (.slash, .divide)]
  | unary | primary => []

def operator? (tier : Tier) (kind : TokenKind) : Option BinaryOperator := tier.operators.lookup kind

end Tier

def signs : List (TokenKind × UnaryOperator) := [(.not, .not), (.minus, .negate)]

def assignments : List (TokenKind × AssignOperator) :=
  [(.assign, .assign), (.plusAssign, .add), (.minusAssign, .subtract), (.starAssign, .multiply),
    (.slashAssign, .divide)]

/-- What can be derived within a line: an expression of a tier, or the arguments of a call. -/
inductive Phrase where
  | expression (tier : Tier) (e : Expression)
  | arguments (es : List Expression)

def Phrase.parts : Phrase → List Expression
  | expression _ e => e.parts
  | arguments es => Expression.partsOfAll es

inductive Derives : Phrase → List Token → List Token → Prop
  | number {t x ts} (hkind : t.kind = .number) (hx : Double.parse? t.value.toList = some x) :
    Derives (.expression .primary (.literal (.number x) t.span)) (t :: ts) ts
  | text {t ts} (hkind : t.kind = .string) :
    Derives (.expression .primary (.literal (.text t.value) t.span)) (t :: ts) ts
  | yes {t ts} (hkind : t.kind = .trueWord) :
    Derives (.expression .primary (.literal (.boolean true) t.span)) (t :: ts) ts
  | no {t ts} (hkind : t.kind = .falseWord) :
    Derives (.expression .primary (.literal (.boolean false) t.span)) (t :: ts) ts
  | variable {sign name ts} (hsign : sign.kind = .atSign) (hname : name.kind = .identifier) :
    Derives (.expression .primary (.var name.value ⟨sign.span.start, name.span.stop⟩))
      (sign :: name :: ts) ts
  | emptyCall {name opening close ts} (hname : name.kind = .identifier)
    (hopening : opening.kind = .openParen) (hclose : close.kind = .closeParen) :
    Derives (.expression .primary (.call name.value [] ⟨name.span.start, close.span.stop⟩))
      (name :: opening :: close :: ts) ts
  | call {name opening close args ts rest} (hname : name.kind = .identifier)
    (hopening : opening.kind = .openParen) (hclose : close.kind = .closeParen)
    (hargs : Derives (.arguments args) ts (close :: rest)) :
    Derives (.expression .primary (.call name.value args ⟨name.span.start, close.span.stop⟩))
      (name :: opening :: ts) rest
  | parenthesized {opening close e ts rest} (hopening : opening.kind = .openParen)
    (hclose : close.kind = .closeParen)
    (he : Derives (.expression .disjunction e) ts (close :: rest)) :
    Derives (.expression .primary e) (opening :: ts) rest
  | unary {sign operator e ts rest} (hsign : signs.lookup sign.kind = some operator)
    (he : Derives (.expression .unary e) ts rest) :
    Derives (.expression .unary (.unary operator e ⟨sign.span.start, e.span.stop⟩))
      (sign :: ts) rest
  | binary {tier sign operator left right ts mid rest}
    (hsign : tier.operator? sign.kind = some operator)
    (hleft : Derives (.expression tier left) ts (sign :: mid))
    (hright : Derives (.expression tier.next right) mid rest) :
    Derives (.expression tier (.binary operator left right ⟨left.span.start, right.span.stop⟩))
      ts rest
  | operand {tier e ts rest} (hne : tier ≠ .primary)
    (he : Derives (.expression tier.next e) ts rest) : Derives (.expression tier e) ts rest
  | lastArgument {e ts rest} (he : Derives (.expression .disjunction e) ts rest) :
    Derives (.arguments [e]) ts rest
  | argument {e es comma ts mid rest} (hcomma : comma.kind = .comma)
    (he : Derives (.expression .disjunction e) ts (comma :: mid))
    (hes : Derives (.arguments es) mid rest) : Derives (.arguments (e :: es)) ts rest

/-- The strings and placeholders of a `say`; `stop` is where the part before them stops, `stop'`
where the last of them does. -/
inductive Parts : (stop : Position) → Speech → (stop' : Position) → List Token → List Token → Prop
  | nil {stop ts} : Parts stop (.ofString "") stop ts ts
  | text {stop stop' t speech ts rest} (hkind : t.kind = .string)
    (hspeech : Parts t.span.stop speech stop' ts rest) :
    Parts stop (speech.prependText t.value) stop' (t :: ts) rest
  | placeholder {stop stop' opening close e speech ts mid rest}
    (hopening : opening.kind = .placeholderStart) (hclose : close.kind = .placeholderEnd)
    (he : Derives (.expression .disjunction e) ts (close :: mid))
    (hspeech : Parts close.span.stop speech stop' mid rest) :
    Parts stop (speech.prependPlaceholder e) stop' (opening :: ts) rest

inductive Guard : Option Expression → List Token → List Token → Prop
  | absent {ts} : Guard none ts ts
  | present {comma word colon e ts rest} (hcomma : comma.kind = .comma) (hword : word.kind = .ifWord)
    (hcolon : colon.kind = .colon) (he : Derives (.expression .disjunction e) ts rest) :
    Guard (some e) (comma :: word :: colon :: ts) rest

/-- A statement with the end of its line. -/
inductive Line : Statement → List Token → List Token → Prop
  | assign {sign name mark operator value lineEnd ts rest} (hsign : sign.kind = .atSign)
    (hname : name.kind = .identifier) (hmark : assignments.lookup mark.kind = some operator)
    (hend : lineEnd.kind = .newline)
    (hvalue : Derives (.expression .disjunction value) ts (lineEnd :: rest)) :
    Line (.assign name.value operator value ⟨sign.span.start, value.span.stop⟩)
      (sign :: name :: mark :: ts) rest
  | say {word speech stop lineEnd ts rest} (hword : word.kind = .sayWord)
    (hend : lineEnd.kind = .newline)
    (hspeech : Parts word.span.stop speech stop ts (lineEnd :: rest)) :
    Line (.say speech ⟨word.span.start, stop⟩) (word :: ts) rest
  | choice {word text comma colon name guard? lineEnd ts rest} (hword : word.kind = .choiceWord)
    (htext : text.kind = .string) (hcomma : comma.kind = .comma) (hcolon : colon.kind = .colon)
    (hname : name.kind = .identifier) (hend : lineEnd.kind = .newline)
    (hguard : Guard guard? ts (lineEnd :: rest)) :
    Line (.choice text.value name.value guard?
        ⟨word.span.start, (guard?.map (·.span.stop)).getD name.span.stop⟩ text.span
        ⟨colon.span.start, name.span.stop⟩)
      (word :: text :: comma :: colon :: name :: ts) rest
  | goto {word colon name lineEnd rest} (hword : word.kind = .gotoWord)
    (hcolon : colon.kind = .colon) (hname : name.kind = .identifier)
    (hend : lineEnd.kind = .newline) :
    Line (.goto name.value ⟨word.span.start, name.span.stop⟩ ⟨colon.span.start, name.span.stop⟩)
      (word :: colon :: name :: lineEnd :: rest) rest

/-- Statements, with empty lines anywhere among them. -/
inductive Body : List Statement → List Token → List Token → Prop
  | nil {ts} : Body [] ts ts
  | newline {lineEnd ss ts rest} (hend : lineEnd.kind = .newline) (hbody : Body ss ts rest) :
    Body ss (lineEnd :: ts) rest
  | line {s ss ts mid rest} (hline : Line s ts mid) (hbody : Body ss mid rest) :
    Body (s :: ss) ts rest

inductive Indented : List Statement → List Token → List Token → Prop
  | absent {ts} : Indented [] ts ts
  | present {indent dedent ss ts rest} (hindent : indent.kind = .indent)
    (hdedent : dedent.kind = .dedent) (hbody : Body ss ts (dedent :: rest)) :
    Indented ss (indent :: ts) rest

inductive NodeText : Node → List Token → List Token → Prop
  | node {word name lineEnd final ss ts rest} (hword : word.kind = .nodeWord)
    (hname : name.kind = .identifier) (hend : lineEnd.kind = .newline)
    (hfinal : final.kind = .endWord) (hblock : Indented ss ts (final :: rest)) :
    NodeText ⟨name.value, ss, ⟨word.span.start, final.span.stop⟩⟩ (word :: name :: lineEnd :: ts)
      rest

/-- A whole script: nodes with empty lines anywhere among them, up to the end of the file. -/
inductive Script : Program → List Token → Prop
  | done {t} (hkind : t.kind = .endOfFile) : Script [] [t]
  | newline {lineEnd program ts} (hend : lineEnd.kind = .newline) (hscript : Script program ts) :
    Script program (lineEnd :: ts)
  | node {node program ts mid} (hnode : NodeText node ts mid) (hscript : Script program mid) :
    Script (node :: program) ts

end DialogueScript.Grammar
