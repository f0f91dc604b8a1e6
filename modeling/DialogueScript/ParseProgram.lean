import DialogueScript.ParseStatement

namespace DialogueScript

namespace TokenStream

/-- What is left behind the end of a block, if `depth` blocks are open inside it or around it. -/
def afterBlock (depth : Nat) : List Token → List Token
  | [] => []
  | token :: rest =>
    match token.kind with
    | .indent => afterBlock (depth + 1) rest
    | .dedent => if depth ≤ 1 then rest else afterBlock (depth - 1) rest
    | .endOfFile => token :: rest
    | _ => afterBlock depth rest

/-- What is left behind the end of a line, blocks that open before it included; a block that ends
before the line does is left open. -/
def afterLine (depth : Nat) : List Token → List Token
  | [] => []
  | token :: rest =>
    match token.kind with
    | .indent => afterLine (depth + 1) rest
    | .dedent => if depth = 0 then token :: rest else afterLine (depth - 1) rest
    | .newline => if depth = 0 then rest else afterLine depth rest
    | .endOfFile => token :: rest
    | _ => afterLine depth rest

def skipBlock (s : TokenStream) : TokenStream := { s with tokens := afterBlock 0 s.tokens }

def skipStatement (s : TokenStream) : TokenStream := { s with tokens := afterLine 0 s.tokens }

/-- Goes to the next node, or to the end of the file. -/
def skipToNode (s : TokenStream) : TokenStream :=
  { s with tokens := s.tokens.dropWhile fun t => t.kind ≠ .nodeWord && t.kind ≠ .endOfFile }

def skipNewlines (s : TokenStream) : TokenStream :=
  { s with tokens := s.tokens.dropWhile (·.kind = .newline) }

end TokenStream

/-- The statements of a block, the errors in the lines that are none, and what is left. -/
structure Block where
  statements : List Statement
  errors : List ScriptError
  rest : TokenStream
deriving DecidableEq

namespace Block

def addStatement (s : Statement) (b : Block) : Block := { b with statements := s :: b.statements }

def addError (e : ScriptError) (b : Block) : Block := { b with errors := e :: b.errors }

def parseWithin (limit : Nat) (s : TokenStream) : Block :=
  match limit with
  | 0 => ⟨[], [], s⟩
  | limit + 1 =>
    match s.kind with
    | .dedent | .endOfFile => ⟨[], [], s⟩
    | .newline => parseWithin limit s.advance
    | .indent =>
      (parseWithin limit s.skipBlock).addError ⟨.unexpectedIndentation, s.current.span.start⟩
    | _ =>
      match Parse.statement s with
      | (.ok statement, rest) => (parseWithin limit rest).addStatement statement
      | (.error e, rest) => (parseWithin limit rest.skipStatement).addError e

def parse (s : TokenStream) : Block := parseWithin s.tokens.length s

end Block

namespace Parse

def nodeHeader : Parse (Position × String) := do
  let word ← expectAs .nodeWord "'node'" (some "scripts are made of `node <name> ... end` blocks")
  let name ← expectName "node name"
  let _ ← expect .newline
  return (word.span.start, name.value)

def nodeFooter (id : String) (hasBlock : Bool) : Parse Position := do
  if hasBlock then
    let _ ← expect .dedent
  let word ← expectAs .endWord "'end'" (some
    ("close node '" ++ id ++ "' with 'end' at the indentation of its 'node' line"))
  return word.span.stop

end Parse

structure Parser where
  stream : TokenStream
  errors : List ScriptError
deriving DecidableEq, Repr

namespace Parser

def ofTokens (tokens : List Token) : Parser := ⟨.ofTokens tokens, []⟩

def record (p : Parser) (e : ScriptError) : Parser := { p with errors := p.errors ++ [e] }

/-- Reads one node. Errors in its statements are recorded; an error in its frame is the result. -/
def node (p : Parser) : Except ScriptError Node × Parser :=
  match Parse.nodeHeader p.stream with
  | (.error e, rest) => (.error e, { p with stream := rest })
  | (.ok (start, id), rest) =>
    let hasBlock : Bool := rest.kind = .indent
    let block := if hasBlock then Block.parse rest.advance else ⟨[], [], rest⟩
    let errors := p.errors ++ block.errors
    match Parse.nodeFooter id hasBlock block.rest with
    | (.error e, rest) => (.error e, ⟨rest, errors⟩)
    | (.ok stop, rest) => (.ok ⟨id, block.statements, ⟨start, stop⟩⟩, ⟨rest, errors⟩)

/-- The next node that can be read, with at most `limit` tries. -/
def nextNodeWithin (limit : Nat) (p : Parser) : Option Node × Parser :=
  let p := { p with stream := p.stream.skipNewlines }
  match limit with
  | 0 => (none, p)
  | limit + 1 =>
    if p.stream.kind = .endOfFile then (none, p)
    else
      match p.node with
      | (.ok node, after) => (some node, after)
      | (.error e, after) =>
        let after := after.record e
        nextNodeWithin limit { after with stream := after.stream.skipToNode }

def nextNode (p : Parser) : Option Node × Parser := nextNodeWithin (p.stream.tokens.length + 1) p

def nodesWithin (limit : Nat) (p : Parser) : List Node × Parser :=
  match limit with
  | 0 => ([], p)
  | limit + 1 =>
    match p.nextNode with
    | (none, after) => ([], after)
    | (some node, after) =>
      let (nodes, last) := nodesWithin limit after
      (node :: nodes, last)

def nodes (p : Parser) : List Node × Parser := nodesWithin (p.stream.tokens.length + 1) p

/-- Goes on from `init` with each node as soon as it is read, for at most `limit` nodes. -/
def foldNodesWithin {α : Type} (f : α → Node → α) (limit : Nat) (init : α) (p : Parser) : α × Parser :=
  match limit with
  | 0 => (init, p)
  | limit + 1 =>
    match p.nextNode with
    | (none, after) => (init, after)
    | (some node, after) => foldNodesWithin f limit (f init node) after

def foldNodes {α : Type} (f : α → Node → α) (init : α) (p : Parser) : α × Parser :=
  foldNodesWithin f (p.stream.tokens.length + 1) init p

end Parser

/-- The program that the tokens spell, or every error in it. -/
def parse (tokens : List Token) : Except (List ScriptError) Program :=
  let (nodes, parser) := (Parser.ofTokens tokens).nodes
  if parser.errors.isEmpty then .ok nodes else .error parser.errors

end DialogueScript
