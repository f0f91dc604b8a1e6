import DialogueScript.ScriptError

namespace DialogueScript

structure TokenStream where
  tokens : List Token
  /-- Where the script ends if no token says so. -/
  finish : Position
deriving DecidableEq, Repr

namespace TokenStream

/-- A stream without an end of file behaves as if one stood right behind its last token. -/
def ofTokens (tokens : List Token) : TokenStream :=
  ⟨tokens, (tokens.getLast?.map (·.span.stop)).getD .start⟩

def current (s : TokenStream) : Token := s.tokens.headD (.endOfFile s.finish)

def following (s : TokenStream) : Token := s.tokens.tail.headD (.endOfFile s.finish)

def kind (s : TokenStream) : TokenKind := s.current.kind

/-- Passes the current token. The end of the file is never passed. -/
def advance (s : TokenStream) : TokenStream :=
  if s.kind = .endOfFile then s else { s with tokens := s.tokens.tail }

def unexpected (s : TokenStream) (expected : String) (hint : Option String) : ScriptError :=
  ⟨.unexpectedToken expected s.current.describe hint, s.current.span.start⟩

end TokenStream

def Parse (α : Type) : Type := TokenStream → Except ScriptError α × TokenStream

namespace Parse

/-- Runs the second parser on what the first one leaves, unless the first one fails. -/
def andThen {α β : Type} (p : Parse α) (f : α → Parse β) : Parse β := fun s =>
  match p s with
  | (.ok a, rest) => f a rest
  | (.error e, rest) => (.error e, rest)

instance : Monad Parse where
  pure a := fun s => (.ok a, s)
  bind := andThen

def fail {α : Type} (e : ScriptError) : Parse α := fun s => (.error e, s)

def unexpected {α : Type} (expected : String) (hint : Option String) : Parse α := fun s =>
  (.error (s.unexpected expected hint), s)

def current : Parse Token := fun s => (.ok s.current, s)

def following : Parse Token := fun s => (.ok s.following, s)

def advance : Parse Token := fun s => (.ok s.current, s.advance)

/-- Takes the current token if it is of the right kind; `expected` says what is wanted otherwise. -/
def expectAs (kind : TokenKind) (expected : String) (hint : Option String) : Parse Token := fun s =>
  if s.kind = kind then (.ok s.current, s.advance) else (.error (s.unexpected expected hint), s)

def expect (kind : TokenKind) : Parse Token := expectAs kind kind.describe none

/-- Takes a name. A keyword in its place is pointed out as such. -/
def expectName (what : String) : Parse Token := do
  let token ← current
  if token.kind.isKeyword then
    unexpected what (some
      ("'" ++ token.value ++ "' is a reserved keyword and cannot be used as a " ++ what))
  else expectAs .identifier what none

end Parse

end DialogueScript
