import DialogueScript.Position
import DialogueScript.Quoting

namespace DialogueScript

inductive TokenKind where
  | endOfFile | newline | indent | dedent
  | number | string | identifier
  | placeholderStart | placeholderEnd
  | openParen | closeParen
  | assign | equals | not | notEquals
  | less | lessEquals | greater | greaterEquals
  | or | and
  | plusAssign | minusAssign | starAssign | slashAssign
  | plus | minus | slash | star
  | atSign | colon | comma
  | nodeWord | sayWord | choiceWord | gotoWord | ifWord | endWord | trueWord | falseWord
deriving DecidableEq, Repr

namespace TokenKind

def keywords : List (String × TokenKind) :=
  [("node", nodeWord), ("say", sayWord), ("choice", choiceWord), ("goto", gotoWord), ("if", ifWord),
    ("end", endWord), ("true", trueWord), ("false", falseWord)]

def keyword? (word : String) : Option TokenKind := keywords.lookup word

def isKeyword (kind : TokenKind) : Bool := keywords.any (·.2 = kind)

/-- The operators and marks, the longer ones before those that begin like them. -/
def marks : List (String × TokenKind) :=
  [("==", equals), ("!=", notEquals), (">=", greaterEquals), ("<=", lessEquals), ("&&", and),
    ("||", or), ("+=", plusAssign), ("-=", minusAssign), ("*=", starAssign), ("/=", slashAssign),
    ("=", assign), ("+", plus), ("-", minus), ("*", star), ("/", slash), (">", greater), ("<", less),
    ("!", not), ("@", atSign), (":", colon), (",", comma), ("(", openParen), (")", closeParen)]

def describe : TokenKind → String
  | endOfFile => "end of file"
  | newline => "end of line"
  | indent => "indentation"
  | dedent => "end of indented block"
  | number => "number"
  | string => "string"
  | identifier => "identifier"
  | placeholderStart => "'#\x7b'"
  | placeholderEnd => "'\x7d'"
  | openParen => "'('"
  | closeParen => "')'"
  | assign => "'='"
  | equals => "'=='"
  | not => "'!'"
  | notEquals => "'!='"
  | less => "'<'"
  | lessEquals => "'<='"
  | greater => "'>'"
  | greaterEquals => "'>='"
  | or => "'||'"
  | and => "'&&'"
  | plusAssign => "'+='"
  | minusAssign => "'-='"
  | starAssign => "'*='"
  | slashAssign => "'/='"
  | plus => "'+'"
  | minus => "'-'"
  | slash => "'/'"
  | star => "'*'"
  | atSign => "'@'"
  | colon => "':'"
  | comma => "','"
  | nodeWord => "'node'"
  | sayWord => "'say'"
  | choiceWord => "'choice'"
  | gotoWord => "'goto'"
  | ifWord => "'if'"
  | endWord => "'end'"
  | trueWord => "'true'"
  | falseWord => "'false'"

/-- Whether a token of this kind stands for something written on a line, and not for the layout. -/
def isContent : TokenKind → Bool
  | endOfFile | newline | indent | dedent => false
  | _ => true

end TokenKind

/-- `value` is the text of the token: for a string the text it denotes, for an indentation its width. -/
structure Token where
  kind : TokenKind
  value : String
  span : Span
deriving DecidableEq, Repr

def Token.describe (token : Token) : String :=
  match token.kind with
  | .identifier => "identifier `" ++ token.value ++ "`"
  | .number => "number `" ++ token.value ++ "`"
  | .string => "string " ++ quotedString token.value
  | kind => kind.describe

def Token.endOfFile (p : Position) : Token := ⟨.endOfFile, "EOF", .point p⟩

end DialogueScript
