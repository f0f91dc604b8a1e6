import DialogueScript.Cursor
import DialogueScript.ScriptError

namespace DialogueScript

def IndentStyle.ofRun (run : List Char) : IndentStyle := if run.contains '\t' then tabs else spaces

/-- What the scan is inside of. -/
inductive Mode where
  /-- A string that began at `quote`; `emitted` tells whether a token was made of it yet. -/
  | text (quote : Position) (emitted : Bool)
  /-- A placeholder within a string, opened at `opening`. -/
  | placeholder (opening : Position)
deriving DecidableEq, Repr

def Mode.opening? : Mode → Option Position
  | text .. => none
  | placeholder opening => some opening

structure Scanner where
  cursor : Cursor
  /-- The widths of the open indented blocks, innermost first. -/
  levels : List Nat
  /-- What the script is indented with, once an indented line has shown it. -/
  style : Option IndentStyle
  atLineStart : Bool
  /-- Whether a token was made of the present line. -/
  hasContent : Bool
  /-- The open strings and placeholders, innermost first. -/
  modes : List Mode
  finished : Bool
deriving DecidableEq, Repr

structure Step where
  tokens : List Token
  error : Option ScriptError
  next : Scanner
deriving DecidableEq, Repr

inductive TextStop where
  | endOfFile | quote | placeholder
deriving DecidableEq, Repr

structure TextRun where
  text : List Char
  stop : TextStop
  cursor : Cursor
deriving DecidableEq, Repr

/-- A word, number or mark, or, without a kind, something that is passed over. -/
structure Lexeme where
  kind : Option TokenKind
  text : List Char
deriving DecidableEq, Repr

namespace Lexeme

def isIndentChar (c : Char) : Bool := c = ' ' || c = '\t'

def isWordStart (c : Char) : Bool := c.isAlpha || c = '_'

def isWordChar (c : Char) : Bool := c.isAlphanum || c = '_'

/-- Digits, with a point only between digits. -/
def numeral (text : List Char) : List Char :=
  text.takeWhile Char.isDigit ++
    match text.dropWhile Char.isDigit with
    | '.' :: rest => if (rest.takeWhile Char.isDigit).isEmpty then [] else '.' :: rest.takeWhile Char.isDigit
    | _ => []

def read? (text : List Char) : Option Lexeme :=
  match text with
  | [] => none
  | c :: _ =>
    if isWordStart c then
      let word := text.takeWhile isWordChar
      some ⟨some ((TokenKind.keyword? (String.ofList word)).getD .identifier), word⟩
    else if c.isDigit then some ⟨some .number, numeral text⟩
    else if isIndentChar c then some ⟨none, text.takeWhile isIndentChar⟩
    else if c = '#' then some ⟨none, text.takeWhile (!isBreak ·)⟩
    else (TokenKind.marks.find? (·.1.toList.isPrefixOf text)).map fun m => ⟨some m.2, m.1.toList⟩

end Lexeme

namespace TextRun

def unescape? (c : Char) : Option Char :=
  if c = 'n' then some '\n'
  else if c = 't' then some '\t'
  else if c = 'r' then some '\r'
  else if c = '"' then some '"'
  else if c = '\\' then some '\\'
  else none

def cons (c : Char) (run : TextRun) : TextRun := { run with text := c :: run.text }

/-- Reads string text up to a quote, a placeholder or the end of the file. Line breaks become line
feeds, and a backslash that begins no escape stands for itself. -/
def read (offset : Nat) (position : Position) : List Char → TextRun
  | [] => ⟨[], .endOfFile, ⟨[], offset, position⟩⟩
  | '"' :: rest => ⟨[], .quote, ⟨'"' :: rest, offset, position⟩⟩
  | '#' :: '{' :: rest => ⟨[], .placeholder, ⟨'#' :: '{' :: rest, offset, position⟩⟩
  | '\\' :: e :: rest =>
    match unescape? e with
    | some c => (read (offset + 2) (position.along 2) rest).cons c
    | none => (read (offset + 1) position.nextColumn (e :: rest)).cons '\\'
  | '\r' :: '\n' :: rest => (read (offset + 2) position.nextLine rest).cons '\n'
  | c :: rest =>
    if isBreak c then (read (offset + 1) position.nextLine rest).cons '\n'
    else (read (offset + c.utf8Size) position.nextColumn rest).cons c

end TextRun

namespace Scanner

def ofText (source : String) : Scanner := ⟨.ofText source, [], none, true, false, [], false⟩

def note (s : Scanner) (token : Token) : Scanner :=
  if token.kind.isContent then { s with hasContent := true } else s

def inPlaceholder (s : Scanner) : Bool :=
  match s.modes with
  | .placeholder _ :: _ => true
  | _ => false

end Scanner

namespace Step

def silent (s : Scanner) : Step := ⟨[], none, s⟩

def emit (tokens : List Token) (s : Scanner) : Step := ⟨tokens, none, tokens.foldl Scanner.note s⟩

def fail (tokens : List Token) (cause : ErrorCause) (p : Position) (s : Scanner) : Step :=
  ⟨tokens, some ⟨cause, p⟩, tokens.foldl Scanner.note s⟩

end Step

namespace Scanner

/-- Opens or closes blocks so that the innermost one has the given width. A line between two open
levels is an error, and becomes a level of its own. -/
def changeLevel (s : Scanner) (start : Position) (width : Nat) : Step :=
  let stop := s.cursor.position
  if s.levels.headD 0 < width then
    .emit [⟨.indent, toString width, ⟨start, stop⟩⟩] { s with levels := width :: s.levels }
  else
    let kept := s.levels.dropWhile (width < ·)
    let closed := (s.levels.takeWhile (width < ·)).map fun _ => Token.mk .dedent "" (.point stop)
    if kept.headD 0 = width then .emit closed { s with levels := kept }
    else .fail closed (.invalidDedent width) start { s with levels := width :: kept }

def indentTo (s : Scanner) (start : Position) (run : List Char) : Step :=
  let width := run.length
  let tabs := run.count '\t'
  if 0 < tabs ∧ tabs < width then .fail [] .mixedIndentation start s
  else if width = 0 then s.changeLevel start 0
  else
    let found := IndentStyle.ofRun run
    let expected := s.style.getD found
    if expected = found then { s with style := some found }.changeLevel start width
    else .fail [] (.inconsistentIndentation expected found) start s

/-- Reads the spaces and tabs that a line begins with. They do not matter on a line with nothing
else but a comment. -/
def scanIndentation (s : Scanner) : Step :=
  let run := s.cursor.rest.takeWhile Lexeme.isIndentChar
  let cursor := s.cursor.along run.length
  match cursor.rest with
  | [] => .silent { s with cursor, atLineStart := false }
  | c :: _ =>
    if c = '#' then .silent { s with cursor, atLineStart := false }
    else if isBreak c then .silent { s with cursor := cursor.bump, atLineStart := true }
    else { s with cursor, atLineStart := false }.indentTo s.cursor.position run

def finish (s : Scanner) : Step :=
  match s.modes.reverse.findSome? Mode.opening? with
  | some opening => .fail [] .unterminatedPlaceholder opening { s with modes := [] }
  | none =>
    let stop := s.cursor.position
    let lineEnd := if s.hasContent then [Token.mk .newline "\n" (.point stop)] else []
    let closed := s.levels.map fun _ => Token.mk .dedent "" (.point stop)
    .emit (lineEnd ++ closed ++ [.endOfFile stop])
      { s with hasContent := false, levels := [], finished := true }

/-- Reads a word, number, mark, comment or run of blanks, or fails at a character that begins none. -/
def scanLexeme (s : Scanner) (c : Char) : Step :=
  let start := s.cursor.position
  match Lexeme.read? s.cursor.rest with
  | none => .fail [] (.unexpectedCharacter c) start { s with cursor := s.cursor.bump }
  | some lexeme =>
    let cursor := s.cursor.along lexeme.text.length
    match lexeme.kind with
    | none => .silent { s with cursor }
    | some kind => .emit [⟨kind, String.ofList lexeme.text, ⟨start, cursor.position⟩⟩] { s with cursor }

/-- Reads outside of string text. Line breaks within a placeholder do not end the line. -/
def scanPlain (s : Scanner) : Step :=
  match s.cursor.rest with
  | [] => s.finish
  | c :: _ =>
    let start := s.cursor.position
    let cursor := s.cursor.bump
    if isBreak c then
      if s.inPlaceholder then .silent { s with cursor }
      else
        .emit (if s.hasContent then [⟨.newline, "\n", .point start⟩] else [])
          { s with cursor, hasContent := false, atLineStart := true }
    else if c = '"' then .silent { s with cursor, modes := .text start false :: s.modes }
    else if c = '}' && s.inPlaceholder then
      .emit [⟨.placeholderEnd, "\x7d", ⟨start, cursor.position⟩⟩]
        { s with cursor, modes := s.modes.tail }
    else s.scanLexeme c

/-- Reads string text, up to the closing quote or into a placeholder. The first stretch of a string
begins at its quote; an empty stretch makes a token only if the string has no other. -/
def scanText (s : Scanner) (quote : Position) (emitted : Bool) : Step :=
  let run := TextRun.read s.cursor.offset s.cursor.position s.cursor.rest
  let start := if emitted then s.cursor.position else quote
  match run.stop with
  | .endOfFile => .fail [] .unterminatedString quote { s with cursor := run.cursor, modes := [] }
  | .quote =>
    let cursor := run.cursor.bump
    .emit
      (if run.text.isEmpty && emitted then []
        else [⟨.string, String.ofList run.text, ⟨start, cursor.position⟩⟩])
      { s with cursor, modes := s.modes.tail }
  | .placeholder =>
    let opening := run.cursor.position
    let cursor := run.cursor.along 2
    .emit
      ((if run.text.isEmpty then [] else [⟨.string, String.ofList run.text, ⟨start, opening⟩⟩]) ++
        [⟨.placeholderStart, "#\x7b", ⟨opening, cursor.position⟩⟩])
      { s with cursor, modes := .placeholder opening :: .text quote true :: s.modes.tail }

def step (s : Scanner) : Step :=
  match s.modes with
  | [] => if s.atLineStart then s.scanIndentation else s.scanPlain
  | .text quote emitted :: _ => s.scanText quote emitted
  | .placeholder _ :: _ => s.scanPlain

end Scanner

end DialogueScript
