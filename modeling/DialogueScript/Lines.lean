import DialogueScript.Position

namespace DialogueScript

def byteLength (text : List Char) : Nat := text.foldr (fun c n => c.utf8Size + n) 0

/-- One line without its break, and the byte offset at which it begins. -/
structure TextLine where
  offset : Nat
  text : List Char
deriving DecidableEq, Repr

def linesFrom (offset : Nat) : List Char → TextLine × List TextLine
  | [] => (⟨offset, []⟩, [])
  | '\r' :: '\n' :: rest =>
    let following := linesFrom (offset + 2) rest
    (⟨offset, []⟩, following.1 :: following.2)
  | '\n' :: rest =>
    let following := linesFrom (offset + 1) rest
    (⟨offset, []⟩, following.1 :: following.2)
  | '\r' :: rest =>
    let following := linesFrom (offset + 1) rest
    (⟨offset, []⟩, following.1 :: following.2)
  | c :: rest =>
    let line := linesFrom (offset + c.utf8Size) rest
    (⟨offset, c :: line.1.text⟩, line.2)

def lines (source : String) : List TextLine :=
  let all := linesFrom 0 source.toList
  all.1 :: all.2

def line? (source : String) (number : Nat) : Option TextLine :=
  if number = 0 then none else (lines source)[number - 1]?

/-- The byte at which `p` stands. A column past the end of its line means the end of that line. -/
def byteOffset (source : String) (p : Position) : Option Nat :=
  (line? source p.line).map fun line => line.offset + byteLength (line.text.take (p.column - 1))

end DialogueScript
