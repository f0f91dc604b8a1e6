import DialogueScript.Lines

namespace DialogueScript

structure Cursor where
  rest : List Char
  /-- The byte offset of `rest`. -/
  offset : Nat
  position : Position
deriving DecidableEq, Repr

/-- Whether `c` ends a line. A carriage return and the line feed after it count once. -/
def isBreak (c : Char) : Bool := c = '\n' || c = '\r'

namespace Cursor

def ofText (source : String) : Cursor := ⟨source.toList, 0, .start⟩

/-- Passes the next character, or the two of a line break. -/
def bump (c : Cursor) : Cursor :=
  match c.rest with
  | [] => c
  | '\r' :: '\n' :: rest => ⟨rest, c.offset + 2, c.position.nextLine⟩
  | x :: rest =>
    ⟨rest, c.offset + x.utf8Size, if isBreak x then c.position.nextLine else c.position.nextColumn⟩

def along (c : Cursor) (n : Nat) : Cursor :=
  ⟨c.rest.drop n, c.offset + byteLength (c.rest.take n), c.position.along n⟩

def charsIn (bytes : Nat) : List Char → Nat
  | [] => 0
  | x :: rest => if bytes = 0 then 0 else charsIn (bytes - x.utf8Size) rest + 1

def alongBytes (c : Cursor) (bytes : Nat) : Cursor := c.along (charsIn bytes c.rest)

theorem bump_rest_length_lt (c : Cursor) (h : c.rest ≠ []) : c.bump.rest.length < c.rest.length := by
  unfold bump
  split
  · exact absurd ‹_› h
  · rename_i hrest
    simp only [hrest, List.length_cons]
    omega
  · rename_i hrest
    simp only [hrest, List.length_cons]
    omega

theorem along_rest_length (c : Cursor) (n : Nat) : (c.along n).rest.length = c.rest.length - n := by
  simp [along]

end Cursor

end DialogueScript
