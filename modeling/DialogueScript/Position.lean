namespace DialogueScript

structure Position where
  line : Nat
  column : Nat
deriving DecidableEq, Repr

namespace Position

def start : Position := ⟨1, 1⟩

def nextColumn (p : Position) : Position := ⟨p.line, p.column + 1⟩

def nextLine (p : Position) : Position := ⟨p.line + 1, 1⟩

def along (p : Position) (n : Nat) : Position := ⟨p.line, p.column + n⟩

end Position

/-- The stretch of text from `start` up to, and not including, `stop`. -/
structure Span where
  start : Position
  stop : Position
deriving DecidableEq, Repr

def Span.point (p : Position) : Span := ⟨p, p⟩

end DialogueScript
