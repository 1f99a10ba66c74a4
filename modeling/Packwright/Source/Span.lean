/-!
# Places in a source

A span is a half-open range of bytes of a source text.  `position` gives the line and the column of
an offset, both counted from one and in characters.
-/

namespace Packwright

/-- The bytes from `start` up to, and without, `stop`. -/
structure Span where
  start : Nat
  stop : Nat
  deriving DecidableEq, Repr, Inhabited

/-- The least span that covers two spans. -/
def Span.merge (a b : Span) : Span := ⟨min a.start b.start, max a.stop b.stop⟩

/-- Whether an offset lies in a span or at one of its ends. -/
def Span.touches (s : Span) (offset : Nat) : Bool := s.start ≤ offset && offset ≤ s.stop

namespace Source

/-- Line and column after the characters that begin before byte `offset`; `here` is the byte at
which the text begins. -/
def advance (offset : Nat) : (here : Nat) → (line column : Nat) → List Char → Nat × Nat
  | _, line, column, [] => (line, column)
  | here, line, column, c :: cs =>
    if offset ≤ here then (line, column)
    else if c = '\n' then advance offset (here + c.utf8Size) (line + 1) 1 cs
    else advance offset (here + c.utf8Size) line (column + 1) cs

/-- The line and the column of a byte offset. -/
def position (source : String) (offset : Nat) : Nat × Nat := advance offset 0 1 1 source.toList

end Source

end Packwright
