/-!
Locations in a source text.  Offsets count UTF-8 bytes from zero; lines and
columns count from one, columns in bytes.
-/

namespace PhpCheck

/-- A byte range of a source text together with the line and column of both of
its ends. -/
structure Span where
  start : Nat
  stop : Nat
  startLine : Nat
  startColumn : Nat
  endLine : Nat
  endColumn : Nat
deriving DecidableEq, Inhabited

namespace Span

/-- The empty range at the beginning of a text. -/
def origin : Span :=
  { start := 0, stop := 0, startLine := 1, startColumn := 1, endLine := 1, endColumn := 1 }

/-- The smallest range that covers both arguments. -/
def merge (a b : Span) : Span :=
  let first := if a.start ≤ b.start then a else b
  let other := if a.start ≤ b.start then b else a
  let last := if a.stop ≥ b.stop then a else b
  { start := first.start
    stop := max last.stop other.stop
    startLine := first.startLine
    startColumn := first.startColumn
    endLine := last.endLine
    endColumn := last.endColumn }

/-- The number of bytes covered. -/
def size (s : Span) : Nat := s.stop - s.start

def isEmpty (s : Span) : Bool := s.stop ≤ s.start

def contains (s : Span) (offset : Nat) : Bool := s.start ≤ offset && offset < s.stop

end Span

end PhpCheck
