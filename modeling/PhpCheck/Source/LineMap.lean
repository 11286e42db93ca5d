import PhpCheck.Source.Span

/-!
The table of line starts of a text, and the line and column of an offset.
-/

namespace PhpCheck

/-- The offsets at which lines begin, in ascending order.  The first line
begins at offset zero. -/
structure LineMap where
  starts : Array Nat
deriving Inhabited

namespace LineMap

/-- Line starts after each line feed of a text whose first character stands at
`offset`. -/
def startsFrom : Nat → List Char → List Nat
  | _, [] => []
  | offset, c :: rest =>
    let next := offset + c.utf8Size
    if c = '\n' then next :: startsFrom next rest else startsFrom next rest

def ofChars (text : List Char) : LineMap := { starts := (0 :: startsFrom 0 text).toArray }

def lineCount (m : LineMap) : Nat := m.starts.size

/-- The last of `count` places from `first` on whose entry is at most `n`, in a
table with ascending entries, or `first` if there is none.  Each step halves
the places that are left. -/
def lastAtMost (entries : Array Nat) (n first count : Nat) : Nat :=
  if count ≤ 1 then first
  else
    let half := count / 2
    if n < entries.getD (first + half) 0 then lastAtMost entries n first (count - half)
    else lastAtMost entries n (first + half) (count - half)
termination_by count

/-- Binary search in a table with ascending entries: `ok` with the place where
a number stands, or else `error` with the place where it would go in. -/
def search (entries : Array Nat) (n : Nat) : Except Nat Nat :=
  let place := lastAtMost entries n 0 entries.size
  match entries[place]? with
  | none => .error place
  | some entry =>
    if entry = n then .ok place
    else if entry < n then .error (place + 1)
    else .error place

/-- The line of an offset, counted from zero: the one that begins there, or else
the one in front of where the offset would go in among the line starts.  An
offset past the end of the text lies on the last line. -/
def lineIndex (m : LineMap) (offset : Nat) : Nat :=
  match search m.starts offset with
  | .ok line => line
  | .error next => next - 1

/-- Line and column of an offset, each counted from one.  Numbers have no bound here; in words of
64 bits nothing differs for offsets below `2 ^ 64 - 1`, and no text has others. -/
def lineCol (m : LineMap) (offset : Nat) : Nat × Nat :=
  let line := m.lineIndex offset
  (line + 1, offset - m.starts.getD line 0 + 1)

/-- The range between two offsets with its lines and columns. -/
def span (m : LineMap) (start stop : Nat) : Span :=
  let (startLine, startColumn) := m.lineCol start
  let (endLine, endColumn) := m.lineCol stop
  { start, stop, startLine, startColumn, endLine, endColumn }

end LineMap

end PhpCheck
