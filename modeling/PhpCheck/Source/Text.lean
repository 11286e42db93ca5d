import PhpCheck.Source.LineMap

/-!
A source text as a list of characters addressed by byte offsets.
-/

namespace PhpCheck

/-- The number of bytes that a list of characters takes in UTF-8. -/
def byteSize (text : List Char) : Nat := text.foldl (fun n c => n + c.utf8Size) 0

/-- The characters that remain after `n` bytes. -/
def dropBytes : Nat → List Char → List Char
  | _, [] => []
  | n, c :: rest => if n = 0 then c :: rest else dropBytes (n - c.utf8Size) rest

/-- The characters that begin within the first `n` bytes. -/
def takeBytes : Nat → List Char → List Char
  | _, [] => []
  | n, c :: rest => if n = 0 then [] else c :: takeBytes (n - c.utf8Size) rest

/-- A source text with its length in bytes and its line starts. -/
structure Source where
  chars : List Char
  size : Nat
  lines : LineMap
deriving Inhabited

namespace Source

def ofChars (chars : List Char) : Source :=
  { chars, size := byteSize chars, lines := LineMap.ofChars chars }

def ofString (text : String) : Source := ofChars text.toList

/-- The text up to byte offset `stop`. -/
def truncate (src : Source) (stop : Nat) : Source := ofChars (takeBytes stop src.chars)

/-- The characters between two byte offsets. -/
def slice (src : Source) (start stop : Nat) : List Char :=
  takeBytes (stop - start) (dropBytes start src.chars)

def span (src : Source) (start stop : Nat) : Span := src.lines.span start stop

/-- The text under a span. -/
def covered (src : Source) (s : Span) : String := String.ofList (src.slice s.start s.stop)

end Source

end PhpCheck
