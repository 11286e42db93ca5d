import PhpCheck.Token.Scanner

/-!
A scan that can look ahead: tokens looked at are kept and handed out later.
-/

namespace PhpCheck

/-- A scan together with the tokens that were cut off but not yet handed out. -/
structure Lookahead where
  scanner : Scanner
  buffer : List Lexeme
deriving Inhabited

namespace Lookahead

def ofSource (src : Source) : Lookahead := { scanner := Scanner.ofSource src, buffer := [] }

/-- Byte offset reached by the scan, past everything that was looked at. -/
def offset (l : Lookahead) : Nat := l.scanner.cursor.offset

/-- Cuts off `n` more tokens into the buffer, fewer when the text ends. -/
def fill (src : Source) : Nat → Lookahead → Lookahead
  | 0, l => l
  | n + 1, l =>
    match l.scanner.next src with
    | (none, scanner) => { l with scanner }
    | (some lexeme, scanner) => fill src n { scanner, buffer := l.buffer ++ [lexeme] }

/-- The token `n` places ahead; the next one is at place zero. -/
def peek (src : Source) (n : Nat) (l : Lookahead) : Option Lexeme × Lookahead :=
  let l := l.fill src (n + 1 - l.buffer.length)
  (l.buffer[n]?, l)

/-- Hands out the next token. -/
def next (src : Source) (l : Lookahead) : Option Lexeme × Lookahead :=
  match l.buffer with
  | lexeme :: buffer => (some lexeme, { l with buffer })
  | [] =>
    let (lexeme, scanner) := l.scanner.next src
    (lexeme, { l with scanner })

end Lookahead

end PhpCheck
