import PhpCheck.Token.Class
import PhpCheck.Token.Kind

/-!
Numeric literals.  Digits may be grouped by single underscores, which must have
a digit on both sides.  Only at the end of a decimal integer an underscore may
stand without a digit after it; it ends the literal.
-/

namespace PhpCheck.Number

/-- Splits off further groups `_ddd` of digits of a class. -/
def groups (digit : Char → Bool) : List Char → List Char
  | '_' :: c :: rest => if digit c then groups digit rest else '_' :: c :: rest
  | c :: rest => if digit c then groups digit rest else c :: rest
  | [] => []

/-- What follows a nonempty run of digits with groups; nothing when no digit
comes first. -/
def run? (digit : Char → Bool) : List Char → Option (List Char)
  | c :: rest => if digit c then some (groups digit rest) else none
  | [] => none

/-- What follows an exponent; the whole input when none stands here. -/
def exponent (text : List Char) : List Char :=
  match text with
  | e :: rest =>
    if e == 'e' || e == 'E' then
      let digits := match rest with
        | s :: more => if s == '+' || s == '-' then more else rest
        | [] => rest
      match digits with
      | d :: more => if d.isDigit then more.dropWhile Char.isDigit else text
      | [] => text
    else text
  | [] => text

/-- What follows the fraction after a decimal point: digits, groups and an
exponent, all optional. -/
def fraction (text : List Char) : List Char :=
  exponent (groups Char.isDigit (text.dropWhile Char.isDigit))

/-- The kind of a literal in a base other than ten and what follows it. -/
def based? : List Char → Option (TokenKind × List Char)
  | '0' :: mark :: rest =>
    if mark == 'x' || mark == 'X' then (run? isHexDigit rest).map (.hexLiteral, ·)
    else if mark == 'b' || mark == 'B' then (run? isBinaryDigit rest).map (.binaryLiteral, ·)
    else if mark == 'o' || mark == 'O' then (run? isOctalDigit rest).map (.octalLiteral, ·)
    else none
  | _ => none

/-- The longest numeric literal at the head of a text: its kind and what
follows it. -/
def scan? (text : List Char) : Option (TokenKind × List Char) :=
  match based? text with
  | some found => some found
  | none =>
    match text with
    | '.' :: rest => (run? Char.isDigit rest).map fun more => (.floatLiteral, exponent more)
    | _ =>
      match run? Char.isDigit text with
      | none => none
      | some ('.' :: rest) => some (.floatLiteral, fraction rest)
      | some ('_' :: rest) => some (.decimalLiteral, rest)
      | some rest =>
        let after := exponent rest
        if after.length < rest.length then some (.floatLiteral, after)
        else some (.decimalLiteral, rest)

end PhpCheck.Number
