import PhpCheck.Numeric.Double
import PhpCheck.Text.Letter

/-!
Reading numbers from text.
-/

namespace PhpCheck

/-- The value of a digit in bases up to 36. -/
def digitValue? (c : Char) : Option Nat :=
  if c.isDigit then some (c.toNat - '0'.toNat)
  else if c.isAlpha then some (c.toLower.toNat - 'a'.toNat + 10)
  else none

/-- The number that digits of a base denote; there must be at least one. -/
def readNat? (base : Nat) (cs : List Char) : Option Nat :=
  if cs.isEmpty then none
  else cs.foldlM (fun n c => (digitValue? c).bind fun d =>
    if d < base then some (n * base + d) else none) 0

/-- Splits a sign off: whether it is a minus, and what follows. -/
def splitSign : List Char → Bool × List Char
  | '-' :: rest => (true, rest)
  | '+' :: rest => (false, rest)
  | cs => (false, cs)

def inInt64 (n : Int) : Bool := Int64.minValue.toInt ≤ n && n ≤ Int64.maxValue.toInt

/-- A 64 bit integer, if it is one. -/
def int64? (n : Int) : Option Int64 := if inInt64 n then some (Int64.ofInt n) else none

/-- An integer with an optional sign, in the range of 64 bits. -/
def readInt64? (base : Nat) (cs : List Char) : Option Int64 :=
  let (negative, digits) := splitSign cs
  (readNat? base digits).bind fun n => int64? (if negative then -(n : Int) else n)

namespace Double

/-- An exponent at the end of a number; its absence counts as zero. -/
def readExponent? : List Char → Option Int
  | [] => some 0
  | e :: rest =>
    if e == 'e' || e == 'E' then
      let (negative, digits) := splitSign rest
      (readNat? 10 digits).map fun n => if negative then -(n : Int) else n
    else none

/-- A decimal without a sign: digits with at most one point among them, then
perhaps an exponent. -/
def readDecimal? (cs : List Char) : Option Double :=
  let whole := cs.takeWhile Char.isDigit
  let rest := cs.dropWhile Char.isDigit
  let (places, rest) := match rest with
    | '.' :: more => (more.takeWhile Char.isDigit, more.dropWhile Char.isDigit)
    | _ => ([], rest)
  (readNat? 10 (whole ++ places)).bind fun digits =>
    (readExponent? rest).map fun e => ofDecimal digits (e - places.length)

/-- The names of numbers that have no digits. -/
def readNamed? (cs : List Char) : Option Double :=
  let word := String.ofList (cs.map Char.toLower)
  if word == "inf" || word == "infinity" then some infinity
  else if word == "nan" then some nan
  else none

/-- Reads a number with an optional sign. -/
def read? (cs : List Char) : Option Double :=
  let (negative, rest) := splitSign cs
  ((readNamed? rest).or (readDecimal? rest)).map (negateIf negative)

end Double

end PhpCheck
