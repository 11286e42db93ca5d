import PhpCheck.Numeric.Read
import PhpCheck.Toml.Value

/-!
Reading the texts, keys and numbers of a TOML document.
-/

namespace PhpCheck.Toml

def isBlank (c : Char) : Bool := c == ' ' || c == '\t'

def skipBlanks (cs : List Char) : List Char := cs.dropWhile isBlank

/-- Characters that may stand in comments and texts. -/
def isPlain (c : Char) : Bool := c == '\t' || (c.toNat ≥ 0x20 && c.toNat != 0x7f)

/-- What follows a line break at the head of a text. -/
def lineBreak? : List Char → Option (List Char)
  | '\n' :: rest | '\r' :: '\n' :: rest => some rest
  | _ => none

/-! ### Texts -/

/-- The character with a number of so many digits. -/
def coded (digits : Nat) : Reader Char := fun cs => do
  let code ← readNat? 16 (cs.take digits)
  if cs.length < digits || !(code.isValidChar) then none
  return (Char.ofNat code, cs.drop digits)

/-- The character that is written behind a backslash. -/
def escaped : Reader Char
  | 'b' :: rest => some ('\x08', rest)
  | 't' :: rest => some ('\t', rest)
  | 'n' :: rest => some ('\n', rest)
  | 'f' :: rest => some ('\x0c', rest)
  | 'r' :: rest => some ('\r', rest)
  | 'e' :: rest => some ('\x1b', rest)
  | '"' :: rest => some ('"', rest)
  | '\\' :: rest => some ('\\', rest)
  | 'x' :: rest => coded 2 rest
  | 'u' :: rest => coded 4 rest
  | 'U' :: rest => coded 8 rest
  | _ => none

/-- The rest of a text in double quotes.  Every round takes a character. -/
def basicRest : Nat → Reader (List Char)
  | 0, _ | _, [] => none
  | _ + 1, '"' :: rest => some ([], rest)
  | rounds + 1, '\\' :: rest => do
    let (c, rest) ← escaped rest
    let (more, rest) ← basicRest rounds rest
    return (c :: more, rest)
  | rounds + 1, c :: rest =>
    if isPlain c then (basicRest rounds rest).map fun (more, rest) => (c :: more, rest) else none

/-- Blanks and line breaks that follow a backslash at the end of a line. -/
def skipFold : List Char → List Char
  | '\r' :: '\n' :: rest => skipFold rest
  | c :: rest => if isBlank c || c == '\n' then skipFold rest else c :: rest
  | [] => []

/-- The quotes at the end of a text of several lines: three end it, and up to two
before these belong to it. -/
def closing? (quote : Char) (cs : List Char) : Option (Nat × List Char) :=
  let quotes := (cs.takeWhile (· == quote)).length
  if 3 ≤ quotes && quotes ≤ 5 then some (quotes - 3, cs.drop quotes) else none

/-- The rest of a text of several lines, with escapes or without. -/
def blockRest (quote : Char) (escapes : Bool) : Nat → Reader (List Char)
  | 0, _ | _, [] => none
  | rounds + 1, c :: rest =>
    let next (taken : List Char) (rest : List Char) : Option (List Char × List Char) :=
      (blockRest quote escapes rounds rest).map fun (more, rest) => (taken ++ more, rest)
    if c = quote then
      match closing? quote (c :: rest) with
      | some (quotes, rest) => some (List.replicate quotes quote, rest)
      | none => if (rest.take 5).all (· == quote) && rest.length ≥ 5 then none else next [c] rest
    else if escapes && c == '\\' then
      if (lineBreak? (skipBlanks rest)).isSome then next [] (skipFold rest)
      else do
        let (c, rest) ← escaped rest
        next [c] rest
    else match lineBreak? (c :: rest) with
      | some rest => next ['\n'] rest
      | none => if isPlain c then next [c] rest else none

/-- The rest of a text in single quotes. -/
def literalRest (cs : List Char) : Option (List Char × List Char) :=
  match cs.dropWhile (fun c => isPlain c && c != '\'') with
  | '\'' :: rest => some (cs.takeWhile fun c => isPlain c && c != '\'', rest)
  | _ => none

/-- The first line break of a text of several lines does not belong to it. -/
def skipFirstBreak (cs : List Char) : List Char := (lineBreak? cs).getD cs

def line : Reader String
  | '"' :: rest => (basicRest (rest.length + 1) rest).map fun (cs, rest) => (String.ofList cs, rest)
  | '\'' :: rest => (literalRest rest).map fun (cs, rest) => (String.ofList cs, rest)
  | _ => none

def quotedText : Reader String
  | '"' :: '"' :: '"' :: rest =>
    (blockRest '"' true (rest.length + 1) (skipFirstBreak rest)).map fun (cs, rest) =>
      (String.ofList cs, rest)
  | '\'' :: '\'' :: '\'' :: rest =>
    (blockRest '\'' false (rest.length + 1) (skipFirstBreak rest)).map fun (cs, rest) =>
      (String.ofList cs, rest)
  | cs => line cs

/-! ### Keys -/

def isKeyChar (c : Char) : Bool := c.isAlphanum || c == '_' || c == '-'

/-- A key without dots. -/
def simpleKey : Reader String := fun cs =>
  let bare := cs.takeWhile isKeyChar
  if bare.isEmpty then line cs else some (String.ofList bare, cs.dropWhile isKeyChar)

/-- A key with dots between its parts.  Every part takes a character. -/
def dottedKey : Nat → Reader (List String)
  | 0, _ => none
  | rounds + 1, cs => do
    let (first, cs) ← simpleKey (skipBlanks cs)
    match skipBlanks cs with
    | '.' :: rest =>
      let (more, rest) ← dottedKey rounds rest
      return (first :: more, rest)
    | rest => return ([first], rest)

/-- A key may have so many parts. -/
def maxParts : Nat := 80

def key : Reader (List String) := fun cs => do
  let (parts, rest) ← dottedKey (cs.length + 1) cs
  if parts.length ≤ maxParts then return (parts, rest) else none

/-! ### Numbers, dates and times -/

/-- Digits with single underscores between them. -/
def digits? (isDigit : Char → Bool) (cs : List Char) : Option (List Char) :=
  let groups := cs.splitOnP (· == '_')
  if groups.all fun g => !g.isEmpty && g.all isDigit then some groups.flatten else none

def isHexDigit (c : Char) : Bool := c.isDigit || ('a' ≤ c.toLower && c.toLower ≤ 'f')

/-- A number in tens does not start with a zero. -/
def decimal? (cs : List Char) : Option Nat := do
  let ds ← digits? Char.isDigit cs
  if ds.length > 1 && ds.head? == some '0' then none
  readNat? 10 ds

def integer? : List Char → Option Int
  | '0' :: 'x' :: rest => do return ← readNat? 16 (← digits? isHexDigit rest)
  | '0' :: 'o' :: rest => do return ← readNat? 8 (← digits? Char.isDigit rest)
  | '0' :: 'b' :: rest => do return ← readNat? 2 (← digits? Char.isDigit rest)
  | cs =>
    let (negative, rest) := splitSign cs
    (decimal? rest).map fun n => if negative then -(n : Int) else n

/-- Whether a text is a number with a fraction or an exponent. -/
def isReal (cs : List Char) : Bool :=
  let (_, rest) := splitSign cs
  let isExponent (c : Char) : Bool := c == 'e' || c == 'E'
  let mantissa := rest.takeWhile (!isExponent ·)
  let exponentFits := match rest.dropWhile (!isExponent ·) with
    | [] => mantissa.contains '.'
    | _ :: exponent => (digits? Char.isDigit (splitSign exponent).2).isSome
  let mantissaFits := match mantissa.splitOnP (· == '.') with
    | [whole] => (decimal? whole).isSome
    | [whole, places] => (decimal? whole).isSome && (digits? Char.isDigit places).isSome
    | _ => false
  mantissaFits && exponentFits

/-- A number that is not an integer.  One that only infinity could stand for has no
value. -/
def real? (cs : List Char) : Option (Option Double) :=
  let (negative, rest) := splitSign cs
  if rest == "inf".toList then some (some (Double.infinity.negateIf negative))
  else if rest == "nan".toList then some (some (Double.nan.negateIf negative))
  else if isReal cs then
    some ((Double.read? (cs.filter (· != '_'))).filter Double.isFinite)
  else none

def isScalarChar (c : Char) : Bool :=
  isKeyChar c || c == '+' || c == '.' || c == ':'

/-- The word at the head of a text.  A blank may divide a date from a time. -/
def scalarWord (cs : List Char) : List Char × List Char :=
  let word := cs.takeWhile isScalarChar
  let rest := cs.dropWhile isScalarChar
  match date word, rest with
  | some (_, []), ' ' :: d :: more =>
    if d.isDigit then
      (word ++ ' ' :: (d :: more).takeWhile isScalarChar, (d :: more).dropWhile isScalarChar)
    else (word, rest)
  | _, _ => (word, rest)

/-- What a word stands for. -/
def scalar? (word : List Char) : Option Value :=
  if word == "true".toList then some (.truth true)
  else if word == "false".toList then some (.truth false)
  else ((integer? word).map .integer)
    <|> ((real? word).map .real)
    <|> ((moment? word).map .moment)

/-- A value that is neither a text nor composed of others. -/
def scalar : Reader Value := fun cs =>
  let (word, rest) := scalarWord cs
  (scalar? word).map fun v => (v, rest)

end PhpCheck.Toml
