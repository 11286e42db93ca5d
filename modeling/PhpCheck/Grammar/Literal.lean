import PhpCheck.Grammar.Name

/-!
Numbers and quoted text.  Text in double quotes and heredocs may embed variables
and code, which become children of the literal's node.
-/

namespace PhpCheck.Grammar

/-! ### Escapes -/

/-- Text between single quotes: a backslash hides a quote or a backslash. -/
def decodePlain : List Char → List Char
  | '\\' :: '\\' :: rest => '\\' :: decodePlain rest
  | '\\' :: '\'' :: rest => '\'' :: decodePlain rest
  | c :: rest => c :: decodePlain rest
  | [] => []

/-- The value of a digit in base sixteen. -/
def digitValue (c : Char) : Nat :=
  if c.isDigit then c.toNat - '0'.toNat
  else if 'a' ≤ c && c ≤ 'f' then c.toNat - 'a'.toNat + 10
  else c.toNat - 'A'.toNat + 10

def numberIn (base : Nat) (digits : List Char) : Nat :=
  digits.foldl (fun n c => n * base + digitValue c) 0

/-- The character with a code point; the replacement character when there is
none. -/
def charOfCode (n : Nat) : Char :=
  if h : n.isValidChar then Char.ofNatAux n h else '\ufffd'

/-- The code point written in braces, in base sixteen with an optional plus
sign. -/
def bracedCode (digits : List Char) : Nat :=
  let digits := match digits with
    | '+' :: rest => rest
    | _ => digits
  if digits.isEmpty || !digits.all isHexDigit then 0xfffd else numberIn 16 digits

/-- The character that an escape stands for, given what follows the backslash,
and what is left after it.  Nothing when the backslash stands for itself. -/
def decodeEscape? (quote : Option Char) : List Char → Option (Char × List Char)
  | [] => none
  | c :: rest =>
    if c == 'n' then some ('\n', rest)
    else if c == 't' then some ('\t', rest)
    else if c == 'r' then some ('\r', rest)
    else if c == 'v' then some ('\x0b', rest)
    else if c == 'e' then some ('\x1b', rest)
    else if c == 'f' then some ('\x0c', rest)
    else if c == '\\' then some ('\\', rest)
    else if c == '$' then some ('$', rest)
    else if quote == some c then some (c, rest)
    else if isOctalDigit c then
      let digits := ((c :: rest).take 3).takeWhile isOctalDigit
      some (charOfCode (numberIn 8 digits % 256), (c :: rest).drop digits.length)
    else if c == 'x' then
      let digits := (rest.take 2).takeWhile isHexDigit
      if digits.isEmpty then none
      else some (charOfCode (numberIn 16 digits), rest.drop digits.length)
    else if c == 'u' && rest.head? == some '{' then
      let digits := (rest.drop 1).takeWhile (· != '}')
      let after := (rest.drop 1).drop digits.length
      if after.isEmpty then none
      else some (charOfCode (bracedCode digits), after.drop 1)
    else none

/-- Removes up to `indent` blanks from the beginning of every line. -/
def dedent (indent : Nat) : (left : Nat) → List Char → List Char
  | _, [] => []
  | left, c :: rest =>
    if c == '\n' then c :: dedent indent indent rest
    else if isIndent c && left != 0 then dedent indent (left - 1) rest
    else c :: dedent indent 0 rest

/-! ### Embedded code -/

/-- Splits a text at the brace that closes one opened before it: the text up to
the brace and the text after it.  Braces in quotes do not count. -/
def splitAtBrace (depth : Nat) (quote : Option Char) : List Char →
    Option (List Char × List Char)
  | [] => none
  | c :: rest =>
    let step (depth : Nat) (quote : Option Char) :=
      (splitAtBrace depth quote rest).map fun (inner, after) => (c :: inner, after)
    match quote with
    | some q =>
      if c == q then step depth none
      else if c == '\\' then
        match rest with
        | [] => none
        | hidden :: rest =>
          (splitAtBrace depth quote rest).map fun (inner, after) => (c :: hidden :: inner, after)
      else step depth quote
    | none =>
      if c == '{' then step (depth + 1) none
      else if c == '}' then
        match depth with
        | 0 => some ([], rest)
        | depth + 1 => step depth none
      else if c == '\'' || c == '"' then step depth (some c)
      else step depth none

/-- The index in `$name[index]` inside quoted text. -/
def simpleIndex (span : Span) (inner : List Char) : Node :=
  let text := String.ofList inner
  match inner with
  | '$' :: name => Node.leaf .variableName span (String.ofList name)
  | _ =>
    if !inner.isEmpty && (inner.dropWhile (· == '-')).all Char.isDigit then
      Node.leaf .integerLiteral span text
    else
      let isQuote (c : Char) : Bool := c == '\'' || c == '"'
      let trimmed := ((inner.dropWhile isQuote).reverse.dropWhile isQuote).reverse
      Node.leaf .stringLiteral span (String.ofList trimmed)

/-- A variable in quoted text, `$name`, `$name[index]` or `$name->property`, with
the text after it.  `start` is the offset of the dollar sign and `text` what
follows the sign. -/
def simpleInterpolation (src : Source) (start : Nat) (text : List Char) : Node × List Char :=
  let name := text.takeWhile isNameChar
  let rest := text.drop name.length
  let stop := start + 1 + byteSize name
  let variableNode := Node.leaf .variableName (src.span start stop) (String.ofList name)
  match rest with
  | '[' :: more =>
    let inner := more.takeWhile (· != ']')
    let after := more.drop inner.length
    if after.isEmpty then (variableNode, rest)
    else
      let close := stop + 1 + byteSize inner
      let index := simpleIndex (src.span (stop + 1) close) inner
      ((Node.ofKind .subscriptExpression (src.span start (close + 1)) []
        |>.withField "object" variableNode |>.withField "index" index), after.drop 1)
  | '-' :: '>' :: more =>
    if more.head?.any isNameStart then
      let property := more.takeWhile isNameChar
      let stop' := stop + 2 + byteSize property
      let nameNode := Node.leaf .name (src.span (stop + 2) stop') (String.ofList property)
      ((Node.ofKind .propertyAccess (src.span start stop') []
        |>.withField "object" variableNode |>.withField "name" nameNode),
        more.drop property.length)
    else (variableNode, rest)
  | _ => (variableNode, rest)

/-! ### Quoted text with parts -/

/-- The progress of a reading of quoted text. -/
structure Pieces where
  /-- The parts found so far, last first. -/
  parts : List Node
  /-- The literal text since the last part, last character first. -/
  literal : List Char
  /-- Where that literal text began. -/
  since : Nat
  /-- How many blanks of indentation may still be dropped here. -/
  margin : Nat
  offset : Nat
  rest : List Char

/-- Turns the pending literal text into a part that ends at `stop`. -/
def Pieces.flush (src : Source) (p : Pieces) (stop : Nat) : Pieces :=
  if p.literal.isEmpty then p
  else
    { p with
      parts := Node.leaf .stringFragment (src.span p.since (max stop p.since))
        (String.ofList p.literal.reverse) :: p.parts
      literal := [] }

/-- One step over quoted text that ends at offset `stop`. -/
def Pieces.step (below : Below) (indent : Nat) (quote : Option Char) (stop : Nat) (p : Pieces)
    (c : Char) (rest : List Char) : Parse Pieces := do
  let src ← read
  let keep (d : Char) (after : List Char) : Pieces :=
    { p with literal := d :: p.literal, margin := 0
             offset := p.offset + byteSize (p.rest.take (p.rest.length - after.length))
             rest := after }
  let part (node : Node) (after : List Char) : Pieces :=
    let offset := p.offset + byteSize (p.rest.take (p.rest.length - after.length))
    let p := p.flush src p.offset
    { p with parts := node :: p.parts, since := offset, margin := 0, offset, rest := after }
  let openEnded {α : Type} : Parse α := do
    throw { fault := .unterminatedString, span := src.span p.offset stop }
  if p.margin != 0 && isIndent c then
    return { p with margin := p.margin - 1, offset := p.offset + 1, rest }
  match rest with
  | [] => return keep c rest
  | d :: more =>
    if c == '\\' then
      match decodeEscape? quote rest with
      | some (decoded, after) => return keep decoded after
      | none => return keep c rest
    else if c == '$' && isNameStart d then
      let (node, after) := simpleInterpolation src p.offset rest
      return part node after
    else if c == '{' && d == '$' then
      match splitAtBrace 0 none rest with
      | none => openEnded
      | some (inner, after) =>
        let start := p.offset + 1
        return part (← below (.code start (start + byteSize inner))) after
    else if c == '$' && d == '{' then
      match splitAtBrace 0 none more with
      | none => openEnded
      | some (inner, after) =>
        let start := p.offset + 2
        let close := start + byteSize inner
        let span := src.span p.offset (close + 1)
        if !inner.isEmpty && inner.all isNameChar then
          return part (Node.leaf .variableName span (String.ofList inner)) after
        else
          let name ← below (.code start close)
          return part (Node.ofKind .variableVariable span [name.inField "name"]) after
    else if c == '\n' then return { keep c rest with margin := indent }
    else return keep c rest

/-- Reads quoted text to its end; each step takes at least one character. -/
def Pieces.run (below : Below) (indent : Nat) (quote : Option Char) (stop : Nat) :
    (fuel : Nat) → Pieces → Parse Pieces
  | 0, p => if p.rest.isEmpty then return p else stall
  | fuel + 1, p =>
    match p.rest with
    | [] => return p
    | c :: rest => do Pieces.run below indent quote stop fuel (← p.step below indent quote stop c rest)

/-- The node of quoted text between two offsets.  Without embedded parts it is a
plain literal. -/
def interpolated (below : Below) (span : Span) (start stop indent : Nat) (quote : Option Char) :
    Parse Node := do
  let src ← read
  let text := src.slice start stop
  let p ← Pieces.run below indent quote stop text.length
    { parts := [], literal := [], since := start, margin := indent, offset := start, rest := text }
  let parts := (p.flush src stop).parts.reverse
  if parts.all (·.kind == .stringFragment) then
    return Node.leaf .stringLiteral span (String.join (parts.map Node.textD))
  return Node.ofKind .interpolatedString span parts

/-! ### Literals -/

def number : Parse Node := do
  match ← advance with
  | none => unexpected "number"
  | some tok =>
    let kind := if tok.kind = .floatLiteral then NodeKind.floatLiteral else .integerLiteral
    return Node.leaf kind tok.span (String.ofList (tok.text.toList.filter (· != '_')))

def plainString : Parse Node := do
  let tok ← expect .stringLiteral "string"
  return Node.leaf .stringLiteral tok.span
    (String.ofList (decodePlain (tok.text.toList.drop 1).dropLast))

/-- Text in double quotes or in back quotes. -/
def templateString (below : Below) : Parse Node := do
  match ← advance with
  | none => unexpected "string"
  | some tok =>
    let start := tok.span.start + 1
    interpolated below tok.span start (max (tok.span.stop - 1) start) 0 tok.text.toList.head?

def heredocString (below : Below) : Parse Node := do
  match ← advance with
  | none => unexpected "heredoc"
  | some tok =>
    match heredocBody? tok.text.toList with
    | none => unexpected "heredoc"
    | some body =>
      let start := tok.span.start + body.offset
      let stop := start + body.size
      if tok.kind = .nowdoc then
        let text := (← read).slice start stop
        return Node.leaf .stringLiteral tok.span (String.ofList (dedent body.indent body.indent text))
      interpolated below tok.span start stop body.indent none

end PhpCheck.Grammar
