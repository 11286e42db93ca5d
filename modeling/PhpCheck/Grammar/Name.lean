import PhpCheck.Grammar.Parse

/-!
Variables, names, modifiers and type hints.
-/

namespace PhpCheck.Grammar

/-- A variable `$name`; the node's text leaves out the dollar sign. -/
def simpleVariable : Parse Node := do
  let tok ← expect .variableName "variable"
  return Node.leaf .variableName tok.span (String.ofList (tok.text.toList.dropWhile (· == '$')))

/-- The source text of a span without white space. -/
def compactText (span : Span) : Parse String := do
  return String.ofList (((← read).slice span.start span.stop).filter (!isWhitespace ·))

def atMemberName : Parse Bool := do return (← kind?).any TokenKind.isMemberName

/-- A name, possibly qualified: `Foo`, `Foo\Bar`, `\Foo\Bar`, `namespace\Foo`,
`static`. -/
def qualifiedName : Parse Node := do
  let start ← here
  if ← check .kwStatic then
    let tok ← expect .kwStatic "'static'"
    return Node.leaf .name tok.span "static"
  if ← eats .kwNamespace then discard <| expect .backslash "'\\'"
  else discard <| eat .backslash
  if !(← atMemberName) then unexpected "name"
  discard advance
  repeated () fun _ => do
    if (← check .backslash) && ((← peek?).any TokenKind.isMemberName) then
      discard advance
      discard advance
      return .more ()
    return .done ()
  let span ← spanFrom start
  return Node.leaf .name span (← compactText span)

/-- One or more names separated by commas. -/
def nameList : Parse Node := do
  let start ← here
  let names ← separated .comma qualifiedName
  nodeFrom .nameList start names

/-- An identifier or a reserved word in the place of a member's name. -/
def memberName : Parse Node := do
  match (← get).current with
  | some tok =>
    if tok.kind.isMemberName then
      discard advance
      return Node.leaf .name tok.span tok.text
    else unexpected "name"
  | none => unexpected "name"

/-- The words in front of a class or a member, in lower case. -/
def modifiers : Parse (List Node) := do
  let words ← repeated [] fun words => do
    match (← get).current with
    | some tok =>
      if tok.kind.isModifier then
        discard advance
        return .more ((Node.leaf .modifier tok.span tok.text.toLower).inField "modifier" :: words)
      else return .done words
    | none => return .done words
  return words.reverse

/-- One alternative of a type hint. -/
def typeAtom : Parse Unit := do
  if ← checkAny [.kwArray, .kwCallable] then discard advance
  else discard qualifiedName

/-- A type hint, kept as its source text: `?int`, `int|string`, `A&B`,
`(A&B)|null`. -/
def typeHint : Parse Node := do
  let start ← here
  discard <| eat .question
  repeated () fun _ => do
    if ← eats .lParen then
      typeAtom
      repeated () fun _ => do
        if ← eats .amp then
          typeAtom
          return .more ()
        return .done ()
      discard <| expect .rParen "')'"
    else typeAtom
    if ← eats .pipe then return .more ()
    -- An ampersand before a variable passes a parameter by reference.
    if (← check .amp)
        && !((← peek?).any [TokenKind.variableName, .ellipsis, .amp].contains) then
      discard advance
      return .more ()
    return .done ()
  let span ← spanFrom start
  return Node.leaf .typeHint span (← compactText span)

end PhpCheck.Grammar
