import PhpCheck.Grammar.Expression

/-!
Statements.
-/

namespace PhpCheck.Grammar

/-! ### Control flow -/

/-- The further branches of a conditional statement. -/
def ifBranches (below : Below) : Parse (List Node) := do
  let clauses ← repeated [] fun clauses => do
    let start ← here
    if ← eats .kwElseif then
      let condition ← parenthesized below
      let body ← statementAsBlock below
      let clause ← nodeFrom .elseifClause start
        [condition.inField "condition", body.inField "body"]
      return .more (clause.inField "alternative" :: clauses)
    else if ← eats .kwElse then
      let body ← statementAsBlock below
      let clause ← nodeFrom .elseClause start [body.inField "body"]
      return .done (clause.inField "alternative" :: clauses)
    else return .done clauses
  return clauses.reverse

/-- The further branches in the form with colons. -/
def ifColonBranches (below : Below) (stops : List TokenKind) : Parse (List Node) := do
  let clauses ← repeated [] fun clauses => do
    let start ← here
    if ← eats .kwElseif then
      let condition ← parenthesized below
      discard <| expect .colon "':'"
      let body ← blockUntil below stops
      let clause ← nodeFrom .elseifClause start
        [condition.inField "condition", body.inField "body"]
      return .more (clause.inField "alternative" :: clauses)
    else if ← eats .kwElse then
      discard <| expect .colon "':'"
      let body ← blockUntil below [.kwEndif]
      let clause ← nodeFrom .elseClause start [body.inField "body"]
      return .more (clause.inField "alternative" :: clauses)
    else return .done clauses
  return clauses.reverse

def ifStatement (below : Below) : Parse Node := do
  let start := (← expect .kwIf "'if'").span.start
  let condition ← parenthesized below
  if ← eats .colon then
    let stops := [TokenKind.kwElseif, .kwElse, .kwEndif]
    let body ← blockUntil below stops
    let clauses ← ifColonBranches below stops
    discard <| expect .kwEndif "'endif'"
    expectSemicolon
    nodeFrom .ifStatement start
      ([condition.inField "condition", body.inField "body"] ++ clauses)
  else
    let body ← statementAsBlock below
    let clauses ← ifBranches below
    nodeFrom .ifStatement start
      ([condition.inField "condition", body.inField "body"] ++ clauses)

def whileStatement (below : Below) : Parse Node := do
  let start := (← expect .kwWhile "'while'").span.start
  let condition ← parenthesized below
  let body ← bodyUntil below .kwEndwhile
  nodeFrom .whileStatement start [condition.inField "condition", body.inField "body"]

def doWhileStatement (below : Below) : Parse Node := do
  let start := (← expect .kwDo "'do'").span.start
  let body ← statementAsBlock below
  discard <| expect .kwWhile "'while'"
  let condition ← parenthesized below
  expectSemicolon
  nodeFrom .doWhileStatement start [body.inField "body", condition.inField "condition"]

/-- One of the three parts in the head of a `for` statement. -/
def forClause (below : Below) (terminator : TokenKind) : Parse Node := do
  let start ← here
  let items ← expressionsUntil below [terminator]
  nodeFrom .expressionList start items

def forStatement (below : Below) : Parse Node := do
  let start := (← expect .kwFor "'for'").span.start
  discard <| expect .lParen "'('"
  let init ← forClause below .semicolon
  discard <| expect .semicolon "';'"
  let condition ← forClause below .semicolon
  discard <| expect .semicolon "';'"
  let update ← forClause below .rParen
  discard <| expect .rParen "')'"
  let body ← bodyUntil below .kwEndfor
  nodeFrom .forStatement start
    [init.inField "init", condition.inField "condition", update.inField "update",
     body.inField "body"]

def foreachStatement (below : Below) : Parse Node := do
  let start := (← expect .kwForeach "'foreach'").span.start
  discard <| expect .lParen "'('"
  let subject ← below.expression
  discard <| expect .kwAs "'as'"
  let firstRef ← eat .amp
  let first ← below (.expression .coalesce)
  let (key, value, reference) ← if ← eats .fatArrow then do
      let reference ← eat .amp
      pure (some first, ← below (.expression .coalesce), reference)
    else pure (none, first, firstRef)
  discard <| expect .rParen "')'"
  let body ← bodyUntil below .kwEndforeach
  nodeFrom .foreachStatement start
    (subject.inField "subject" :: optField "key" key ++ [value.inField "value"]
      ++ flagField "reference" reference ++ [body.inField "body"])

/-- The word that a case of a switch begins with, and the value it is for. -/
def switchLabel (below : Below) : Parse (NodeKind × List Node) := do
  if ← eats .kwCase then return (.caseClause, [(← below.expression).inField "value"])
  else if ← eats .kwDefault then return (.defaultClause, [])
  else unexpected "'case' or 'default'"

/-- A case of a switch with its statements. -/
def switchClause (below : Below) (stops : List TokenKind) : Parse Node := do
  let start ← here
  let (kind, value) ← switchLabel below
  if !(← eats .colon) then discard <| expect .semicolon "':'"
  let statements ← statementsUntil below stops
  nodeFrom kind start (value ++ statements)

def switchStatement (below : Below) : Parse Node := do
  let start := (← expect .kwSwitch "'switch'").span.start
  let subject ← parenthesized below
  let colon ← eats .colon
  if !colon then discard <| expect .lBrace "'\x7b'"
  let close := if colon then TokenKind.kwEndswitch else .rBrace
  discard <| eat .semicolon
  let clauses ← repeated [] fun clauses => do
    if (← atEnd) || (← check close) then return .done clauses
    return .more ((← switchClause below [.kwCase, .kwDefault, close]) :: clauses)
  discard <| expect close "end of switch"
  if colon then expectSemicolon
  nodeFrom .switchStatement start (subject.inField "subject" :: clauses.reverse)

def catchClause (below : Below) : Parse Node := do
  let start ← here
  discard advance
  discard <| expect .lParen "'('"
  let typesStart ← here
  let names ← separated .pipe qualifiedName
  let types ← nodeFrom .nameList typesStart names
  let caught ← if ← check .variableName then pure [(← simpleVariable).inField "variable"]
    else pure []
  discard <| expect .rParen "')'"
  let body ← braceBlock below
  nodeFrom .catchClause start (types.inField "types" :: caught ++ [body.inField "body"])

def tryStatement (below : Below) : Parse Node := do
  let start := (← expect .kwTry "'try'").span.start
  let body ← braceBlock below
  let catches ← repeated [] fun catches => do
    if ← check .kwCatch then
      return .more ((← catchClause below).inField "catch" :: catches)
    return .done catches
  let last ← here
  let final ← if ← eats .kwFinally then do
      let body ← braceBlock below
      pure [(← nodeFrom .finallyClause last [body.inField "body"]).inField "finally"]
    else pure []
  nodeFrom .tryStatement start (body.inField "body" :: catches.reverse ++ final)

def declareStatement (below : Below) : Parse Node := do
  let start := (← expect .kwDeclare "'declare'").span.start
  discard <| expect .lParen "'('"
  let directives ← separated .comma (constElement below)
  discard <| expect .rParen "')'"
  let body ← if ← checkAny [.lBrace, .colon] then
      pure [(← bodyUntil below .kwEnddeclare).inField "body"]
    else do
      expectSemicolon
      pure []
  nodeFrom .declareStatement start (directives.map (·.inField "directive") ++ body)

/-! ### Jumps -/

/-- An optional expression before the end of a statement. -/
def optionalOperand (below : Below) (field : String) : Parse (List Node) := do
  if (← checkAny [.semicolon, .closeTag]) || (← atEnd) then return []
  return [(← below.expression).inField field]

def returnStatement (below : Below) : Parse Node := do
  let start := (← expect .kwReturn "'return'").span.start
  let value ← optionalOperand below "value"
  expectSemicolon
  nodeFrom .returnStatement start value

/-- `break` or `continue` with an optional depth. -/
def loopJump (below : Below) (kind : NodeKind) : Parse Node := do
  let start ← here
  discard advance
  let depth ← optionalOperand below "depth"
  expectSemicolon
  nodeFrom kind start depth

def gotoStatement : Parse Node := do
  let start := (← expect .kwGoto "'goto'").span.start
  let label ← expect .identifier "label"
  expectSemicolon
  nodeFrom .gotoStatement start [(Node.leaf .name label.span label.text).inField "label"]

def labelStatement : Parse Node := do
  let label ← expect .identifier "label"
  discard <| expect .colon "':'"
  nodeFrom .labelStatement label.span.start
    [(Node.leaf .name label.span label.text).inField "label"]

/-! ### Namespaces and imports -/

def namespaceDefinition (below : Below) : Parse Node := do
  let start := (← expect .kwNamespace "'namespace'").span.start
  let name ← if ← check .lBrace then pure [] else pure [(← qualifiedName).inField "name"]
  let body ← if ← check .lBrace then pure [(← braceBlock below).inField "body"]
    else do
      expectSemicolon
      pure []
  nodeFrom .namespaceDefinition start (name ++ body)

/-- The word that says what an import brings in, when it is no class. -/
def importKind : Parse (Option Node) := do
  match (← get).current with
  | some tok =>
    if tok.kind == .kwFunction || tok.kind == .kwConst then
      discard advance
      return some (Node.leaf .modifier tok.span tok.text.toLower)
    return none
  | none => return none

/-- The rest of an import after its name. -/
def importClause (start : Nat) (name : Node) (kind : Option Node) : Parse Node := do
  let shortName ← if ← eats .kwAs then pure [(← memberName).inField "alias"] else pure []
  nodeFrom .useClause start (name.inField "name" :: shortName ++ optField "kind" kind)

/-- The imports of a group, each under its full name. -/
def importGroup (head : Node) : Parse (List Node) := do
  let stem := (head.textD.toList.reverse.dropWhile (· == '\\')).reverse
  let clauses ← commaList (check .rBrace) do
    let start ← here
    let kind ← importKind
    let inner ← qualifiedName
    let full := String.ofList stem ++ "\\" ++ inner.textD
    importClause start (Node.leaf .name (head.span.merge inner.span) full) kind
  discard <| expect .rBrace "'\x7d'"
  return clauses

def useDeclaration : Parse Node := do
  let start := (← expect .kwUse "'use'").span.start
  let kind ← importKind
  let groups ← separated .comma do
    let clauseStart ← here
    let name ← qualifiedName
    if (← check .backslash) && (← peek?) == some .lBrace then
      discard advance
      discard advance
      importGroup name
    else if (← check .lBrace) && name.textD.toList.getLast? == some '\\' then
      discard advance
      importGroup name
    else return [← importClause clauseStart name none]
  expectSemicolon
  nodeFrom .useDeclaration start (optField "kind" kind ++ groups.flatten.map (·.inField "clause"))

/-! ### Simple statements -/

def expressionStatement (below : Below) : Parse Node := do
  let start ← here
  let doc ← takeDoc
  let value ← below.expression
  expectSemicolon
  nodeFrom .expressionStatement start (value.inField "expression" :: optField "doc" doc)

/-- Output of expressions, by keyword or by the tag that stands for it. -/
def echoStatement (below : Below) (opening : TokenKind) (what : String) : Parse Node := do
  let start := (← expect opening what).span.start
  let values ← expressionsUntil below [.semicolon, .closeTag]
  expectSemicolon
  nodeFrom .echoStatement start values

def globalDeclaration : Parse Node := do
  let start := (← expect .kwGlobal "'global'").span.start
  let names ← separated .comma simpleVariable
  expectSemicolon
  nodeFrom .globalDeclaration start names

def staticDeclaration (below : Below) : Parse Node := do
  let start := (← expect .kwStatic "'static'").span.start
  let names ← separated .comma (initialized below .staticVariable)
  expectSemicolon
  nodeFrom .staticDeclaration start names

def unsetStatement (below : Below) : Parse Node := do
  let start := (← expect .kwUnset "'unset'").span.start
  discard <| expect .lParen "'('"
  let targets ← expressionsUntil below [.rParen]
  discard <| expect .rParen "')'"
  expectSemicolon
  nodeFrom .unsetStatement start targets

/-! ### Any statement -/

/-- Whether a function keyword at hand begins a declaration, not a closure. -/
def atFunctionDeclaration : Parse Bool := do
  match ← peek? with
  | some .amp => return (← peekNth 1).any (·.kind.isMemberName)
  | some kind => return kind.isMemberName
  | none => return false

/-- Whether the first token that is no class modifier is the class keyword. -/
def modifiersThenClass : List Lexeme → Bool
  | [] => false
  | .error _ :: rest => modifiersThenClass rest
  | .ok tok :: rest =>
    if tok.kind.isComment then modifiersThenClass rest
    else match tok.kind with
      | .kwAbstract | .kwFinal | .kwReadonly => modifiersThenClass rest
      | .kwClass => true
      | _ => false

def atClassDeclaration : Parse Bool := do
  if ← check .kwClass then return (← peek?) == some .identifier
  return modifiersThenClass (← get).rest

def statement (below : Below) : Parse Node := do
  match ← kind? with
  | none => unexpected "statement"
  | some .lBrace => braceBlock below
  | some .semicolon =>
    let tok ← expect .semicolon "';'"
    return Node.ofKind .emptyStatement tok.span []
  | some .inlineHtml =>
    let tok ← expect .inlineHtml "inline HTML"
    return Node.leaf .inlineHtml tok.span tok.text
  | some .openTagWithEcho => echoStatement below .openTagWithEcho "'<?='"
  | some .kwIf => ifStatement below
  | some .kwWhile => whileStatement below
  | some .kwDo => doWhileStatement below
  | some .kwFor => forStatement below
  | some .kwForeach => foreachStatement below
  | some .kwSwitch => switchStatement below
  | some .kwTry => tryStatement below
  | some .kwDeclare => declareStatement below
  | some .kwReturn => returnStatement below
  | some .kwBreak => loopJump below .breakStatement
  | some .kwContinue => loopJump below .continueStatement
  | some .kwGoto => gotoStatement
  | some .kwFunction =>
    if ← atFunctionDeclaration then functionDefinition below else expressionStatement below
  | some .kwAbstract | some .kwFinal | some .kwReadonly | some .kwClass =>
    if ← atClassDeclaration then classDeclaration below else expressionStatement below
  | some .kwInterface => interfaceDeclaration below
  | some .kwTrait => traitDeclaration below
  | some .kwConst => constDeclaration below
  | some .kwNamespace =>
    if (← peek?) == some .backslash then expressionStatement below else namespaceDefinition below
  | some .kwUse => useDeclaration
  | some .kwEcho => echoStatement below .kwEcho "'echo'"
  | some .kwGlobal => globalDeclaration
  | some .kwStatic =>
    if (← peek?) == some .variableName then staticDeclaration below else expressionStatement below
  | some .kwUnset => unsetStatement below
  | some .identifier =>
    if (← peek?) == some .colon then labelStatement else expressionStatement below
  | some _ => expressionStatement below

end PhpCheck.Grammar
