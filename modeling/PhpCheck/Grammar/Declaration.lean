import PhpCheck.Grammar.Block

/-!
Functions, classes, interfaces, traits and constants.
-/

namespace PhpCheck.Grammar

/-! ### Parameters -/

def parameter (below : Below) : Parse Node := do
  let start ← here
  let visibility := (← modifiers).map (·.inField "visibility")
  let type ← if ← checkAny [.variableName, .amp, .ellipsis] then pure []
    else pure [(← typeHint).inField "type"]
  let reference ← eat .amp
  let variadic ← eat .ellipsis
  let name ← simpleVariable
  let default ← if ← eats .eq then pure [(← below.expression).inField "default"] else pure []
  nodeFrom .parameter start (visibility ++ type ++ flagField "reference" reference
    ++ flagField "variadic" variadic ++ [name.inField "name"] ++ default)

def parameterList (below : Below) : Parse Node := do
  let start := (← expect .lParen "'('").span.start
  let parameters ← commaList (check .rParen) (parameter below)
  discard <| expect .rParen "')'"
  nodeFrom .parameterList start parameters

/-- A return type after a colon. -/
def returnType : Parse (List Node) := do
  if ← eats .colon then return [(← typeHint).inField "return_type"]
  return []

def functionDefinition (below : Below) : Parse Node := do
  let start ← here
  let doc ← takeDoc
  discard <| expect .kwFunction "'function'"
  let reference ← eat .amp
  let name ← memberName
  let parameters ← parameterList below
  let result ← returnType
  let body ← braceBlock below
  nodeFrom .functionDefinition start (flagField "reference" reference
    ++ [name.inField "name", parameters.inField "parameters"] ++ result
    ++ [body.inField "body"] ++ optField "doc" doc)

/-! ### Constants and properties -/

/-- `NAME = value`. -/
def constElement (below : Below) : Parse Node := do
  let start ← here
  let name ← memberName
  discard <| expect .eq "'='"
  let value ← below.expression
  nodeFrom .constElement start [name.inField "name", value.inField "value"]

def constDeclaration (below : Below) : Parse Node := do
  let start ← here
  let doc ← takeDoc
  discard <| expect .kwConst "'const'"
  let elements ← separated .comma (constElement below)
  expectSemicolon
  nodeFrom .constDeclaration start (elements.map (·.inField "element") ++ optField "doc" doc)

/-- A variable with an optional initial value, as a node of a kind. -/
def initialized (below : Below) (kind : NodeKind) : Parse Node := do
  let start ← here
  let name ← simpleVariable
  let default ← if ← eats .eq then pure [(← below.expression).inField "default"] else pure []
  nodeFrom kind start (name.inField "name" :: default)

/-! ### Traits in a class -/

/-- `A::m insteadof B` or `m as protected n`. -/
def traitAdaptation : Parse Node := do
  let start ← here
  let first ← qualifiedName
  let (traitName, method) ← if ← eats .doubleColon then pure (some first, ← memberName)
    else pure (none, first)
  if ← eats .kwInsteadof then
    match traitName with
    | none => throw { fault := .insteadofWithoutTrait, span := ← spanFrom start }
    | some traitName =>
      let excluded ← nameList
      expectSemicolon
      nodeFrom .traitPrecedence start
        [traitName.inField "trait", method.inField "method", excluded.inField "insteadof"]
  else
    discard <| expect .kwAs "'as' or 'insteadof'"
    let visibility ← match (← get).current with
      | some tok =>
        if [TokenKind.kwPublic, .kwProtected, .kwPrivate].contains tok.kind then
          discard advance
          pure [(Node.leaf .modifier tok.span tok.text.toLower).inField "modifier"]
        else pure []
      | none => pure []
    let newName ← if ← check .semicolon then pure [] else pure [(← memberName).inField "alias"]
    expectSemicolon
    nodeFrom .traitAlias start
      (optField "trait" traitName ++ [method.inField "method"] ++ visibility ++ newName)

def traitUse : Parse Node := do
  let start := (← expect .kwUse "'use'").span.start
  let traits ← nameList
  let adaptations ← if ← eats .lBrace then do
      let found ← repeated [] fun found => do
        if (← atEnd) || (← check .rBrace) then return .done found
        return .more ((← traitAdaptation).inField "adaptation" :: found)
      discard <| expect .rBrace "'\x7d'"
      pure found.reverse
    else do
      expectSemicolon
      pure []
  nodeFrom .traitUse start (traits.inField "traits" :: adaptations)

/-! ### Class members -/

def constMember (below : Below) (start : Nat) (words : List Node) (doc : Option Node) :
    Parse Node := do
  discard advance
  let type ← if (← peek?) == some .eq then pure [] else pure [(← typeHint).inField "type"]
  let elements ← separated .comma (constElement below)
  expectSemicolon
  nodeFrom .classConstDeclaration start
    (words ++ type ++ elements.map (·.inField "element") ++ optField "doc" doc)

def methodMember (below : Below) (start : Nat) (words : List Node) (doc : Option Node) :
    Parse Node := do
  discard advance
  let reference ← eat .amp
  let name ← memberName
  let parameters ← parameterList below
  let result ← returnType
  let body ← if ← check .lBrace then pure [(← braceBlock below).inField "body"]
    else do
      expectSemicolon
      pure []
  nodeFrom .methodDeclaration start (words ++ flagField "reference" reference
    ++ [name.inField "name", parameters.inField "parameters"] ++ result ++ body
    ++ optField "doc" doc)

def propertyMember (below : Below) (start : Nat) (words : List Node) (doc : Option Node) :
    Parse Node := do
  let type ← if ← check .variableName then pure [] else pure [(← typeHint).inField "type"]
  let elements ← separated .comma (initialized below .propertyElement)
  expectSemicolon
  nodeFrom .propertyDeclaration start
    (words ++ type ++ elements.map (·.inField "element") ++ optField "doc" doc)

/-- A member of a class body; nothing for a stray semicolon. -/
def classMember (below : Below) : Parse (Option Node) := do
  if ← eats .semicolon then return none
  if ← check .kwUse then return some (← traitUse)
  let start ← here
  let doc ← takeDoc
  let words ← modifiers
  match ← kind? with
  | some .kwConst => return some (← constMember below start words doc)
  | some .kwFunction => return some (← methodMember below start words doc)
  | some .kwCase => throw { fault := .enumCase, span := ← currentSpan }
  | kind =>
    if words.isEmpty && kind != some .variableName then unexpected "class member"
    return some (← propertyMember below start words doc)

/-- Skips to the next member: past a semicolon or a balanced block. -/
def synchronizeMember : Parse Unit := do
  discard <| repeated 0 fun (depth : Nat) => do
    match ← kind? with
    | none => return .done depth
    | some .lBrace =>
      discard advance
      return .more (depth + 1)
    | some .rBrace =>
      if depth = 0 then return .done depth
      discard advance
      if depth = 1 then return .done 0
      return .more (depth - 1)
    | some .semicolon =>
      discard advance
      if depth = 0 then return .done depth
      return .more depth
    | some _ =>
      discard advance
      return .more depth

/-- Members between braces. -/
def classBody (below : Below) : Parse Node := do
  let start := (← expect .lBrace "'\x7b'").span.start
  let members ← repeated [] fun members => do
    if (← atEnd) || (← check .rBrace) then return .done members
    let memberStart ← here
    match ← attempt (classMember below) with
    | .ok (some member) => return .more (member :: members)
    | .ok none => return .more members
    | .error e =>
      note e
      synchronizeMember
      return .more ((← nodeFrom .error memberStart []) :: members)
  discard <| expect .rBrace "'\x7d'"
  nodeFrom .classBody start members.reverse

/-! ### Classes -/

/-- The class that is extended and the interfaces that are implemented. -/
def heritage : Parse (List Node) := do
  let parent ← if ← eats .kwExtends then pure [(← qualifiedName).inField "extends"] else pure []
  let interfaces ← if ← eats .kwImplements then pure [(← nameList).inField "implements"]
    else pure []
  return parent ++ interfaces

def classDeclaration (below : Below) : Parse Node := do
  let start ← here
  let doc ← takeDoc
  let words ← modifiers
  discard <| expect .kwClass "'class'"
  let name ← memberName
  let parents ← heritage
  let body ← classBody below
  nodeFrom .classDeclaration start (words ++ [name.inField "name"] ++ parents
    ++ [body.inField "body"] ++ optField "doc" doc)

def interfaceDeclaration (below : Below) : Parse Node := do
  let start ← here
  let doc ← takeDoc
  discard <| expect .kwInterface "'interface'"
  let name ← memberName
  let parents ← if ← eats .kwExtends then pure [(← nameList).inField "extends"] else pure []
  let body ← classBody below
  nodeFrom .interfaceDeclaration start
    ([name.inField "name"] ++ parents ++ [body.inField "body"] ++ optField "doc" doc)

def traitDeclaration (below : Below) : Parse Node := do
  let start ← here
  let doc ← takeDoc
  discard <| expect .kwTrait "'trait'"
  let name ← memberName
  let body ← classBody below
  nodeFrom .traitDeclaration start
    ([name.inField "name", body.inField "body"] ++ optField "doc" doc)

end PhpCheck.Grammar
