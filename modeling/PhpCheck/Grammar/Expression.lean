import PhpCheck.Grammar.Declaration

/-!
Expressions.  Binary operators are read by climbing over their binding
strengths; an assignment binds wherever its left side can be assigned to.
-/

namespace PhpCheck.Grammar

/-! ### Arguments -/

def argument (below : Below) : Parse Node := do
  let start ← here
  let mark ← match ← eat .ellipsis with
    | some tok => pure [(flag tok.span).inField "spread"]
    | none =>
      if (← atMemberName) && (← peek?) == some .colon then
        let name ← memberName
        discard advance
        pure [name.inField "name"]
      else pure []
  let value ← below.expression
  nodeFrom .argument start (mark ++ [value.inField "value"])

/-- Arguments in parentheses.  A lone ellipsis marks a reference to the function
itself. -/
def argumentList (below : Below) : Parse Node := do
  let start := (← expect .lParen "'('").span.start
  let mark ← if (← check .ellipsis) && (← peek?) == some .rParen then
      pure (flagField "callable" (← advance))
    else pure []
  let arguments ← commaList (check .rParen) (argument below)
  discard <| expect .rParen "')'"
  nodeFrom .argumentList start (mark ++ arguments)

/-! ### Arrays -/

def arrayElement (below : Below) (start : Nat) : Parse Node := do
  match ← eat .ellipsis with
  | some tok =>
    let value ← below.expression
    nodeFrom .arrayElement start [(flag tok.span).inField "spread", value.inField "value"]
  | none =>
    let byRef ← eat .amp
    let first ← below.expression
    if byRef.isNone && (← check .fatArrow) then
      discard advance
      let reference ← eat .amp
      let value ← below.expression
      nodeFrom .arrayElement start (first.inField "key" :: flagField "reference" reference
        ++ [value.inField "value"])
    else
      nodeFrom .arrayElement start (flagField "reference" byRef ++ [first.inField "value"])

/-- Elements up to `close`; an empty slot is an element without a value. -/
def arrayElements (below : Below) (close : TokenKind) : Parse (List Node) := do
  let elements ← repeated [] fun elements => do
    if (← atEnd) || (← check close) then return .done elements
    let start ← here
    if ← check .comma then
      let slot ← nodeFrom .arrayElement start []
      discard advance
      return .more (slot :: elements)
    let elements := (← arrayElement below start) :: elements
    if ← eats .comma then return .more elements
    return .done elements
  return elements.reverse

def arrayLiteral (below : Below) : Parse Node := do
  let start ← here
  let close ← if ← eats .kwArray then do
      discard <| expect .lParen "'('"
      pure TokenKind.rParen
    else do
      discard <| expect .lBracket "'['"
      pure TokenKind.rBracket
  let elements ← arrayElements below close
  discard <| expect close "end of array"
  nodeFrom .arrayLiteral start elements

def listExpression (below : Below) : Parse Node := do
  let start := (← expect .kwList "'list'").span.start
  discard <| expect .lParen "'('"
  let elements ← arrayElements below .rParen
  discard <| expect .rParen "')'"
  nodeFrom .listExpression start elements

/-! ### Functions as values -/

def closureUse : Parse Node := do
  let start ← here
  let reference ← eat .amp
  let name ← simpleVariable
  nodeFrom .closureUse start (name.inField "name" :: flagField "reference" reference)

/-- Variables taken over from the scope around a closure. -/
def closureUses : Parse Node := do
  let start := (← expect .kwUse "'use'").span.start
  discard <| expect .lParen "'('"
  let uses ← commaList (check .rParen) closureUse
  discard <| expect .rParen "')'"
  nodeFrom .closureUseList start uses

/-- A closure or an arrow function; `static` is the place of that word before
it. -/
def closure (below : Below) (static : Option Span) : Parse Node := do
  let start ← match static with
    | some span => pure span.start
    | none => here
  let isArrow ← check .kwFn
  discard advance
  let fixed := match static with
    | some span => [(flag span).inField "static"]
    | none => []
  let reference ← eat .amp
  let parameters ← parameterList below
  let uses ← if !isArrow && (← check .kwUse) then pure [(← closureUses).inField "uses"] else pure []
  let result ← returnType
  let body ← if isArrow then do
      discard <| expect .fatArrow "'=>'"
      below (.expression .assign)
    else braceBlock below
  nodeFrom (if isArrow then .arrowFunction else .anonymousFunction) start
    (fixed ++ flagField "reference" reference ++ [parameters.inField "parameters"] ++ uses
      ++ result ++ [body.inField "body"])

/-! ### Variables and names in expressions -/

/-- `$$name` or a braced expression after a dollar sign.  The fuel bounds the
number of dollar signs in a row. -/
def variableVariable (below : Below) : (fuel : Nat) → Parse Node
  | 0 => stall
  | fuel + 1 => do
    let start := (← expect .dollar "'$'").span.start
    let name ← if ← eats .lBrace then do
        let inner ← below.expression
        discard <| expect .rBrace "'\x7d'"
        pure inner
      else if ← check .dollar then variableVariable below fuel
      else simpleVariable
    nodeFrom .variableVariable start [name.inField "name"]

def magicConstants : List String :=
  ["__LINE__", "__FILE__", "__DIR__", "__FUNCTION__", "__CLASS__", "__TRAIT__", "__METHOD__",
   "__NAMESPACE__"]

/-- A name that stands for a literal becomes that literal. -/
def classifyName (name : Node) : Node :=
  let bare := name.textD.toList.dropWhile (· == '\\')
  if bare.contains '\\' then name
  else
    let lower := (String.ofList bare).toLower
    let upper := (String.ofList bare).toUpper
    if lower == "true" || lower == "false" then Node.leaf .booleanLiteral name.span lower
    else if lower == "null" then Node.ofKind .nullLiteral name.span []
    else if magicConstants.contains upper then Node.leaf .magicConstant name.span upper
    else name

/-! ### Primary expressions -/

def matchArm (below : Below) : Parse Node := do
  let start ← here
  let heads ← match ← eat .kwDefault with
    | some tok => pure [(flag tok.span).inField "default"]
    | none => do
      let conditions ← repeated [] fun conditions => do
        let conditions := (← below.expression).inField "condition" :: conditions
        if ← eats .comma then
          if ← check .fatArrow then return .done conditions
          return .more conditions
        return .done conditions
      pure conditions.reverse
  discard <| expect .fatArrow "'=>'"
  let body ← below.expression
  nodeFrom .matchArm start (heads ++ [body.inField "body"])

def matchExpression (below : Below) : Parse Node := do
  let start := (← expect .kwMatch "'match'").span.start
  let subject ← parenthesized below
  discard <| expect .lBrace "'\x7b'"
  let arms ← commaList (check .rBrace) (matchArm below)
  discard <| expect .rBrace "'\x7d'"
  nodeFrom .matchExpression start (subject.inField "subject" :: arms.map (·.inField "arm"))

def exitExpression (below : Below) (start : Nat) : Parse Node := do
  discard advance
  let value ← if ← eats .lParen then do
      let value ← if ← check .rParen then pure [] else pure [(← below.expression).inField "value"]
      discard <| expect .rParen "')'"
      pure value
    else pure []
  nodeFrom .exitExpression start value

def primary (below : Below) : Parse Node := do
  let start ← here
  match ← kind? with
  | some .variableName => simpleVariable
  | some .dollar => variableVariable below ((← get).rest.length + 1)
  | some .decimalLiteral | some .hexLiteral | some .binaryLiteral | some .octalLiteral
  | some .floatLiteral => number
  | some .stringLiteral => plainString
  | some .templateString | some .shellCommand => templateString below
  | some .heredoc | some .nowdoc => heredocString below
  | some .lBracket => arrayLiteral below
  | some .kwArray =>
    if (← peek?) == some .lParen then arrayLiteral below else unexpected "expression"
  | some .kwList => listExpression below
  | some .lParen => parenthesized below
  | some .kwIsset =>
    discard advance
    discard <| expect .lParen "'('"
    let values ← expressionsUntil below [.rParen]
    discard <| expect .rParen "')'"
    nodeFrom .issetExpression start values
  | some .kwEmpty =>
    discard advance
    let value ← parenthesized below
    nodeFrom .emptyExpression start [value.inField "value"]
  | some .kwEval =>
    discard advance
    let value ← parenthesized below
    nodeFrom .evalExpression start [value.inField "value"]
  | some .kwExit | some .kwDie => exitExpression below start
  | some .kwMatch => matchExpression below
  | some .identifier | some .backslash | some .kwNamespace | some .kwStatic =>
    return classifyName (← qualifiedName)
  | _ => unexpected "expression"

/-! ### What may follow an expression -/

/-- An expression in braces. -/
def braced (below : Below) : Parse Node := do
  let value ← below.expression
  discard <| expect .rBrace "'\x7d'"
  return value

/-- The name after an arrow: a word, a variable or an expression in braces. -/
def memberSelector (below : Below) : Parse Node := do
  if ← check .variableName then simpleVariable
  else if ← eats .lBrace then braced below
  else memberName

/-- What follows a double colon: a property, a constant or a call. -/
def staticMember (below : Below) (scope : Node) (start : Nat) : Parse Node := do
  if ← check .variableName then
    let name ← simpleVariable
    nodeFrom .staticPropertyAccess start [scope.inField "scope", name.inField "name"]
  else
    let name ← if ← eats .lBrace then braced below else memberName
    let parts := [scope.inField "scope", name.inField "name"]
    if ← check .lParen then
      let arguments ← argumentList below
      nodeFrom .staticCallExpression start (parts ++ [arguments.inField "arguments"])
    else nodeFrom .classConstantAccess start parts

/-- A property or a method call after an arrow. -/
def objectMember (below : Below) (object : Node) (start : Nat) (arrow : Option Token) :
    Parse Node := do
  let name ← memberSelector below
  let parts := [object.inField "object", name.inField "name"]
  let nullsafe := flagField "nullsafe" (arrow.filter (·.kind == .nullsafeArrow))
  if ← check .lParen then
    let arguments ← argumentList below
    nodeFrom .methodCallExpression start (parts ++ [arguments.inField "arguments"] ++ nullsafe)
  else nodeFrom .propertyAccess start (parts ++ nullsafe)

/-- Calls, member accesses, subscripts and increments after an expression. -/
def postfixChain (below : Below) (first : Node) : Parse Node :=
  repeated first fun left => do
    let start := left.span.start
    match ← kind? with
    | some .lParen =>
      let arguments ← argumentList below
      return .more (← nodeFrom .callExpression start
        [left.inField "function", arguments.inField "arguments"])
    | some .lBracket =>
      discard advance
      let index ← if ← check .rBracket then pure []
        else pure [(← below.expression).inField "index"]
      discard <| expect .rBracket "']'"
      return .more (← nodeFrom .subscriptExpression start (left.inField "object" :: index))
    | some .arrow | some .nullsafeArrow =>
      let arrow ← advance
      return .more (← objectMember below left start arrow)
    | some .doubleColon =>
      discard advance
      return .more (← staticMember below left start)
    | some .plusPlus | some .minusMinus =>
      if left.kind.isAssignable then
        match ← advance with
        | some op =>
          return .more (← nodeFrom .postfixUpdateExpression start
            [left.inField "operand", (Node.leaf .operator op.span op.text).inField "operator"])
        | none => return .done left
      else return .done left
    | _ => return .done left

/-! ### Objects -/

/-- The class of a `new` expression that is given by a variable.  No call may
follow it, since its parentheses hold the arguments. -/
def newClassReference (below : Below) : Parse Node := do
  let start ← here
  let first ← if ← check .dollar then primary below else simpleVariable
  repeated first fun value => do
    if ← checkAny [.arrow, .nullsafeArrow] then
      discard advance
      let name ← memberName
      return .more (← nodeFrom .propertyAccess start
        [value.inField "object", name.inField "name"])
    else if ← eats .doubleColon then
      let name ← simpleVariable
      return .more (← nodeFrom .staticPropertyAccess start
        [value.inField "scope", name.inField "name"])
    else if ← eats .lBracket then
      let index ← below.expression
      discard <| expect .rBracket "']'"
      return .more (← nodeFrom .subscriptExpression start
        [value.inField "object", index.inField "index"])
    else return .done value

def anonymousClass (below : Below) : Parse Node := do
  let start ← here
  let doc ← takeDoc
  discard <| expect .kwClass "'class'"
  let arguments ← if ← check .lParen then pure [(← argumentList below).inField "arguments"]
    else pure []
  let parents ← heritage
  let body ← classBody below
  nodeFrom .anonymousClass start
    (arguments ++ parents ++ [body.inField "body"] ++ optField "doc" doc)

def newExpression (below : Below) : Parse Node := do
  let start := (← expect .kwNew "'new'").span.start
  if ← check .kwClass then
    let declared ← anonymousClass below
    nodeFrom .newExpression start [declared.inField "class"]
  else
    let named ← if ← checkAny [.identifier, .backslash, .kwNamespace, .kwStatic] then qualifiedName
      else if ← check .lParen then parenthesized below
      else newClassReference below
    let arguments ← if ← check .lParen then pure [(← argumentList below).inField "arguments"]
      else pure []
    nodeFrom .newExpression start (named.inField "class" :: arguments)

/-! ### Unary operators and keywords -/

/-- The types that an expression may be cast to, by the word in parentheses. -/
def castType? (word : String) : Option String :=
  let word := word.toLower
  if ["int", "integer"].contains word then some "int"
  else if ["bool", "boolean"].contains word then some "bool"
  else if ["float", "double", "real"].contains word then some "float"
  else if ["string", "binary"].contains word then some "string"
  else if word == "array" then some "array"
  else if word == "object" then some "object"
  else if word == "unset" then some "null"
  else none

/-- The cast that a parenthesis at hand begins, if it begins one. -/
def castHead? : Parse (Option String) := do
  match ← peekNth 0 with
  | some tok =>
    if (tok.kind == .identifier || tok.kind == .kwArray)
        && (← peekNth 1).any (·.kind == .rParen) then
      return castType? tok.text
    return none
  | none => return none

def castExpression (below : Below) (type : String) : Parse Node := do
  let start ← here
  discard advance
  let word ← advance
  discard <| expect .rParen "')'"
  let typeSpan ← match word with
    | some tok => pure tok.span
    | none => currentSpan
  let operand ← below (.expression .unary)
  nodeFrom .castExpression start
    [(Node.leaf .typeHint typeSpan type).inField "type", operand.inField "operand"]

def yieldExpression (below : Below) : Parse Node := do
  let start := (← expect .kwYield "'yield'").span.start
  let isFrom := (← get).current.any fun tok =>
    tok.kind == .identifier && tok.text.toLower == "from"
  let parts ← if isFrom then do
      let word ← advance
      let value ← below (.expression .assign)
      pure (flagField "from" word ++ [value.inField "value"])
    else if (← checkAny [.semicolon, .rParen, .rBracket, .comma, .closeTag]) || (← atEnd) then
      pure []
    else do
      let first ← below (.expression .ternary)
      if ← eats .fatArrow then
        let value ← below (.expression .ternary)
        pure [first.inField "key", value.inField "value"]
      else pure [first.inField "value"]
  nodeFrom .yieldExpression start parts

/-- A keyword and its operand, which becomes the node's value. -/
def keywordOperand (below : Below) (kind : NodeKind) (min : Precedence) : Parse Node := do
  let start ← here
  discard advance
  let value ← below (.expression min)
  nodeFrom kind start [value.inField "value"]

/-- An operator in front of its operand. -/
def operatorOperand (below : Below) (kind : NodeKind) (min : Precedence) : Parse Node := do
  let start ← here
  match ← advance with
  | none => unexpected "operator"
  | some op =>
    let operand ← below (.expression min)
    nodeFrom kind start
      [(Node.leaf .operator op.span op.text).inField "operator", operand.inField "operand"]

def includeExpression (below : Below) : Parse Node := do
  let start ← here
  match ← advance with
  | none => unexpected "include"
  | some word =>
    let value ← below (.expression .assign)
    nodeFrom .includeExpression start
      [(Node.leaf .modifier word.span word.text.toLower).inField "kind", value.inField "value"]

def unary (below : Below) : Parse Node := do
  let start ← here
  match ← kind? with
  | none => unexpected "expression"
  | some .bang => operatorOperand below .unaryExpression .negation
  | some .minus | some .plus | some .tilde => operatorOperand below .unaryExpression .unary
  | some .atSign =>
    discard advance
    let operand ← below (.expression .unary)
    nodeFrom .errorSuppression start [operand.inField "operand"]
  | some .plusPlus | some .minusMinus => operatorOperand below .prefixUpdateExpression .unary
  | some .lParen =>
    match ← castHead? with
    | some type => castExpression below type
    | none => postfixChain below (← primary below)
  | some .kwNew => postfixChain below (← newExpression below)
  | some .kwClone => keywordOperand below .cloneExpression .unary
  | some .kwPrint => keywordOperand below .printExpression .assign
  | some .kwThrow => keywordOperand below .throwExpression .assign
  | some .kwInclude | some .kwIncludeOnce | some .kwRequire | some .kwRequireOnce =>
    includeExpression below
  | some .kwYield => yieldExpression below
  | some .kwFunction | some .kwFn => closure below none
  | some .kwStatic =>
    if (← peek?).any [TokenKind.kwFunction, .kwFn].contains then
      match ← advance with
      | some word => closure below (some word.span)
      | none => unexpected "'static'"
    else postfixChain below (← primary below)
  | some _ => postfixChain below (← primary below)

/-! ### Binary operators -/

/-- An assignment to `left`, whose operator is the current token. -/
def assignment (below : Below) (left : Node) : Parse Node := do
  match ← advance with
  | none => unexpected "assignment operator"
  | some op =>
    if op.kind == .eq then
      let byRef ← eats .amp
      let right ← below (.expression .assign)
      return Node.ofKind (if byRef then .referenceAssignment else .assignment)
        (left.span.merge right.span) [left.inField "left", right.inField "right"]
    let operator := Node.leaf .operator op.span (op.kind.compoundOperator?.getD "=")
    let right ← below (.expression .assign)
    return Node.ofKind .compoundAssignment (left.span.merge right.span)
      [left.inField "left", operator.inField "operator", right.inField "right"]

/-- A conditional expression, with or without a middle part. -/
def ternary (below : Below) (condition : Node) : Parse Node := do
  discard <| expect .question "'?'"
  let consequence ← if ← check .colon then pure []
    else pure [(← below (.expression .assign)).inField "consequence"]
  discard <| expect .colon "':'"
  let alternative ← below (.expression .coalesce)
  return Node.ofKind .ternaryExpression (condition.span.merge alternative.span)
    (condition.inField "condition" :: consequence ++ [alternative.inField "alternative"])

/-- The right side of `instanceof`: a class name or an expression for one. -/
def instanceofTarget (below : Below) : Parse Node := do
  if ← checkAny [.identifier, .backslash, .kwStatic, .kwNamespace] then qualifiedName
  else postfixChain below (← primary below)

/-- A binary operation on `left`, whose operator is the current token. -/
def binaryOperation (below : Below) (left : Node) (prec : Precedence) (assoc : Associativity) :
    Parse Node := do
  match ← advance with
  | none => return left
  | some op =>
    let operator := Node.leaf .operator op.span op.text.toLower
    let right ← if op.kind == .kwInstanceof then instanceofTarget below
      else below (.expression (if assoc == .right then prec else prec.next))
    return Node.ofKind .binaryExpression (left.span.merge right.span)
      [left.inField "left", operator.inField "operator", right.inField "right"]

/-- An expression whose operators bind at least as tightly as `min`. -/
def binary (below : Below) (min : Precedence) : Parse Node := do
  repeated (← unary below) fun left => do
    match ← kind? with
    | none => return .done left
    | some kind =>
      if kind.isAssignment && left.kind.isAssignable then
        return .more (← assignment below left)
      else if kind == .question && min.rank ≤ Precedence.ternary.rank then
        return .more (← ternary below left)
      else match kind.binary? with
        | none => return .done left
        | some (prec, assoc) =>
          if prec.rank < min.rank then return .done left
          return .more (← binaryOperation below left prec assoc)

end PhpCheck.Grammar
