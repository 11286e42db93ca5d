import PhpCheck.Grammar.Literal

/-!
Sequences of statements, with recovery: a statement that fails becomes an error
node and reading goes on at the next statement boundary.
-/

namespace PhpCheck.Grammar

/-- Tokens at which reading goes on after a failed statement. -/
def boundaries : List TokenKind :=
  [.rBrace, .closeTag, .kwFunction, .kwClass, .kwInterface, .kwTrait, .kwIf, .kwFor, .kwForeach,
   .kwWhile, .kwReturn, .kwTry, .kwNamespace, .kwUse]

/-- Skips at least one token, up to a statement boundary or past a semicolon. -/
def synchronize : Parse Unit := do
  let last ← advance
  discard <| repeated last fun last => do
    if ← atEnd then return .done last
    if last.any (·.kind == .semicolon) then return .done last
    if ← checkAny boundaries then return .done last
    return .more (← advance)

/-- Statements up to one of the `terminators`, which is not consumed, or to the
end of the text. -/
def statementsUntil (below : Below) (terminators : List TokenKind) : Parse (List Node) := do
  let statements ← repeated [] fun done => do
    match ← kind? with
    | none => return .done done
    | some kind =>
      if terminators.contains kind then return .done done
      if kind == .openTag || kind == .closeTag then
        discard advance
        return .more done
      let start ← here
      match ← attempt (below .statement) with
      | .ok node => return .more (node :: done)
      | .error e =>
        note e
        synchronize
        return .more ((← nodeFrom .error start []) :: done)
  return statements.reverse

/-- The statements up to one of the `terminators` as a block. -/
def blockUntil (below : Below) (terminators : List TokenKind) : Parse Node := do
  let start ← here
  let statements ← statementsUntil below terminators
  nodeFrom .block start statements

/-- Statements between braces. -/
def braceBlock (below : Below) : Parse Node := do
  let start := (← expect .lBrace "'\x7b'").span.start
  let statements ← statementsUntil below [.rBrace]
  discard <| expect .rBrace "'\x7d'"
  nodeFrom .block start statements

/-- One statement, wrapped in a block unless it is one. -/
def statementAsBlock (below : Below) : Parse Node := do
  let statement ← below .statement
  if statement.kind == .block then return statement
  return Node.ofKind .block statement.span [statement]

/-- The body of a control structure: a statement, or the form with a colon that
ends at a keyword. -/
def bodyUntil (below : Below) (closing : TokenKind) : Parse Node := do
  if ← eats .colon then
    let block ← blockUntil below [closing]
    discard <| expect closing "end of block"
    expectSemicolon
    return block
  statementAsBlock below

/-- Expressions separated by commas up to one of the `terminators`. -/
def expressionsUntil (below : Below) (terminators : List TokenKind) : Parse (List Node) :=
  commaList (checkAny terminators) below.expression

/-- An expression in parentheses. -/
def parenthesized (below : Below) : Parse Node := do
  discard <| expect .lParen "'('"
  let value ← below.expression
  discard <| expect .rParen "')'"
  return value

end PhpCheck.Grammar
