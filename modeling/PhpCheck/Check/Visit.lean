import PhpCheck.Check.Expression
import PhpCheck.Check.Hoist
import PhpCheck.Check.Loop

/-!
The rule for each kind of node, and the analysis of a whole file.
-/

namespace PhpCheck

open Check

namespace Rules

/-- The rule for a node, given the value assigned to it and the rules for its
parts.  Parts that are checked along with the construct around them have no rule
of their own. -/
def apply (r : Rules) (node : Node) (assigning : Option TyUnion) : Check Inferred :=
  let value (ty : Check TyUnion) : Check Inferred := do return .value (← ty)
  let statement (flow : Check Flow) : Check Inferred := do return .statement (← flow)
  match r.logical? node with
  | some branches => value do
    let b ← branches
    setEnv b.split.joined
    return b.ty
  | none => match node.kind with
    -- Statements
    | .sourceFile | .block => statement (r.block node)
    | .inlineHtml | .emptyStatement | .labelStatement => return .statement .normal
    | .echoStatement => statement (r.echoStatement node)
    | .expressionStatement => statement (r.expressionStatement node)
    | .ifStatement => statement (r.ifStatement node)
    | .whileStatement => statement (r.whileStatement node)
    | .doWhileStatement => statement (r.doWhileStatement node)
    | .forStatement => statement (r.forStatement node)
    | .foreachStatement => statement (r.foreachStatement node)
    | .switchStatement => statement (r.switchStatement node)
    | .breakStatement | .continueStatement => statement (jumpStatement node)
    | .returnStatement => statement (r.returnStatement node)
    | .tryStatement => statement (r.tryStatement node)
    | .gotoStatement => statement (gotoStatement node)
    | .declareStatement => statement (r.declareStatement node)
    | .namespaceDefinition => statement (r.namespaceDefinition node)
    | .useDeclaration => statement (useDeclaration node)
    | .globalDeclaration => statement (globalDeclaration node)
    | .staticDeclaration => statement (r.staticDeclaration node)
    | .unsetStatement => statement (r.unsetStatement node)
    | .constDeclaration => statement (r.constDeclaration node)
    | .functionDefinition => statement (r.functionDefinition node)
    | .classDeclaration | .interfaceDeclaration | .traitDeclaration =>
      statement (r.classDeclaration node)
    -- Literals
    | .integerLiteral => return .value (integerLiteral node.textD)
    | .floatLiteral => return .value (floatLiteral node.textD)
    | .stringLiteral | .stringFragment => return .value (.of (.string (some node.textD)))
    | .booleanLiteral => return .value (truth (some (sameName node.textD "true")))
    | .nullLiteral => return .value (.of .null)
    | .interpolatedString => value (r.interpolatedString node)
    | .magicConstant => do
      return .value (magicConstant (← currentFile) (← currentDir) (← scope) node)
    | .arrayLiteral | .listExpression => value (r.arrayLiteral node assigning)
    -- Names
    | .variableName => value (variableRule node assigning)
    | .variableVariable => value (r.variableVariable node assigning)
    | .name => value (constantFetch node)
    -- Operators
    | .assignment => value (r.assignment node)
    | .referenceAssignment => value (r.referenceAssignment node)
    | .compoundAssignment => value (r.compoundAssignment node)
    | .binaryExpression => value (r.binaryExpression node)
    | .unaryExpression => value (r.unaryExpression node)
    | .prefixUpdateExpression | .postfixUpdateExpression => value (r.updateExpression node)
    | .castExpression => value (r.castExpression node)
    | .errorSuppression => value (r.sameAs node "operand")
    | .ternaryExpression => value (r.ternaryExpression node)
    -- Calls and members
    | .callExpression => value (r.functionCall node)
    | .methodCallExpression => value (r.methodCall node)
    | .staticCallExpression => value (r.staticCall node)
    | .newExpression => value (r.newExpression node)
    | .propertyAccess => value (r.propertyAccess node assigning)
    | .staticPropertyAccess => value (r.staticPropertyAccess node assigning)
    | .classConstantAccess => value (r.classConstant node)
    | .subscriptExpression => value (r.subscript node assigning)
    | .cloneExpression => value (r.sameAs node "value")
    | .anonymousClass => value (r.anonymousClass node)
    | .anonymousFunction => value (r.closure node)
    | .arrowFunction => value (r.arrowFunction node)
    -- Expressions with a word of their own
    | .issetExpression => value (r.issetExpression node)
    | .emptyExpression => value (r.emptyExpression node)
    | .exitExpression | .throwExpression => r.leaving node
    | .printExpression => value (r.evaluating node (.of (.int (some 1))))
    | .includeExpression => value (r.includeExpression node)
    | .evalExpression => value (r.evaluating node .mixed)
    | .matchExpression => value (r.matchExpression node)
    | .yieldExpression => value (r.yieldExpression node)
    | .expressionList => value (r.expressionList node)
    -- Parts of other constructs
    | _ => return .value .mixed

/-- Checks a node, given the rules for its parts.  A value being assigned is taken
by the node if it can be written to, and is dropped otherwise. -/
def visitNode (r : Rules) (node : Node) : Check Inferred := do
  let pending := (← scope).assigning
  modifyScope fun s => { s with assigning := none }
  r.apply node (if node.kind.isAssignable then pending else none)

/-- The rules for the parts of a node of some height, which are lower than it. -/
def below (height : Nat) : Rules :=
  { visit := fun node =>
      if node.height < height then (below node.height).visitNode node
      else return .value .mixed
    split := fun node =>
      if node.height < height then
        (below node.height).splitNode (below node.height).visitNode node
      else do return .unchanged .mixed (← env) }
termination_by height

end Rules

/-- Checks a node. -/
def Check.visit (node : Node) : Check Inferred := (Rules.below node.height).visitNode node

/-- Checks a whole file; what including it evaluates to. -/
def Check.file (root : Node) : Check TyUnion := do
  (Rules.below root.height).hoist root
  let _ ← visit root
  fileValue

end PhpCheck
