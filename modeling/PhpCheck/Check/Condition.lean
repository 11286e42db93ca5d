import PhpCheck.Check.Rules

/-!
Conditions.  Logical operators combine what their operands tell; of other
expressions, some tests of a variable are understood.
-/

namespace PhpCheck

/-- The type that a test function such as `is_string` asks for. -/
def testFunction? (name : String) : Option Narrowing :=
  match (unrooted name).toLower with
  | "is_null" => some .isNull
  | "is_string" => some (.is (.of (.string none)))
  | "is_int" | "is_integer" | "is_long" => some (.is (.of (.int none)))
  | "is_float" | "is_double" => some (.is (.of (.float none)))
  | "is_bool" => some (.is (.of (.bool none)))
  | "is_array" => some (.is (.of .array))
  | "is_callable" => some (.is (.of .callable))
  | "is_resource" => some (.is (.of .resource))
  | _ => none

/-- A test of a variable; when it is inverted, it tells of the other outcome. -/
structure VariableTest where
  name : String
  test : Narrowing
  inverted : Bool

/-- What a comparison with `null`, `true` or `false` tests.  Only comparisons of
sort and value tell these apart from other values. -/
def literalTest? (strict : Bool) (literal : Node) : Option (Narrowing × Bool) :=
  match literal.kind with
  | .nullLiteral => some (if strict then (.isNull, false) else (.truthy, true))
  | .booleanLiteral =>
    if literal.textD == "false" then some (if strict then (.isFalse, false) else (.truthy, true))
    else some (.truthy, false)
  | _ => none

/-- The test that a comparison makes. -/
def comparisonTest? (node : Node) : Option VariableTest := do
  let (strict, negated) ← match ← node.fieldText? "operator" with
    | "===" => some (true, false)
    | "!==" => some (true, true)
    | "==" => some (false, false)
    | "!=" | "<>" => some (false, true)
    | _ => none
  let left ← node.childBy? "left"
  let right ← node.childBy? "right"
  let (tested, literal) ←
    if left.kind == .variableName then some (left, right)
    else if right.kind == .variableName then some (right, left)
    else none
  let (test, inverted) ← literalTest? strict literal
  return { name := tested.textD, test, inverted := negated != inverted }

/-- A variable in a role. -/
def Node.variableBy? (node : Node) (field : String) : Option String :=
  ((node.childBy? field).filter (·.kind == .variableName)).map Node.textD

/-- The first argument of a call, if it is a variable. -/
def Node.firstVariable? (call : Node) : Option String := do
  let arguments ← call.childBy? "arguments"
  let first ← arguments.positional.head?
  first.variableBy? "value"

/-- The test of one variable that an expression makes. -/
def variableTest? (s : Scope) (node : Node) : Option VariableTest :=
  match node.kind with
  | .variableName => some { name := node.textD, test := .truthy, inverted := false }
  | .assignment => do
    return { name := ← node.variableBy? "left", test := .truthy, inverted := false }
  | .callExpression => do
    let callee ← (node.childBy? "function").filter (·.kind == .name)
    return { test := ← testFunction? callee.textD, name := ← node.firstVariable?, inverted := false }
  | .emptyExpression => do
    return { name := ← node.variableBy? "value", test := .truthy, inverted := true }
  | .binaryExpression =>
    if node.fieldText? "operator" == some "instanceof" then do
      let name ← node.variableBy? "left"
      let target ← (node.childBy? "right").filter (·.kind == .name)
      return { name, test := .is (.of (.object (s.classReference target.textD))), inverted := false }
    else comparisonTest? node
  | _ => none

/-- Splits an environment by what an expression tells of variables.  All variables
of an `isset` are set if it holds. -/
def splitBy (h : Hierarchy) (s : Scope) (e : Env) (node : Node) : Split :=
  if node.kind == .issetExpression then
    node.positional.foldl (fun split target =>
      if target.kind == .variableName then split.both (split.yes.narrow h target.textD .isSet)
      else split) (.unchanged e)
  else
    match variableTest? s node with
    | some t =>
      let split := e.narrow h t.name t.test
      if t.inverted then split.negate else split
    | none => .unchanged e

/-- A logical operator that decides from its first operand whether it needs the
second one. -/
inductive Connective where
  | conjunction | disjunction
deriving DecidableEq, Inhabited

namespace Connective

def ofText? : String → Option Connective
  | "&&" | "and" => some .conjunction
  | "||" | "or" => some .disjunction
  | _ => none

/-- The outcome of an operand that decides the whole. -/
def decisive : Connective → Bool
  | .conjunction => false
  | .disjunction => true

/-- The outcome of the whole, as far as it is known. -/
def known? (c : Connective) (left right : Option Bool) : Option Bool :=
  if right = some c.decisive then some c.decisive
  else if left = some (!c.decisive) && right = some (!c.decisive) then some (!c.decisive)
  else none

/-- What the operands tell together. -/
def combine : Connective → Split → Split → Split
  | .conjunction => Split.both
  | .disjunction => Split.either

end Connective

/-- The environment for an outcome. -/
def Split.on (s : Split) (outcome : Bool) : Env := if outcome then s.yes else s.no

open Check in
/-- A condition with two operands.  The second is checked where the first one does
not decide the whole, and not at all if that never happens. -/
def Rules.connect (r : Rules) (c : Connective) (left right : Node) : Check Branches := do
  let first ← r.split left
  if first.known? = some c.decisive then
    return .unchanged (truth (some c.decisive)) (← snapshot (first.split.on c.decisive))
  else
    setEnv (first.split.on (!c.decisive))
    let second ← r.split right
    return ⟨truth (c.known? first.known? second.known?), c.combine first.split second.split⟩

open Check in
/-- How an expression with a logical operator is checked; none for others. -/
def Rules.logical? (r : Rules) (node : Node) : Option (Check Branches) :=
  match node.kind with
  | .unaryExpression =>
    if node.fieldText? "operator" == some "!" then some do
      match node.childBy? "operand" with
      | some operand =>
        let inner ← r.split operand
        return ⟨truth (inner.known?.map (!·)), inner.split.negate⟩
      | none => return .unchanged (truth none) (← env)
    else none
  | .binaryExpression =>
    match Connective.ofText? ((node.fieldText? "operator").getD "") with
    | some c => some do
      match node.childBy? "left", node.childBy? "right" with
      | some left, some right => r.connect c left right
      | _, _ => return .unchanged (truth none) (← env)
    | none => none
  | _ => none

/-- Whether one of the operands is absent. -/
def Node.lacksOperand (node : Node) : Bool :=
  node.kind == .binaryExpression
    && ((node.childBy? "left").isNone || (node.childBy? "right").isNone)

open Check in
/-- Checks a node as a condition, given the rule for the node itself. -/
def Rules.splitNode (r : Rules) (visit : Node → Check Inferred) (node : Node) : Check Branches :=
  match r.logical? node with
  | some branches => branches
  | none =>
    if node.lacksOperand then do return .unchanged (truth none) (← env)
    else do
      let ty := (← visit node).ty
      return ⟨ty, splitBy (← hierarchy) (← scope) (← env) node⟩

end PhpCheck
