import PhpCheck.Check.Access
import PhpCheck.Check.Condition
import PhpCheck.Check.Literal
import PhpCheck.Check.Operator

/-!
Variables, assignments, operators and the expressions that have a word of their
own.
-/

namespace PhpCheck

open Check

/-- Variables that are bound everywhere. -/
def superglobals : List String :=
  ["GLOBALS", "_SERVER", "_GET", "_POST", "_FILES", "_COOKIE", "_SESSION", "_REQUEST", "_ENV"]

/-- The variables that are bound without having been written. -/
def predefined? (s : Scope) (name : String) : Option TyUnion :=
  if superglobals.contains name then some (.of (.map .mixed))
  else if s.function.isSome then none
  else match name with
    | "argv" => some (.of (.list (.of (.string none))))
    | "argc" => some (.of (.int none))
    | _ => none

/-- What follows the last two colons that stand side by side. -/
def lastPart? : List Char → Option (List Char)
  | [] => none
  | c :: rest => (lastPart? rest).or (match c, rest with
    | ':', ':' :: part => some part
    | _, _ => none)

/-- The part of a name behind its last double colon. -/
def afterColons (name : String) : String :=
  ((lastPart? name.toList).map String.ofList).getD name

/-- The type of a constant such as `__LINE__`. -/
def magicConstant (file dir : String) (s : Scope) (node : Node) : TyUnion :=
  let function := (s.function.map (·.name)).getD ""
  let known (text : String) : TyUnion := .of (.string (some text))
  match node.textD with
  | "__LINE__" => .of (.int (some (Int64.ofNat node.span.startLine)))
  | "__FILE__" => known file
  | "__DIR__" => known dir
  | "__CLASS__" => match s.classContext with
    | some c => if c.isTrait then .of (.string none) else known c.name
    | none => known ""
  | "__TRAIT__" => known (((s.classContext.filter (·.isTrait)).map (·.name)).getD "")
  | "__FUNCTION__" => known (afterColons function)
  | "__METHOD__" => known function
  | "__NAMESPACE__" => known (s.names.home.getD "")
  | _ => .of (.string none)

/-- Whether a value is an instance of a class, where its type decides that.  What
is no object is no instance, and objects of subclasses are. -/
def Registry.isInstance? (r : Registry) (value : TyUnion) (className : String) : Option Bool :=
  let mayBeObject : Ty → Bool
    | .object _ | .function _ | .mixed => true
    | _ => false
  let isSubclass : Ty → Bool
    | .object name => (r.declaredClass? name).isSome && r.isSubclass name className
    | _ => false
  if value.isUnknown then none
  else if !value.members.any mayBeObject then some false
  else if value.members.all isSubclass then some true
  else none

namespace Rules

/-! ### Names -/

/-- `$name` -/
def variableRule (node : Node) (assigning : Option TyUnion) : Check TyUnion := do
  let name := node.textD
  match assigning with
  | some value =>
    bindVariable name value
    return value
  | none =>
    let s ← scope
    match (s.env.get? name).or (predefined? s name) with
    | some ty => return ty
    | none =>
      if s.probing then return .of .null
      else if s.including then return .mixed
      else
        reportUndefined name node
        return .mixed

/-- `$$name`, which is a variable if the name is known. -/
def variableVariable (r : Rules) (node : Node) (assigning : Option TyUnion) : Check TyUnion := do
  let nameTy := (← r.expr? (node.childBy? "name")).getD .mixed
  match assigning, nameTy.text? with
  | some value, some name =>
    bindVariable name value
    return value
  | some value, none => return value
  | none, some name => return (← lookup? name).getD .mixed
  | none, none => return .mixed

/-- The first constant that is known. -/
def findConstant? (candidates : List String) : Check (Option TyUnion) := do
  return candidates.findSome? (← registry).constant?

/-- A name that stands by itself is a constant. -/
def constantFetch (node : Node) : Check TyUnion := do
  let text := node.textD
  match (unrooted text).toLower with
  | "true" => return truth (some true)
  | "false" => return truth (some false)
  | "null" => return .of .null
  | _ =>
    let candidates := (← scope).names.resolveConstant text
    let found ← match ← findConstant? candidates, candidates with
      | some ty, _ => pure (some ty)
      | none, [] => pure none
      | none, first :: _ => do if ← autoload first then findConstant? candidates else pure none
    match found with
    | some ty => return ty
    | none =>
      unless ← tolerant do report .undefinedName node s!"undefined constant {unrooted text}"
      return .mixed

/-! ### Texts and arrays -/

/-- A text with expressions in it, which is known if all of them are. -/
def interpolatedString (r : Rules) (node : Node) : Check TyUnion := do
  let parts ← node.positional.mapM fun part => do
    if part.kind == .stringFragment then return some part.textD
    else return (← r.expr part).value?.map Constant.text
  return .of (.string ((parts.mapM id).map String.join))

/-- What a reference refers to.  Taking a reference to a variable binds it. -/
def referenceSource (r : Rules) (node : Node) : Check TyUnion := do
  if node.kind == .variableName then
    match ← lookup? node.textD with
    | some ty => return ty
    | none =>
      bindVariable node.textD (.of .null)
      return .of .null
  else r.probe node

/-- The elements of an array literal so far. -/
structure Elements where
  /-- Some element has a key of its own. -/
  keyed : Bool := false
  members : TyUnion := .empty

def isMap : Ty → Bool
  | .map _ => true
  | _ => false

/-- Adds an element to an array literal. -/
def arrayElement (r : Rules) (es : Elements) (element : Node) : Check Elements := do
  let key ← r.expr? (element.childBy? "key")
  let keyed := es.keyed || key.isSome
  match element.childBy? "value" with
  | none => return { es with keyed }
  | some value =>
    if element.hasFlag "reference" then
      let ty ← r.referenceSource value
      return { keyed, members := es.members.union ty.widened }
    else
      let ty ← r.expr value
      if element.hasFlag "spread" then
        return { keyed := keyed || ty.members.any isMap
                 members := es.members.union ty.element.widened }
      else return { keyed, members := es.members.union ty.widened }

/-- Writes the element type of a value to each target of a pattern. -/
def destructure (r : Rules) (node : Node) (value : TyUnion) : Check Unit :=
  node.positional.forM fun element => do
    let _ ← r.expr? (element.childBy? "key")
    match element.childBy? "value" with
    | some target =>
      let _ ← r.assign target value.element
    | none => pure ()

/-- `[...]`, which is a pattern when something is assigned to it. -/
def arrayLiteral (r : Rules) (node : Node) (assigning : Option TyUnion) : Check TyUnion := do
  match assigning with
  | some value =>
    r.destructure node value
    return value
  | none =>
    let es ← node.positional.foldlM r.arrayElement {}
    return .of (if es.keyed then .map es.members else .list es.members)

/-! ### Assignments -/

/-- `left = right` -/
def assignment (r : Rules) (node : Node) : Check TyUnion := do
  match node.childBy? "left", node.childBy? "right" with
  | some left, some right =>
    let ty ← r.expr right
    let ty ← if ty.isEmpty && right.kind.isCall then do
        report .assignmentWithoutValue right "assignment of a call that returns no value"
        pure (.of .null)
      else pure ty
    let _ ← r.assign left ty
    return ty
  | _, _ => return .mixed

/-- `left = &right` -/
def referenceAssignment (r : Rules) (node : Node) : Check TyUnion := do
  match node.childBy? "left", node.childBy? "right" with
  | some left, some right =>
    let ty ← r.referenceSource right
    let _ ← r.assign left ty
    return ty
  | _, _ => return .mixed

/-- An operator without the equals sign at its end. -/
def plainOperator (operator : String) : String :=
  String.ofList (operator.toList.reverse.dropWhile (· == '=')).reverse

/-- `left op= right` -/
def compoundAssignment (r : Rules) (node : Node) : Check TyUnion := do
  match node.childBy? "left", node.childBy? "right" with
  | some left, some right =>
    let operator := (node.fieldText? "operator").getD ""
    let current ← if operator == "??=" then r.probe left else r.expr left
    let value ← r.expr right
    let result := if operator == "??=" then coalesce current value
      else binaryResult (plainOperator operator) current value
    let _ ← r.assign left result
    return result
  | _, _ => return .mixed

/-- `++operand` and its like. -/
def updateExpression (r : Rules) (node : Node) : Check TyUnion := do
  match node.childBy? "operand" with
  | some operand =>
    let increment := node.fieldText? "operator" == some "++"
    let old ← r.expr operand
    let new := (TyUnion.ofList (old.members.map (Ty.stepped increment))).orElse .mixed
    let _ ← r.assign operand new
    return if node.kind == .prefixUpdateExpression then new else old
  | none => return .mixed

/-! ### Operators -/

/-- An expression with an operator between two operands. -/
def binaryExpression (r : Rules) (node : Node) : Check TyUnion := do
  match node.childBy? "left", node.childBy? "right" with
  | some left, some right =>
    match (node.fieldText? "operator").getD "" with
    | "??" =>
      let l ← r.probe left
      return coalesce l (← r.expr right)
    | "instanceof" =>
      let value ← r.expr left
      if right.kind == .name then
        let name ← classReference right.textD
        return truth ((← registry).isInstance? value name)
      else
        let _ ← r.expr right
        return truth none
    | operator =>
      let l ← r.expr left
      return binaryResult operator l (← r.expr right)
  | _, _ => return .mixed

/-- An expression with an operator in front. -/
def unaryExpression (r : Rules) (node : Node) : Check TyUnion := do
  match node.childBy? "operand" with
  | some operand => return unaryResult ((node.fieldText? "operator").getD "") (← r.expr operand)
  | none => return .mixed

/-- `(type) operand` -/
def castExpression (r : Rules) (node : Node) : Check TyUnion := do
  let operand := (← r.expr? (node.childBy? "operand")).getD .mixed
  return (CastTarget.ofText ((node.fieldText? "type").getD "")).result operand

/-- An expression that is worth what its only part is worth. -/
def sameAs (r : Rules) (node : Node) (field : String) : Check TyUnion := do
  return (← r.expr? (node.childBy? field)).getD .mixed

/-- `condition ? consequence : alternative`, where the consequence may be the
condition itself. -/
def ternaryExpression (r : Rules) (node : Node) : Check TyUnion := do
  match node.childBy? "condition", node.childBy? "alternative" with
  | some test, some alternative =>
    let branches ← r.condition test
    let known := branches.known?
    let yes ← if known = some false then pure [] else do
      setEnv branches.split.yes
      let ty ← match node.childBy? "consequence" with
        | some consequence => r.expr consequence
        | none => pure branches.ty.truthy
      pure [(ty, ← env)]
    let no ← if known = some true then pure [] else do
      setEnv branches.split.no
      let ty ← r.expr alternative
      pure [(ty, ← env)]
    let paths := yes ++ no
    match Env.joinAll? (paths.map (·.2)) with
    | some joined => setEnv joined
    | none => pure ()
    return paths.foldl (fun result (ty, _) => result.union ty) .empty
  | _, _ => return .mixed

/-! ### Expressions with a word of their own -/

/-- `isset(...)` -/
def issetExpression (r : Rules) (node : Node) : Check TyUnion := do
  node.positional.forM fun target => do
    let _ ← r.probe target
  return truth none

/-- `empty(...)` -/
def emptyExpression (r : Rules) (node : Node) : Check TyUnion := do
  match node.childBy? "value" with
  | some value =>
    let _ ← r.probe value
  | none => pure ()
  return truth none

/-- Evaluates the part of an expression that is worth something else. -/
def evaluating (r : Rules) (node : Node) (ty : TyUnion) : Check TyUnion := do
  let _ ← r.expr? (node.childBy? "value")
  return ty

/-- Evaluates the part of an expression behind which control does not go on. -/
def leaving (r : Rules) (node : Node) : Check Inferred := do
  let _ ← r.expr? (node.childBy? "value")
  return .statement .exit

/-- `include`, `require` and their like: the value is what the file returns. -/
def includeExpression (r : Rules) (node : Node) : Check TyUnion := do
  let word := ((node.fieldText? "kind").getD "include").toLower
  let isRequired := "require".toList.isPrefixOf word.toList
  let once := "_once".toList.isSuffixOf word.toList
  let target ← match node.childBy? "value" with
    | some value => do pure (← r.expr value).text?
    | none => pure none
  match target with
  | none => return .mixed
  | some target =>
    match ← resolveInclude? target with
    | none =>
      report .includeFailure node s!"{word} target '{target}' not found"
      return if isRequired then .mixed else truth (some false)
    | some path =>
      match ← includeFile path once with
      | .analyzed value => return value
      | .alreadyIncluded => return truth (some true)
      | .inProgress => return .mixed
      | .failed =>
        if isRequired then report .includeFailure node s!"{word} of '{path}' failed"
        return truth (some false)

/-- An arm of a `match`, with the environment behind it unless control leaves. -/
def matchArm (r : Rules) (entry : Env) (arm : Node) : Check (List (TyUnion × Env)) := do
  setEnv entry
  r.exprs (arm.childrenBy "condition")
  match arm.childBy? "body" with
  | some body =>
    let result ← r.visit body
    if result.flow.isNormal then return [(result.ty, ← env)] else return []
  | none => return []

/-- `match (subject) ...` -/
def matchExpression (r : Rules) (node : Node) : Check TyUnion := do
  let _ ← r.expr? (node.childBy? "subject")
  let entry ← env
  let arms ← (node.childrenBy "arm").mapM (r.matchArm entry)
  let paths := arms.flatten
  setEnv ((Env.joinAll? (paths.map (·.2))).getD entry)
  return paths.foldl (fun result (ty, _) => result.union ty) .empty

/-- `yield` in its forms. -/
def yieldExpression (r : Rules) (node : Node) : Check TyUnion := do
  r.exprs (["key", "value", "from"].filterMap (node.childBy? ·))
  return .mixed

/-- Expressions one after another, worth what the last one is worth. -/
def expressionList (r : Rules) (node : Node) : Check TyUnion :=
  node.positional.foldlM (fun _ expression => r.expr expression) .empty

end Rules

end PhpCheck
