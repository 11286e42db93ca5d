import PhpCheck.Check.Access

/-!
Calls of functions and methods.
-/

namespace PhpCheck

open Check

namespace Rules

/-! ### Arguments -/

/-- A text passed as a callback must name a function. -/
def checkCallback (node : Node) (ty : TyUnion) : Check Unit := do
  match ty.text? with
  | none => pure ()
  | some callback =>
    let name := unrooted callback
    let isKnown : Check Bool := do return ((← registry).function? name).isSome
    let isMethod := (name.splitOn "::").length > 1
    unless isMethod || (← tolerant) || (← isKnown) do
      let loaded ← autoload name
      unless loaded && (← isKnown) do
        report .undefinedName node s!"callback names undefined function {name}()"

/-- What a variable passed by reference holds after the call: what it held before,
or else something of the declared type. -/
def written (current declared : Option TyUnion) : TyUnion :=
  let nonempty (u : Option TyUnion) : Option TyUnion := u.filter (!·.isEmpty)
  ((nonempty current).or (nonempty (declared.map TyUnion.withoutNull))).getD .mixed

/-- Checks an argument; the type that is passed. -/
def checkArgument (r : Rules) (value : Node) (parameter : Param) (index : Nat)
    (function : String) : Check TyUnion := do
  if parameter.byRef && value.kind.isAssignable then
    let current ← if value.kind == .variableName then lookup? value.textD
      else pure (some (← r.probe value))
    r.assign value (written current parameter.ty)
  else
    let ty ← r.expr value
    match parameter.ty with
    | some expected =>
      unless ← accepts ty expected do
        report .argumentTypeMismatch value
          s!"argument {index + 1} (${parameter.name}) of {function}() must be {expected.text}, {ty.text} given"
    | none => pure ()
    return ty

/-- The arguments of a call seen so far. -/
structure Passed where
  /-- Which parameters have an argument. -/
  provided : List Bool
  /-- The number of arguments without a name. -/
  positional : Nat := 0
  /-- There is an argument that stands for any number of them. -/
  spread : Bool := false

/-- The parameter that an argument is for, and its position. -/
def target? (f : Signature) (p : Passed) : Option String → Option Nat × Option Param
  | some name =>
    let position := f.positionOf? name
    (position, position.bind (f.params[·]?))
  | none => (some p.positional, f.paramAt? p.positional)

/-- Checks an argument against the parameter that it is for. -/
def passArgument (r : Rules) (f : Signature) (name : String) (p : Passed) (argument : Node) :
    Check Passed := do
  match argument.childBy? "value" with
  | none => return p
  | some value =>
    if argument.hasFlag "spread" then
      let _ ← r.expr value
      return { p with spread := true }
    else
      let parameterName := argument.fieldText? "name"
      let (position, parameter) := target? f p parameterName
      match parameterName with
      | some parameterName =>
        if position.isNone && !f.any && !f.params.any (·.variadic) then
          report .argumentArityMismatch argument s!"{name}() has no parameter named ${parameterName}"
      | none => pure ()
      match position, parameter with
      | some index, some parameter =>
        let ty ← r.checkArgument value parameter index name
        if f.callbacks.contains index then checkCallback value ty
      | _, _ =>
        let _ ← r.expr value
      return { p with
        provided := match position with
          | some index => p.provided.set index true
          | none => p.provided
        positional := if parameterName.isNone then p.positional + 1 else p.positional }

/-- Reports on a wrong number of arguments. -/
def checkArity (node : Node) (f : Signature) (name : String) (p : Passed) : Check Unit := do
  unless f.any do
    match f.maxCount? with
    | some most =>
      if p.positional > most && (← analyzerConfig).strictArity then
        report .argumentArityMismatch node
          s!"{name}() takes at most {most} arguments, {p.positional} given"
    | none => pure ()
    let missing := (f.params.zip p.provided).filter fun (param, given) => param.isRequired && !given
    if !p.spread && !missing.isEmpty then
      let missingNames := ", ".intercalate (missing.map fun (param, _) => "$" ++ param.name)
      let given := p.provided.countP id
      report .argumentArityMismatch node
        s!"{name}() expects at least {f.requiredCount} arguments, {given} given (missing {missingNames})"

/-- Checks the arguments of a call against a signature. -/
def checkCall (r : Rules) (node : Node) (f : Signature) (arguments : Option Node)
    (name : String) : Check Unit := do
  let start : Passed := { provided := f.params.map fun _ => false }
  let passed ← ((arguments.map Node.positional).getD []).foldlM (r.passArgument f name) start
  checkArity node f name passed

/-- Whether a call only makes a function out of the callee. -/
def makesCallable (arguments : Option Node) : Bool := arguments.any (·.hasFlag "callable")

/-! ### Methods -/

/-- Calls a member that was looked up. -/
def callMember (r : Rules) (node : Node) (m : Resolved) (className name : String)
    (arguments : Option Node) : Check TyUnion := do
  match m.ty.single?, m.magic with
  | some (.function f), false =>
    if makesCallable arguments then return .of (.function f)
    else
      r.checkCall node f arguments s!"{className}::{f.name.getD name}"
      return f.result
  | _, _ =>
    r.visitArguments arguments
    return m.ty

/-- Looks a method up and calls it. -/
def invokeMethod (r : Rules) (node : Node) (className : String) (kind : MemberKind)
    (name : String) (arguments : Option Node) : Check TyUnion := do
  if ← ensureClass className node then
    match (← registry).findMember className kind name (← scope).callingClass with
    | .found m =>
      match m.spelling with
      | some spelling =>
        if (← analyzerConfig).namingConventions then
          report .namingConventionViolation node
            s!"method {m.owner}::{spelling}() called as {name}()"
      | none => pure ()
      r.callMember node m className name arguments
    | .inaccessible m =>
      report .scopeViolation node s!"cannot call {m.visibility.text} method {m.owner}::{name}()"
      r.callMember node m className name arguments
    | .missing =>
      report .noSuchMember node s!"call to undefined method {className}::{name}()"
      r.visitArguments arguments
      return .mixed
  else
    r.visitArguments arguments
    return .mixed

/-- Calls a method of what an object may be; whether a method was called is kept
with the results.  Arguments are checked against the first method alone. -/
def callReceiver (r : Rules) (node : Node) (name : String) (arguments : Option Node)
    (onlyScalars : Bool) (state : Bool × TyUnion) (receiver : Receiver) :
    Check (Bool × TyUnion) := do
  let (invoked, result) := state
  match receiver with
  | .object className =>
    let call := r.invokeMethod node className .method name arguments
    let ty ← if invoked then quietly call else call
    return (true, result.union ty)
  | .null => return (invoked, result.add (if node.hasFlag "nullsafe" then .null else .mixed))
  | .unknown => return (invoked, result.add .mixed)
  | .scalar ty =>
    if onlyScalars then
      report .noSuchMember node s!"call to a member function {name}() on {ty.text}"
    return (invoked, result.add .mixed)

/-- `object->name(...)` -/
def methodCall (r : Rules) (node : Node) : Check TyUnion := do
  match node.childBy? "object", node.childBy? "name" with
  | some object, some nameNode =>
    let arguments := node.childBy? "arguments"
    let objectTy ← r.expr object
    match ← r.memberName? nameNode with
    | some name =>
      let receivers := Receiver.ofUnion objectTy
      let (invoked, result) ← receivers.foldlM
        (r.callReceiver node name arguments (receivers.all Receiver.isScalar)) (false, .empty)
      unless invoked do r.visitArguments arguments
      return result
    | none =>
      r.visitArguments arguments
      return .mixed
  | _, _ => return .mixed

/-- `Scope::name(...)` -/
def staticCall (r : Rules) (node : Node) : Check TyUnion := do
  match node.childBy? "scope", node.childBy? "name" with
  | some scopeNode, some nameNode =>
    let arguments := node.childBy? "arguments"
    let className? ← r.scopeClass? scopeNode
    match className?, ← r.memberName? nameNode with
    | some className, some name => r.invokeMethod node className .staticMethod name arguments
    | _, _ =>
      r.visitArguments arguments
      return .mixed
  | _, _ => return .mixed

/-- Checks the arguments of a constructor. -/
def construct (r : Rules) (node : Node) (className : String) (arguments : Option Node) :
    Check Unit := do
  match (← registry).findMember className .method "__construct" (← scope).callingClass with
  | .found m =>
    let _ ← r.callMember node m className "__construct" arguments
  | .inaccessible m =>
    report .scopeViolation node s!"cannot call {m.visibility.text} constructor of {className}"
    let _ ← r.callMember node m className "__construct" arguments
  | .missing => r.visitArguments arguments

/-! ### Functions -/

/-- The first function that is known. -/
def findFunction? (candidates : List String) : Check (Option Signature) := do
  return candidates.findSome? (← registry).function?

/-- The first function that is known, after it was looked for. -/
def loadFunction? (candidates : List String) : Check (Option Signature) := do
  match ← findFunction? candidates, candidates with
  | some f, _ => return some f
  | none, [] => return none
  | none, first :: _ => if ← autoload first then findFunction? candidates else return none

/-- The constant that a call of `define` adds. -/
def defineConstant (r : Rules) (arguments : Option Node) : Check Unit := do
  match (arguments.map Node.positional).getD [] |>.filterMap (·.childBy? "value") with
  | nameNode :: value :: _ =>
    match (← quietly (r.expr nameNode)).text? with
    | some name =>
      let ty ← quietly (r.expr value)
      modifyRegistry (·.addConstant name ty)
    | none => pure ()
  | _ => pure ()

/-- Calls something other than a plain name. -/
def dynamicCall (r : Rules) (node callee : Node) (arguments : Option Node) : Check TyUnion := do
  let calleeTy ← r.expr callee
  let call (f : Option Signature) : Check TyUnion := do
    match f with
    | some f =>
      r.checkCall node f arguments (f.name.getD "\x7bclosure\x7d")
      return f.result
    | none =>
      r.visitArguments arguments
      return .mixed
  match calleeTy.single? with
  | some (.object className) => r.invokeMethod node className .method "__invoke" arguments
  | some (.function f) => call (if f.any then none else some f)
  | some (.string (some name)) => call ((← registry).function? name)
  | _ => call none

/-- `name(...)` -/
def functionCall (r : Rules) (node : Node) : Check TyUnion := do
  match node.childBy? "function" with
  | none => return .mixed
  | some callee =>
    let arguments := node.childBy? "arguments"
    if callee.kind == .name then
      let text := callee.textD
      match ← loadFunction? ((← scope).names.resolveFunction text) with
      | some f =>
        if makesCallable arguments then return .of (.function f)
        else
          let name := f.name.getD text
          r.checkCall node f arguments name
          if sameName name "define" then r.defineConstant arguments
          return f.result
      | none =>
        unless ← tolerant do
          report .undefinedName callee s!"call to undefined function {unrooted text}()"
        r.visitArguments arguments
        return .mixed
    else r.dynamicCall node callee arguments

end Rules

end PhpCheck
