import PhpCheck.Check.Statement

/-!
Functions, methods and closures: their signatures, and checking their bodies.
-/

namespace PhpCheck

open Check

mutual

/-- Whether a piece of code yields.  What functions and classes inside it do is
their own. -/
def Node.yields (n : Node) : Bool :=
  match n with
  | ⟨_, _, _, _, children⟩ => anyYields children

def anyYields : List Node → Bool
  | [] => false
  | n :: rest => (match n.kind with
    | .yieldExpression => true
    | .anonymousFunction | .arrowFunction | .functionDefinition | .methodDeclaration
    | .anonymousClass | .classDeclaration | .interfaceDeclaration | .traitDeclaration => false
    | _ => n.yields) || anyYields rest

end

/-- A parameter as the body of a function sees it. -/
structure BodyParam where
  param : Param
  /-- The type that the body sees; a parameter for many arguments is a list. -/
  inside : TyUnion
  /-- The parameter also declares a property of that visibility. -/
  promoted : Option Visibility := none
deriving Inhabited

/-- A function as it is declared. -/
structure FunctionDecl where
  signature : Signature
  params : List BodyParam
  declared : Option TyUnion
  isGenerator : Bool
deriving Inhabited

/-- The signature with the result that was found, unless one is declared. -/
def FunctionDecl.inferred (d : FunctionDecl) (returns : TyUnion) : Signature :=
  if d.declared.isNone then { d.signature with result := returns } else d.signature

/-- What a generator returns, whatever is in its body. -/
def generatorTy : TyUnion := .of (.object "Generator")

namespace Rules

/-! ### Signatures -/

/-- The declared type, or the documented one if that fits it. -/
def reconcile (native documented : Option TyUnion) (node : Node) (what : String) :
    Check (Option TyUnion) := do
  match native, documented with
  | some native, some documented =>
    if documented.compliesWith (← hierarchy) native then return some documented
    else
      report .documentationMismatch node
        s!"documented {what} {documented.text} does not match declared {native.text}"
      return some native
  | native, documented => return native.or documented

/-- The type in a role, as declared and as documented. -/
def declaredType (context : TypeContext) (node : Node) (field : String)
    (documented : Option TypeExpr) (what : String) : Check (Option TyUnion) :=
  reconcile ((node.fieldText? field).bind context.resolveText?) (documented.map context.resolve)
    node what

/-- A parameter with its type.  A default of null allows null. -/
def parameter (r : Rules) (doc : DocComment) (node : Node) (name : String) :
    Check BodyParam := do
  let context ← typeContext doc.templates
  let ty ← declaredType context node "type" (doc.param? name) s!"type of ${name}"
  let default ← r.expr? (node.childBy? "default")
  let allowsNull := default.any TyUnion.mayBeNull
  let ty' := if allowsNull then ty.map (·.add .null) else ty
  let inside := if allowsNull then (ty.getD .mixed).add .null else ty.getD .mixed
  let variadic := node.hasFlag "variadic"
  return {
    param := { name, ty := ty', byRef := node.hasFlag "reference", hasDefault := default.isSome, variadic }
    inside := if variadic then .of (.list (ty'.getD .empty)) else inside
    promoted := (node.childrenBy "visibility").findSome? fun m => Visibility.ofText? m.textD.toLower }

/-- The signature of a function, method or closure. -/
def declaration (r : Rules) (name : String) (node : Node) : Check FunctionDecl := do
  let doc := (node.doc?.map DocComment.read).getD {}
  let nodes := ((node.childBy? "parameters").map Node.positional).getD []
  let params ← nodes.filterMapM fun p => do
    match p.fieldText? "name" with
    | some name => return some (← r.parameter doc p name)
    | none => return none
  let context ← typeContext doc.templates
  let declared ← declaredType context node "return_type" doc.returns "return type"
  let isGenerator := (node.childBy? "body").any Node.yields
  let result := if isGenerator then generatorTy else declared.getD .mixed
  let signature := Signature.ofParams name (params.map (·.param)) result
  return { signature := { signature with declared := declared.isSome }, params, declared, isGenerator }

/-! ### Bodies -/

/-- What checking a body results in: the types it returns, and its variables at
the end. -/
structure BodyOutcome where
  returns : TyUnion
  env : Env

/-- The end of a body returns null, which the declared type may forbid. -/
def checkFallThrough (node : Node) (d : FunctionDecl) (display : String) : Check Unit := do
  match d.declared with
  | some declared =>
    unless d.isGenerator || declared.isEmpty || declared.isMixed || declared.mayBeNull do
      report .returnTypeMismatch node s!"{display}() may end without returning {declared.text}"
  | none => pure ()

/-- The statements of a function, or the expression of an arrow function. -/
inductive BodyKind where
  | statements | arrow
deriving DecidableEq, Inhabited

/-- The value of a body, and how control leaves it. -/
def bodyResult (r : Rules) (node : Node) : BodyKind → Check Inferred
  | .arrow => do
    let ty ← r.expr node
    checkReturn node (some ty)
    return ⟨ty, .exit⟩
  | .statements => do return .statement (← r.visit node).flow

/-- Checks a body in the scope that it has. -/
def checkBody (r : Rules) (node : Node) (d : FunctionDecl) (display : String) (isStatic : Bool)
    (kind : BodyKind) : Check BodyOutcome := do
  let context : FunctionContext :=
    { name := display, declared := d.declared, isGenerator := d.isGenerator }
  let outer ← scope
  let inner := match kind with
    | .arrow => outer.arrowBody context isStatic
    | .statements => outer.functionBody context isStatic
  let inner := d.params.foldl (fun s p => s.bind p.param.name p.inside) inner
  let (body, final) ← inScope inner (r.bodyResult node kind)
  let returns := final.observed.union body.ty
  let returns ← if body.flow.isNormal then do
      checkFallThrough node d display
      pure (if returns.isEmpty then returns else returns.add .null)
    else pure returns
  return { returns := if d.isGenerator then generatorTy else returns, env := final.env }

/-! ### Functions -/

/-- Makes a function known. -/
def declareFunction (r : Rules) (node : Node) : Check Unit := do
  match node.fieldText? "name" with
  | some name =>
    let qualified := (← scope).names.qualify name
    let d ← r.declaration qualified node
    let isNew := ((← registry).function? qualified).isNone
    modifyRegistry (·.addFunction qualified d.signature)
    if isNew then noteFunction qualified
    noteHoisted node
  | none => pure ()

def functionDefinition (r : Rules) (node : Node) : Check Flow := do
  match node.fieldText? "name" with
  | some name =>
    unless ← isHoisted node do r.declareFunction node
    let qualified := (← scope).names.qualify name
    let d ← r.declaration qualified node
    match node.childBy? "body" with
    | some body =>
      let outcome ← r.checkBody body d name false .statements
      if d.declared.isNone && (← isOwnFunction qualified) then
        modifyRegistry (·.updateFunction qualified (d.inferred outcome.returns))
    | none => pure ()
  | none => pure ()
  return .normal

/-- A variable that a closure captures. -/
structure Capture where
  name : String
  ty : TyUnion
  byRef : Bool

/-- Captures a variable.  A reference binds it; otherwise it has to be bound. -/
def capture? (node : Node) : Check (Option Capture) := do
  match node.fieldText? "name" with
  | none => return none
  | some name =>
    let byRef := node.hasFlag "reference"
    let ty ← match ← lookup? name with
      | some ty => pure ty
      | none => do
        if byRef then pure (.of .null)
        else
          unless ← tolerant do
            report .undefinedName node s!"undefined variable ${name} in closure use"
          pure .mixed
    if byRef then bindVariable name ty
    return some { name, ty, byRef }

/-- The name of functions without one. -/
def closureName : String := "\x7bclosure\x7d"

/-- Whether a closure has no object that it belongs to. -/
def isStaticClosure (node : Node) : Check Bool := do
  return node.hasFlag "static" || (← scope).isStatic

/-- `function (...) use (...) ...`.  What is captured by reference may be written
whenever the closure is called. -/
def closure (r : Rules) (node : Node) : Check TyUnion := do
  let d ← r.declaration closureName node
  let isStatic ← isStaticClosure node
  match node.childBy? "body" with
  | none => return .of (.function d.signature)
  | some body =>
    let captures ← (((node.childBy? "uses").map Node.positional).getD []).filterMapM capture?
    let captured := captures.map fun c => { param := .ofName c.name none, inside := c.ty : BodyParam }
    let outcome ← r.checkBody body { d with params := d.params ++ captured } closureName isStatic
      .statements
    captures.forM fun c => do
      if c.byRef then
        match outcome.env.get? c.name with
        | some ty => bindVariable c.name (((← lookup? c.name).getD .empty).union ty)
        | none => pure ()
    return .of (.function (d.inferred outcome.returns))

/-- `fn (...) => expression` -/
def arrowFunction (r : Rules) (node : Node) : Check TyUnion := do
  let d ← r.declaration closureName node
  let isStatic ← isStaticClosure node
  match node.childBy? "body" with
  | none => return .of (.function d.signature)
  | some body =>
    let outcome ← r.checkBody body d closureName isStatic .arrow
    return .of (.function (d.inferred outcome.returns))

end Rules

end PhpCheck
