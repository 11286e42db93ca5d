import PhpCheck.Check.Naming
import PhpCheck.Check.Rules
import PhpCheck.Doc.Comment

/-!
Blocks, branches, jumps, and the statements that bind names.
-/

namespace PhpCheck

open Check

/-- The imports of a `use` declaration. -/
def NameContext.importAll (c : NameContext) (node : Node) : NameContext :=
  (node.childrenBy "clause").foldl (fun c clause =>
    match clause.fieldText? "name" with
    | some name =>
      let modifier := (clause.fieldText? "kind").or (node.fieldText? "kind")
      c.addImport (.ofModifier modifier) name (clause.fieldText? "alias")
    | none => c) c

/-- The paths through a statement: how control leaves them together, and where it
goes on. -/
structure Paths where
  flow : Option Flow := none
  exits : List Env := []
deriving Inhabited

/-- Adds a path. -/
def Paths.add (p : Paths) (flow : Flow) (env : Env) : Paths :=
  { flow := some ((p.flow.map (·.either flow)).getD flow)
    exits := if flow.isNormal then p.exits ++ [env] else p.exits }

/-- The type of what starts out with a value and is written later.  A start with
null tells nothing. -/
def TyUnion.asInitial (u : TyUnion) : TyUnion :=
  if u.members.all Ty.isNull then .mixed else u.widened

namespace Rules

/-! ### Sequences -/

/-- Checks statements in order.  Where control does not arrive, only declarations
are checked, which hold wherever they stand. -/
def statements (r : Rules) (nodes : List Node) : Check Flow :=
  nodes.foldlM (fun flow node => do
    if flow.isNormal then return (← r.visit node).flow
    else
      if node.kind.isDeclaration then
        let _ ← r.visit node
      return flow) .normal

def block (r : Rules) (node : Node) : Check Flow := r.statements node.positional

def echoStatement (r : Rules) (node : Node) : Check Flow := do
  r.exprs node.positional
  return .normal

/-- The variable that an assignment writes to. -/
def assignedVariable? (expression : Node) : Option String :=
  match expression.kind with
  | .assignment | .referenceAssignment =>
    ((expression.childBy? "left").filter (·.kind == .variableName)).map Node.textD
  | _ => none

/-- Gives variables their documented types.  A type without a name is that of the
variable being assigned. -/
def applyVarTags (doc : String) (expression : Node) (inferred : TyUnion) : Check Unit := do
  let assigned := assignedVariable? expression
  (DocComment.read doc).vars.forM fun tag => do
    match tag.1.or assigned with
    | some name =>
      let documented := (← typeContext []).resolve tag.2
      if assigned = some name && !inferred.matchesSome (← hierarchy) documented then
        report .documentationMismatch expression
          s!"@var {documented.text} does not match the assigned {inferred.text}"
      bindVariable name documented
    | none => pure ()

def expressionStatement (r : Rules) (node : Node) : Check Flow := do
  match node.childBy? "expression" with
  | some expression =>
    let result ← r.visit expression
    match node.doc? with
    | some doc => applyVarTags doc expression result.ty
    | none => pure ()
    return result.flow
  | none => return .normal

/-! ### Branches -/

/-- The conditions and bodies of an `if`; the last one may have no condition. -/
def ifArms (node : Node) : List (Option Node × Node) :=
  let first := match node.childBy? "condition", node.childBy? "body" with
    | some test, some body => [(some test, body)]
    | _, _ => []
  first ++ (node.childrenBy "alternative").filterMap fun alternative =>
    (alternative.childBy? "body").map fun body => (alternative.childBy? "condition", body)

/-- Checks the arms that are reached.  If all of them may be skipped, that is a
path too. -/
def checkArms (r : Rules) (paths : Paths) : List (Option Node × Node) → Check Paths
  | [] => do return paths.add .normal (← env)
  | (none, body) :: _ => do
    let flow := (← r.visit body).flow
    return paths.add flow (← env)
  | (some test, body) :: rest => do
    let b ← r.condition test
    let known := b.known?
    let paths ← if known = some false then pure paths else do
      setEnv b.split.yes
      let flow := (← r.visit body).flow
      pure (paths.add flow (← env))
    if known = some true then return paths
    else
      setEnv b.split.no
      r.checkArms paths rest

/-- Goes on where some paths meet, if there are any. -/
def joinPaths (exits : List Env) : Check Unit := do
  match Env.joinAll? exits with
  | some joined => setEnv joined
  | none => pure ()

def ifStatement (r : Rules) (node : Node) : Check Flow := do
  let paths ← r.checkArms {} (ifArms node)
  joinPaths paths.exits
  return paths.flow.getD .normal

/-- The clauses of a `switch` so far. -/
structure Clauses where
  hasDefault : Bool := false
  /-- The environment in which the last clause ends, if control goes on there. -/
  fallthrough : Option Env := none
deriving Inhabited

/-- Checks a clause, into which the one before it may run. -/
def switchClause (r : Rules) (entry : Env) (cs : Clauses) (clause : Node) : Check Clauses := do
  setEnv ((cs.fallthrough.map entry.merge).getD entry)
  let body (hasDefault : Bool) : Check Clauses := do
    let flow ← r.statements clause.positional
    let e ← env
    return { hasDefault, fallthrough := if flow.isNormal then some e else none }
  match clause.kind with
  | .caseClause =>
    let _ ← r.expr? (clause.childBy? "value")
    body cs.hasDefault
  | .defaultClause => body true
  | _ => return cs

def switchStatement (r : Rules) (node : Node) : Check Flow := do
  let _ ← r.expr? (node.childBy? "subject")
  let entry ← env
  let (cs, jumps) ← inLoop (node.positional.foldlM (r.switchClause entry) {})
  let exits := cs.fallthrough.toList ++ jumps.breaks ++ jumps.continues
    ++ (if cs.hasDefault then [] else [entry])
  joinPaths exits
  return if exits.isEmpty then .exit else .normal

/-- The instances that a clause catches. -/
def caughtTypes (s : Scope) (clause : Node) : TyUnion :=
  let names := ((clause.childBy? "types").map Node.positional).getD []
  (TyUnion.ofList (names.map fun name => .object (s.classReference name.textD))).orElse
    (.of (.object "Throwable"))

/-- Checks a clause that is entered from anywhere in the body it guards. -/
def catchClause (r : Rules) (entry : Env) (paths : Paths) (clause : Node) : Check Paths := do
  setEnv entry
  match clause.childBy? "variable" with
  | some caught => bindVariable caught.textD (caughtTypes (← scope) clause)
  | none => pure ()
  match clause.childBy? "body" with
  | some body =>
    let flow ← r.block body
    return paths.add flow (← env)
  | none => return paths

def tryStatement (r : Rules) (node : Node) : Check Flow := do
  let entry ← env
  let paths : Paths ← match node.childBy? "body" with
    | some body => do
      let flow ← r.block body
      pure (Paths.add {} flow (← env))
    | none => pure {}
  let handlerEntry ← snapshot (entry.merge (← env))
  let paths ← (node.childrenBy "catch").foldlM (r.catchClause handlerEntry) paths
  let flow := paths.flow.getD .normal
  match (node.childBy? "finally").bind (·.childBy? "body") with
  | some body =>
    setEnv (paths.exits.foldl Env.merge handlerEntry)
    let last ← r.block body
    return if !last.isNormal then last else if paths.exits.isEmpty then flow else .normal
  | none =>
    joinPaths paths.exits
    return if paths.exits.isEmpty then flow else .normal

/-! ### Jumps -/

/-- The number of loops that a jump leaves; it is one unless a number says
otherwise. -/
def jumpDepth (node : Node) : Nat :=
  let digits? := (node.fieldText? "depth").map fun text => match text.toList with
    | '+' :: rest => rest
    | cs => cs
  let depth? := (digits?.bind (readNat? 10)).filter (· < UInt64.size)
  max (depth?.getD 1) 1

def jumpStatement (node : Node) : Check Flow := do
  let _ ← env
  modifyScope (·.recordJump (jumpDepth node) (node.kind == .continueStatement))
  return .jump

/-- What is wrong with returning a value, or nothing, from a function. -/
def returnMistake? (h : Hierarchy) (f : FunctionContext) (ty : Option TyUnion) : Option String :=
  if f.isGenerator then none
  else f.declared.bind fun declared =>
    match ty with
    | some ty =>
      if declared.isEmpty then
        if ty.isEmpty then none
        else some s!"{f.name}() has no return value but returns {ty.text}"
      else if ty.compliesWith h declared then none
      else some s!"{f.name}() must return {declared.text}, {ty.text} returned"
    | none =>
      if declared.isEmpty then none
      else some s!"{f.name}() must return a value of type {declared.text}"

/-- Checks what is returned against the declared type. -/
def checkReturn (node : Node) (ty : Option TyUnion) : Check Unit := do
  match (← scope).function with
  | some f =>
    match returnMistake? (← hierarchy) f ty with
    | some message => report .returnTypeMismatch node message
    | none => pure ()
  | none => pure ()

/-- `return value`; outside of functions it ends the file. -/
def returnStatement (r : Rules) (node : Node) : Check Flow := do
  let ty ← r.expr? (node.childBy? "value")
  if (← scope).function.isSome then
    match ty with
    | some ty => modifyScope (·.observeReturn ty)
    | none => pure ()
    checkReturn node ty
  else
    returnFromFile (ty.getD (.of .null))
  return .exit

def gotoStatement (node : Node) : Check Flow := do
  report .unsupportedConstruct node "goto is not supported"
  return .exit

def declareStatement (r : Rules) (node : Node) : Check Flow := do
  match node.childBy? "body" with
  | some body => return (← r.visit body).flow
  | none => return .normal

/-! ### Names -/

def namespaceDefinition (r : Rules) (node : Node) : Check Flow := do
  setNames (.enter (node.fieldText? "name"))
  match node.childBy? "body" with
  | some body =>
    let flow ← r.block body
    setNames (.enter none)
    return flow
  | none => return .normal

def useDeclaration (node : Node) : Check Flow := do
  modifyScope fun s => { s with names := s.names.importAll node }
  return .normal

/-- `global $x`, after which nothing is known of the variable. -/
def globalDeclaration (node : Node) : Check Flow := do
  node.positional.forM fun n => do
    if n.kind == .variableName then bindVariable n.textD .mixed
  return .normal

/-- `static $x = value`.  The variable keeps its value from one call to the next. -/
def staticDeclaration (r : Rules) (node : Node) : Check Flow := do
  node.positional.forM fun n => do
    match n.fieldText? "name" with
    | some name =>
      let ty ← r.expr? (n.childBy? "default")
      bindVariable name ((ty.map TyUnion.asInitial).getD .mixed)
    | none => pure ()
  return .normal

def unsetStatement (r : Rules) (node : Node) : Check Flow := do
  node.positional.forM fun target => do
    if target.kind == .variableName then
      modifyScope fun s => { s with env := s.env.erase target.textD }
    else
      let _ ← r.probe target
  return .normal

/-- Evaluates the constants of a declaration and adds them; `check` sees each of
them first. -/
def declareConstants (r : Rules) (node : Node) (check : String → Node → Check Unit) :
    Check Unit :=
  (node.childrenBy "element").forM fun element => do
    match element.fieldText? "name", element.childBy? "value" with
    | some name, some value =>
      let ty ← r.expr value
      check name element
      let qualified := (← scope).names.qualify name
      modifyRegistry (·.addConstant qualified ty)
    | _, _ => pure ()

def constDeclaration (r : Rules) (node : Node) : Check Flow := do
  r.declareConstants node checkConstantName
  return .normal

end Rules

end PhpCheck
