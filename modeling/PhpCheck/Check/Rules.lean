import PhpCheck.Check.Monad

/-!
The rules for the parts of a construct, and what rules for different constructs
share: evaluating, assigning, probing, and referring to classes.
-/

namespace PhpCheck

/-- How nodes are checked.  The rule for a construct is given the rules for its
parts. -/
structure Rules where
  /-- Checks a node.  A value being assigned is written to it, if it can be written
  to. -/
  visit : Node → Check Inferred
  /-- Checks a node as a condition. -/
  split : Node → Check Branches

namespace Rules

open Check

/-- The type of an expression. -/
def expr (r : Rules) (node : Node) : Check TyUnion := do return (← r.visit node).ty

/-- Evaluates some expressions for what is found in them. -/
def exprs (r : Rules) (nodes : List Node) : Check Unit := nodes.forM fun n => do
  let _ ← r.expr n

/-- The type of an expression that may be left out. -/
def expr? (r : Rules) : Option Node → Check (Option TyUnion)
  | some node => do return some (← r.expr node)
  | none => return none

/-- Writes a value to a target. -/
def assign (r : Rules) (target : Node) (value : TyUnion) : Check TyUnion := do
  return (← whileAssigning value (r.visit target)).ty

/-- The type of an expression in which reading what is not bound is no mistake. -/
def probe (r : Rules) (node : Node) : Check TyUnion := whileProbing (r.expr node)

/-- Checks a condition.  Behind it, either outcome is possible. -/
def condition (r : Rules) (node : Node) : Check Branches := do
  let b ← r.split node
  setEnv b.split.joined
  return b

/-- Evaluates the arguments of a call of which nothing is known. -/
def visitArguments (r : Rules) (arguments : Option Node) : Check Unit :=
  r.exprs ((arguments.map Node.positional).getD [] |>.filterMap (·.childBy? "value"))

end Rules

/-! ### Classes -/

/-- The class that a name refers to in a scope. -/
def Scope.classReference (s : Scope) (name : String) : String :=
  match name.toLower with
  | "self" | "static" => (s.classContext.map (·.name)).getD name
  | "parent" => (s.classContext.bind (·.parent)).getD name
  | _ => s.names.resolveClass name

namespace Check

/-- Words that refer to a class by its relation to the current one. -/
def isRelative (name : String) : Bool := ["self", "static", "parent"].contains name.toLower

def classReference (name : String) : Check String := do return (← scope).classReference name

/-- Whether the declaration of a class is known, after it was looked for.  A class
that is nowhere to be found is reported once. -/
def ensureClass (name : String) (node : Node) : Check Bool := do
  let r ← registry
  if (r.declaredClass? name).isSome then return true
  else
    let loaded ← if r.hasClass name then pure false else autoload name
    if loaded && ((← registry).declaredClass? name).isSome then return true
    else
      modifyRegistry (·.addUnknown name)
      reportMissing name node
      return false

/-- A class that is known, or nothing. -/
def knownClass? (name : String) (node : Node) : Check (Option String) := do
  return if ← ensureClass name node then some name else none

end Check

/-- The class that a type names when it stands in front of a member. -/
def TyUnion.namedClass? (u : TyUnion) : Option String :=
  match u.single? with
  | some (.object name) | some (.classOf name) => some name
  | some (.string (some name)) => some (unrooted name)
  | _ => none

/-- The class in front of `::`.  It is not known for relative names in traits. -/
def Rules.scopeClass? (r : Rules) (node : Node) : Check (Option String) := do
  if node.kind == .name then
    let s ← Check.scope
    let name := s.classReference node.textD
    if Check.isRelative node.textD then
      return if s.classContext.all (·.isTrait) || sameName name node.textD then none else some name
    else Check.knownClass? name node
  else
    match (← r.expr node).namedClass? with
    | some name => Check.knownClass? name node
    | none => return none

/-! ### Passing values -/

def isNumericText (text : String) : Bool := (Double.read? (trimmed text.toList)).isSome

/-- Conversions that take place when a scalar is passed. -/
def Ty.coercible (value expected : Ty) : Bool :=
  match value with
  | .int _ => match expected with
    | .string none | .bool none => true
    | _ => false
  | .float _ => match expected with
    | .string none | .int none | .bool none => true
    | _ => false
  | .string text => match expected with
    | .int none | .float none => text.any isNumericText
    | .bool none => true
    | _ => false
  | .bool _ => match expected with
    | .int none | .float none | .string none => true
    | _ => false
  | .optional content _ => content.coercible expected
  | _ => false

/-- Whether a value may be passed where a type is expected. -/
def TyUnion.acceptedBy (h : Hierarchy) (value expected : TyUnion) : Bool :=
  value.matchesSome h expected
    || (!value.isEmpty && value.members.all fun m => expected.members.any (m.coercible ·))

def Check.accepts (value expected : TyUnion) : Check Bool := do
  return value.acceptedBy (← hierarchy) expected

end PhpCheck
