import PhpCheck.Check.Element
import PhpCheck.Check.Rules

/-!
Properties, class constants and elements.
-/

namespace PhpCheck

open Check

/-- A value that is a known text. -/
def TyUnion.text? (u : TyUnion) : Option String :=
  match u.value? with
  | some (.string s) => some s
  | _ => none

namespace Rules

/-- The name of a member: a word, or an expression whose value is known. -/
def memberName? (r : Rules) (node : Node) : Check (Option String) := do
  if node.kind == .name then return some node.textD
  else return (← r.expr node).text?

end Rules

namespace Check

/-! ### Properties -/

/-- Reads or writes a property of a class. -/
def accessMember (node : Node) (className : String) (kind : MemberKind) (name : String)
    (assigning : Option TyUnion) : Check TyUnion := do
  let s ← scope
  let resolved ← match (← registry).findMember className kind name s.callingClass with
    | .found m => pure (some m)
    | .inaccessible m => do
      unless s.probing do
        report .scopeViolation node
          s!"cannot access {m.visibility.text} {kind.text} {m.owner}::${name}"
      pure (some m)
    | .missing => do
      unless s.probing do
        report .noSuchMember node s!"undefined {kind.text} {className}::${name}"
      pure none
  match resolved, assigning with
  | none, _ => return if s.probing then .of .null else .mixed
  | some m, none => return m.ty
  | some m, some value =>
    match m.declared with
    | some declared =>
      unless ← accepts value declared do
        report .assignmentTypeMismatch node
          s!"cannot assign {value.text} to {m.owner}::${name} of type {declared.text}"
    | none => pure ()
    return value

/-- Reads or writes a property of what an object may be.  Values without members
are reported where nothing else is possible. -/
def accessReceiver (node : Node) (name : String) (assigning : Option TyUnion)
    (onlyScalars : Bool) (result : TyUnion) : Receiver → Check TyUnion
  | .object className => do
    let ty ← if ← ensureClass className node then
        accessMember node className .property name assigning
      else pure .mixed
    return result.union ty
  | .null => do
    return result.add (if node.hasFlag "nullsafe" || (← scope).probing then .null else .mixed)
  | .unknown => return result.add .mixed
  | .scalar ty => do
    if onlyScalars && !(← scope).probing then
      report .noSuchMember node s!"property ${name} accessed on {ty.text}"
    return result.add .mixed

end Check

namespace Rules

/-- `object->name` -/
def propertyAccess (r : Rules) (node : Node) (assigning : Option TyUnion) : Check TyUnion := do
  match node.childBy? "object", node.childBy? "name" with
  | some object, some nameNode =>
    let objectTy ← r.expr object
    match ← r.memberName? nameNode with
    | some name =>
      let receivers := Receiver.ofUnion objectTy
      let result ← receivers.foldlM
        (accessReceiver node name assigning (receivers.all Receiver.isScalar)) .empty
      return assigning.getD result
    | none => return assigning.getD .mixed
  | _, _ => return assigning.getD .mixed

/-- `Scope::$name` -/
def staticPropertyAccess (r : Rules) (node : Node) (assigning : Option TyUnion) :
    Check TyUnion := do
  match node.childBy? "scope", node.childBy? "name" with
  | some scopeNode, some nameNode =>
    match ← r.scopeClass? scopeNode with
    | some className =>
      let name? ← if nameNode.kind == .variableName then pure (some nameNode.textD)
        else r.memberName? nameNode
      match name? with
      | some name =>
        let ty ← accessMember node className .staticProperty name assigning
        return assigning.getD ty
      | none => return assigning.getD .mixed
    | none => return assigning.getD .mixed
  | _, _ => return assigning.getD .mixed

/-! ### Class constants -/

/-- `Scope::class`, the name of a class, for which the class need not be known.  In
a trait and for `static` the name is left open. -/
def className (r : Rules) (scopeNode : Node) : Check TyUnion := do
  if scopeNode.kind == .name then
    let s ← scope
    let word := scopeNode.textD
    let name := s.classReference word
    let unresolved := ["self", "parent"].contains word.toLower && sameName name word
    let inTrait := s.classContext.any (·.isTrait)
    return .of (.string (if unresolved || inTrait || sameName word "static" then none else some name))
  else
    let _ ← r.expr scopeNode
    return .of (.string none)

/-- `Scope::NAME` -/
def classConstant (r : Rules) (node : Node) : Check TyUnion := do
  match node.childBy? "scope", node.childBy? "name" with
  | some scopeNode, some nameNode =>
    let name := nameNode.textD
    if sameName name "class" then r.className scopeNode
    else match ← r.scopeClass? scopeNode with
      | some className =>
        match (← registry).findMember className .constant name (← scope).callingClass with
        | .found m => return m.ty
        | .inaccessible m =>
          report .scopeViolation node
            s!"cannot access {m.visibility.text} constant {m.owner}::{name}"
          return m.ty
        | .missing =>
          unless ← tolerant do
            report .noSuchMember node s!"undefined constant {className}::{name}"
          return .mixed
      | none => return .mixed
  | _, _ => return .mixed

/-! ### Elements -/

/-- What a container is before an element is written.  Writing creates the
container, so that it need not be there. -/
def container? (r : Rules) (node : Node) : Check (Option TyUnion) := do
  match node.kind with
  | .variableName => lookup? node.textD
  | .subscriptExpression | .propertyAccess | .staticPropertyAccess => return some (← r.probe node)
  | _ => return some (← r.expr node)

/-- `object[index]` -/
def subscript (r : Rules) (node : Node) (assigning : Option TyUnion) : Check TyUnion := do
  match node.childBy? "object", assigning with
  | none, _ => return assigning.getD .mixed
  | some object, none =>
    let container ← r.expr object
    let _ ← r.expr? (node.childBy? "index")
    let element := container.element
    return if (← scope).probing then element.add .null else element
  | some object, some value =>
    let key ← r.expr? (node.childBy? "index")
    let current ← r.container? object
    let _ ← r.assign object (.withElement current key value)
    return value

end Rules

end PhpCheck
