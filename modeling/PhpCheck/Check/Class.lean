import PhpCheck.Check.Call
import PhpCheck.Check.Function
import PhpCheck.Registry.Traits

/-!
Classes, interfaces and traits: making them known, and checking their bodies.
-/

namespace PhpCheck

open Check

namespace Node

def modifiers (node : Node) : List String :=
  (node.childrenBy "modifier").map fun m => m.textD.toLower

def hasModifier (node : Node) (modifier : String) : Bool := node.modifiers.contains modifier

/-- The visibility of a member; without a word for it, all code may use it. -/
def visibility (node : Node) : Visibility :=
  (node.modifiers.findSome? Visibility.ofText?).getD .everyone

def classKind (node : Node) : ClassKind :=
  match node.kind with
  | .interfaceDeclaration => .interface
  | .traitDeclaration => .trait
  | _ => .ordinary

/-- The declarations in the body of a class. -/
def members (node : Node) : List Node := ((node.childBy? "body").map Node.positional).getD []

/-- The names in a role, where one or a list of them may stand. -/
def namesIn (node : Node) (field : String) : List Node :=
  match node.childBy? field with
  | some list => if list.kind == .nameList then list.positional else [list]
  | none => []

/-- The names of the classes that a class is built on. -/
def bases (node : Node) : List Node :=
  if node.kind == .interfaceDeclaration then node.namesIn "extends"
  else (node.childBy? "extends").toList ++ node.namesIn "implements"

/-- The table that a property or method belongs to. -/
def memberKind (node : Node) (plain static : MemberKind) : MemberKind :=
  if node.hasModifier "static" then static else plain

end Node

/-- A class without its members. -/
def NameContext.skeleton (c : NameContext) (node : Node) (className file : String) : ClassInfo :=
  let resolve (n : Node) : String := c.resolveClass n.textD
  let info := ClassInfo.ofName className node.classKind
  let info := match node.kind with
    | .interfaceDeclaration => info.withInterfaces ((node.namesIn "extends").map resolve)
    | _ =>
      let info := match node.childBy? "extends" with
        | some parent => info.withParent (resolve parent)
        | none => info
      info.withInterfaces ((node.namesIn "implements").map resolve)
  { info with isAbstract := node.hasModifier "abstract", origin := some file }

/-- The rule that a line in the block of a trait use states. -/
def NameContext.traitRule? (c : NameContext) (rule : Node) : Option TraitRule :=
  match rule.kind with
  | .traitPrecedence => do
    return .insteadOf (c.resolveClass (← rule.fieldText? "trait")) (← rule.fieldText? "method")
      ((rule.namesIn "insteadof").map fun n => c.resolveClass n.textD)
  | .traitAlias => do
    return .renamed ((rule.fieldText? "trait").map c.resolveClass) (← rule.fieldText? "method")
      (rule.fieldText? "alias")
      ((rule.fieldText? "modifier").bind fun m => Visibility.ofText? m.toLower)
  | _ => none

/-- What the body of a class declares. -/
structure ClassParts where
  own : List (MemberKind × Member) := []
  traits : List String := []
  rules : List TraitRule := []

namespace ClassParts

def addMember (p : ClassParts) (kind : MemberKind) (m : Member) : ClassParts :=
  { p with own := p.own ++ [(kind, m)] }

end ClassParts

/-- A class with its members.  Its own ones stand in for those of traits. -/
def ClassInfo.populate (c : ClassInfo) (order : Order) (p : ClassParts) (traits : List ClassInfo) :
    ClassInfo × List TraitCollision :=
  let (c, collisions) := if traits.isEmpty then (c, []) else c.importTraits traits p.rules order
  (p.own.foldl (fun c (kind, m) => c.addMember kind m) c, collisions)

namespace Rules

/-- The context of the body of a class. -/
def classContext (node : Node) (className : String) : Check ClassContext := do
  return {
    name := className
    parent := ((← registry).class? className).bind (·.parent)
    isTrait := node.kind == .traitDeclaration }

/-- Takes a step inside the body of a class. -/
def inClass {α : Type} (node : Node) (className : String) (step : Check α) : Check α := do
  let body := (← scope).classBody (← classContext node className)
  return (← inScope body step).1

/-! ### Members -/

/-- The constants of a declaration. -/
def constantMembers (r : Rules) (className : String) (item : Node) (p : ClassParts) :
    Check ClassParts :=
  (item.childrenBy "element").foldlM (fun p element => do
    match element.fieldText? "name", element.childBy? "value" with
    | some name, some value =>
      let ty ← r.expr value
      return p.addMember .constant { name, ty, visibility := item.visibility, owner := className }
    | _, _ => return p) p

/-- The properties of a declaration.  Without a declared type, a property has the
type of its default. -/
def propertyMembers (r : Rules) (className : String) (item : Node) (p : ClassParts) :
    Check ClassParts := do
  let doc := (item.doc?.map DocComment.read).getD {}
  let declared ← declaredType (← typeContext []) item "type" (doc.var? none) "property type"
  let kind := item.memberKind .property .staticProperty
  (item.childrenBy "element").foldlM (fun p element => do
    match element.fieldText? "name" with
    | some name =>
      let ty ← match declared with
        | some ty => pure ty
        | none => do
          let default ← r.expr? (element.childBy? "default")
          pure ((default.map TyUnion.asInitial).getD .mixed)
      return p.addMember kind
        { name, ty, declared, visibility := item.visibility, owner := className }
    | none => return p) p

/-- The properties that the parameters of a constructor declare. -/
def promotedMembers (className : String) (d : FunctionDecl) (p : ClassParts) : ClassParts :=
  d.params.foldl (fun p b => match b.promoted with
    | some visibility => p.addMember .property
        { name := b.param.name, ty := b.param.ty.getD .mixed, declared := b.param.ty, visibility
          owner := className }
    | none => p) p

/-- A method. -/
def methodMember (r : Rules) (className : String) (isInterface : Bool) (item : Node)
    (p : ClassParts) : Check ClassParts := do
  match item.fieldText? "name" with
  | some name =>
    let d ← r.declaration name item
    let p := if sameName name "__construct" then promotedMembers className d p else p
    let m := Member.ofSignature d.signature item.visibility className
    return p.addMember (item.memberKind .method .staticMethod)
      { m with isAbstract := isInterface || item.hasModifier "abstract" }
  | none => return p

/-- Makes sure of the traits that a class uses; their names. -/
def usedTraits (item : Node) : Check (List String) :=
  (item.namesIn "traits").mapM fun n => do
    let qualified := (← scope).names.resolveClass n.textD
    let _ ← ensureClass qualified n
    return qualified

/-- What one declaration in the body of a class contributes. -/
def classPart (r : Rules) (className : String) (isInterface : Bool) (p : ClassParts)
    (item : Node) : Check ClassParts := do
  match item.kind with
  | .classConstDeclaration => r.constantMembers className item p
  | .propertyDeclaration => r.propertyMembers className item p
  | .methodDeclaration => r.methodMember className isInterface item p
  | .traitUse =>
    let traits ← usedTraits item
    let rules := (item.childrenBy "adaptation").filterMap (← scope).names.traitRule?
    return { p with traits := p.traits ++ traits, rules := p.rules ++ rules }
  | _ => return p

/-- The properties that the doc comment of a class declares. -/
def documentedMembers (className : String) (node : Node) : Check ClassParts := do
  let context ← typeContext []
  let doc := (node.doc?.map DocComment.read).getD {}
  return doc.properties.foldl (fun p (name, expression) =>
    let ty := context.resolve expression
    p.addMember .property { name, ty, declared := some ty, owner := className }) {}

/-- Fills in the members of a class that is known. -/
def populateClass (r : Rules) (node : Node) (className : String) :
    Check (List TraitCollision) := do
  let isInterface := node.kind == .interfaceDeclaration
  let parts ← inClass node className do
    node.members.foldlM (r.classPart className isInterface) (← documentedMembers className node)
  let known ← registry
  match known.class? className with
  | some info =>
    let (info, collisions) :=
      info.populate known.order parts (parts.traits.filterMap known.declaredClass?)
    modifyRegistry (·.modifyClass className fun _ => info)
    return collisions
  | none => return []

/-! ### Declaring -/

/-- Makes a class known without its members; whether it is new. -/
def declareSkeleton (node : Node) (className : String) : Check Bool := do
  let isNew := ((← registry).declaredClass? className).isNone
  let info := (← scope).names.skeleton node className (← currentFile)
  if isNew then
    modifyRegistry (·.addClass info)
    noteClass className
    noteHoisted node
  return isNew

/-- Reports members that several traits define. -/
def reportCollisions (node : Node) (className : String) (collisions : List TraitCollision) :
    Check Unit :=
  collisions.forM fun c => do
    let traits := ", ".intercalate c.traits
    let winner := c.traits.getLastD ""
    report .traitCollision node
      s!"{className}::{c.member}() is defined by traits {traits}; {winner} wins"

/-- Makes a class known with its members, unless it is. -/
def declareClass (r : Rules) (node : Node) (className : String) : Check Unit := do
  if ← declareSkeleton node className then
    reportCollisions node className (← r.populateClass node className)

/-! ### Checking -/

/-- Checks the defaults of properties against their declared types. -/
def checkProperty (r : Rules) (className : String) (item element : Node) : Check Unit := do
  match element.fieldText? "name", element.childBy? "default" with
  | some name, some default =>
    let value ← r.expr default
    let kind := item.memberKind .property .staticProperty
    let declared := (((← registry).class? className).bind fun c => (c.table kind).get? name).bind
      (·.declared)
    match declared with
    | some declared =>
      unless ← accepts value declared do
        report .assignmentTypeMismatch element
          s!"default value of {className}::${name} must be {declared.text}, {value.text} given"
    | none => pure ()
  | _, _ => pure ()

def checkClassConstant (r : Rules) (element : Node) : Check Unit := do
  match element.fieldText? "name" with
  | some name => checkConstantName name element
  | none => pure ()
  let _ ← r.expr? (element.childBy? "value")

/-- Checks a method.  In a class of this file, the result that was found becomes
part of its signature. -/
def checkMethod (r : Rules) (className : String) (own : Bool) (node : Node) : Check Unit := do
  match node.childBy? "name" with
  | some nameNode =>
    let name := nameNode.textD
    checkName .method name nameNode s!"method name {className}::{name}() should be camelCase"
    let d ← r.declaration name node
    match node.childBy? "body" with
    | some body =>
      let outcome ← r.checkBody body d s!"{className}::{name}" (node.hasModifier "static")
        .statements
      if own && d.declared.isNone then
        modifyRegistry (·.updateMethod className name (d.inferred outcome.returns))
    | none => pure ()
  | none => pure ()

/-- Checks one declaration in the body of a class. -/
def checkMember (r : Rules) (className : String) (own : Bool) (item : Node) : Check Unit := do
  match item.kind with
  | .classConstDeclaration => (item.childrenBy "element").forM r.checkClassConstant
  | .propertyDeclaration => (item.childrenBy "element").forM (r.checkProperty className item)
  | .methodDeclaration => r.checkMethod className own item
  | .traitUse =>
    let _ ← usedTraits item
  | _ => pure ()

/-- Checks the classes that a class is built on, and its body. -/
def checkClass (r : Rules) (node : Node) (className : String) : Check Unit := do
  node.bases.forM fun n => do
    let qualified := (← scope).names.resolveClass n.textD
    let _ ← ensureClass qualified n
  inClass node className do
    let own ← isOwnClass className
    node.members.forM (r.checkMember className own)

/-- A class reached as a statement; it may be known already. -/
def classDeclaration (r : Rules) (node : Node) : Check Flow := do
  match node.childBy? "name" with
  | some nameNode =>
    let name := nameNode.textD
    checkName .classLike name nameNode s!"class name {name} should be PascalCase"
    let className := (← scope).names.qualify name
    unless ← isHoisted node do r.declareClass node className
    r.checkClass node className
  | none => pure ()
  return .normal

/-! ### Instances -/

/-- `new class ...`, whose name is made up from its place. -/
def anonymousClass (r : Rules) (node : Node) : Check TyUnion := do
  let file ← currentFile
  let className := s!"class@anonymous{file}:{node.span.start}"
  if ((← registry).declaredClass? className).isNone then
    let info := (← scope).names.skeleton node className file
    modifyRegistry (·.addClass info)
    noteClass className
    reportCollisions node className (← r.populateClass node className)
  r.checkClass node className
  r.construct node className (node.childBy? "arguments")
  return .of (.object className)

/-- Makes an instance of a class. -/
def instantiate (r : Rules) (node classNode : Node) (className : String) : Check TyUnion := do
  let arguments := node.childBy? "arguments"
  if ← ensureClass className classNode then
    r.construct node className arguments
    return .of (.object ((((← registry).declaredClass? className).map (·.name)).getD className))
  else
    r.visitArguments arguments
    return .of (.object className)

/-- `new Name(...)` -/
def newExpression (r : Rules) (node : Node) : Check TyUnion := do
  match node.childBy? "class" with
  | none => return .mixed
  | some classNode =>
    match classNode.kind with
    | .anonymousClass => r.anonymousClass classNode
    | .name => r.instantiate node classNode (← classReference classNode.textD)
    | _ =>
      match (← r.expr classNode).namedClass? with
      | some className => r.instantiate node classNode className
      | none =>
        r.visitArguments (node.childBy? "arguments")
        return .mixed

end Rules

end PhpCheck
