import PhpCheck.Check.Class

/-!
Declarations that hold in all of a file, also before they are reached: classes
first, so that members may name any of them, then constants, members and
functions.
-/

namespace PhpCheck

open Check

/-- A declaration with the names in force where it stands. -/
abbrev Placed := NameContext × Node

/-- Gathers the declarations at the top of a file and of its namespaces, of which
there are at most `depth` inside one another, and the names in force behind
them. -/
def placedDeclarations : (depth : Nat) → NameContext → List Node → NameContext × List Placed
  | _, names, [] => (names, [])
  | depth, names, node :: rest =>
    let (names, found) : NameContext × List Placed := match node.kind with
      | .namespaceDefinition =>
        let entered := NameContext.enter (node.fieldText? "name")
        match node.childBy? "body", depth with
        | some body, depth + 1 =>
          (.enter none, (placedDeclarations depth entered body.positional).2)
        | some _, 0 => (.enter none, [])
        | none, _ => (entered, [])
      | .useDeclaration => (names.importAll node, [])
      | .constDeclaration | .functionDefinition | .classDeclaration | .interfaceDeclaration
      | .traitDeclaration => (names, [(names, node)])
      | _ => (names, [])
    let (names, more) := placedDeclarations depth names rest
    (names, found ++ more)
termination_by depth _ nodes => (depth, nodes.length)

/-- The order in which members are filled in, so that what a class uses comes
before it. -/
def memberOrder (node : Node) : Nat :=
  match node.kind with
  | .traitDeclaration => 0
  | .interfaceDeclaration => 1
  | _ => 2

namespace Rules

/-- Takes a step for each declaration, with the names in force there. -/
def forEach (declarations : List Placed) (step : Node → Check Unit) : Check Unit :=
  declarations.forM fun (names, node) => do
    setNames names
    step node

/-- The qualified name of a declaration. -/
def declaredName (node : Node) : Check String := do
  return (← scope).names.qualify ((node.fieldText? "name").getD "")

/-- Makes the declarations of a file known. -/
def hoistAll (r : Rules) (declarations : List Placed) : Check Unit := do
  let ofKind (p : NodeKind → Bool) : List Placed := declarations.filter fun (_, n) => p n.kind
  forEach (ofKind NodeKind.isClassLike) fun node => do
    let _ ← declareSkeleton node (← declaredName node)
  forEach (ofKind (· == .constDeclaration)) fun node =>
    quietly (r.declareConstants node fun _ _ => pure ())
  let hoisted ← hoistedStarts
  let classes := (ofKind NodeKind.isClassLike).filter fun (_, n) => hoisted.contains n.span.start
  forEach (classes.mergeSort fun a b => memberOrder a.2 ≤ memberOrder b.2) fun node => do
    let className ← declaredName node
    reportCollisions node className (← quietly (r.populateClass node className))
  forEach (ofKind (· == .functionDefinition)) fun node => quietly (r.declareFunction node)

/-- Makes the declarations at the top of a file known before its statements are
checked. -/
def hoist (r : Rules) (root : Node) : Check Unit := do
  let names := (← scope).names
  r.hoistAll (placedDeclarations root.height names root.positional).2
  setNames names

end Rules

end PhpCheck
