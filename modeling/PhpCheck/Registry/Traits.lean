import PhpCheck.Registry.Class

/-!
Taking the members of traits into a class.
-/

namespace PhpCheck

/-- A rule on how methods of traits are taken over. -/
inductive TraitRule where
  /-- The method is not taken from the traits listed. -/
  | insteadOf (trait method : String) (excluded : List String)
  /-- The method is also taken under another name, or with another visibility. -/
  | renamed (trait : Option String) (method : String) (newName : Option String)
      (visibility : Option Visibility)
deriving Inhabited

/-- A method that several traits provide. -/
structure TraitCollision where
  member : String
  traits : List String
deriving DecidableEq, Inhabited

namespace ClassInfo

/-- Whether a rule keeps a method of a trait out. -/
def excluded (rules : List TraitRule) (trait method : String) : Bool :=
  rules.any fun
    | .insteadOf _ m traits => sameName m method && traits.any (sameName · trait)
    | .renamed .. => false

/-- A class in which traits are being taken over. -/
structure Import where
  target : ClassInfo
  /-- The traits that provided each method so far, by its name in lower case. -/
  providers : Table (List String) := .empty
  /-- Collisions, the latest first. -/
  collisions : List TraitCollision := []

namespace Import

/-- Takes a member over; it now belongs to the class. -/
def take (i : Import) (kind : MemberKind) (m : Member) : Import :=
  { i with target := i.target.addMember kind { m with owner := i.target.name } }

def takeMethod (rules : List TraitRule) (trait : String) (kind : MemberKind) (i : Import)
    (m : Member) : Import :=
  if excluded rules trait m.name then i
  else
    let key := m.name.toLower
    let seen := (i.providers.get? key).getD []
    let collisions :=
      if seen.isEmpty || seen.contains trait then i.collisions
      else ⟨m.name, seen ++ [trait]⟩ :: i.collisions
    { i with providers := i.providers.insert key (seen ++ [trait]), collisions }.take kind m

def takeTrait (order : Order) (rules : List TraitRule) (i : Import) (trait : ClassInfo) : Import :=
  let i := [MemberKind.method, .staticMethod].foldl
    (fun i kind => (order.list trait kind).foldl (takeMethod rules trait.name kind) i) i
  [MemberKind.property, .staticProperty, .constant].foldl
    (fun i kind => (order.list trait kind).foldl (·.take kind) i) i

/-- Applies the rules that rename, which look methods up in the traits themselves. -/
def takeAlias (order : Order) (traits : List ClassInfo) (i : Import) : TraitRule → Import
  | .insteadOf .. => i
  | .renamed trait method newName visibility =>
    let sources := traits.filter fun t => trait.all (sameName t.name)
    let source := sources.findSome? fun t =>
      [MemberKind.method, .staticMethod].findSome? fun kind =>
        (t.member? order kind method .anyCase).map fun m => (kind, m)
    match source with
    | none => i
    | some (kind, m) =>
      i.take kind { m with name := newName.getD m.name, visibility := visibility.getD m.visibility }

end Import

/-- Takes the members of traits over.  Of traits with the same member the last
one wins; methods that more than one trait provides are reported. -/
def importTraits (c : ClassInfo) (traits : List ClassInfo) (rules : List TraitRule)
    (order : Order := .byName) : ClassInfo × List TraitCollision :=
  let i := traits.foldl (Import.takeTrait order rules) { target := c }
  let i := rules.foldl (Import.takeAlias order traits) i
  (i.target, i.collisions.reverse)

end ClassInfo

end PhpCheck
