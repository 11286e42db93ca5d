import PhpCheck.Registry.Ancestry

/-!
Finding a member of a class, with regard to who asks.
-/

namespace PhpCheck

/-- What is known of a member that a lookup arrived at. -/
structure Resolved where
  ty : TyUnion
  declared : Option TyUnion
  visibility : Visibility
  owner : String
  /-- The declared spelling, if the name was spelled otherwise. -/
  spelling : Option String
  /-- There is no such member, but a catch-all method takes its place. -/
  magic : Bool
deriving Inhabited

namespace Resolved

/-- A member of which nothing is known. -/
def unknown (owner : String) : Resolved :=
  { ty := .mixed, declared := none, visibility := .everyone, owner, spelling := none
    magic := false }

def ofMember (m : Member) (requested : String) : Resolved :=
  { ty := m.ty, declared := m.declared, visibility := m.visibility, owner := m.owner
    spelling := if m.name = requested then none else some m.name, magic := false }

end Resolved

inductive Lookup where
  | found (member : Resolved)
  /-- The member exists, but the class that asks may not use it. -/
  | inaccessible (member : Resolved)
  | missing
deriving Inhabited

namespace Registry

/-- The tables that a name is looked up in: a method may be called either way. -/
def searched : MemberKind → List MemberKind
  | .method => [.method, .staticMethod]
  | .staticMethod => [.staticMethod, .method]
  | kind => [kind]

/-- The first member of that name in a class and its ancestors. -/
def search? (r : Registry) (className : String) (kind : MemberKind) (name : String)
    (spelling : ClassInfo.Spelling) : Option Member :=
  let ancestors := r.ancestors className
  (searched kind).findSome? fun kind => ancestors.findSome? (·.member? r.order kind name spelling)

/-- Whether the calling class may use a member.  Protected members are for heirs
of their owner, private ones for the owner. -/
def isVisible (r : Registry) (m : Member) (calling : Option String) : Bool :=
  match m.visibility with
  | .everyone => true
  | .heirs => calling.any (r.isSubclass · m.owner)
  | .owner => calling.any (symbolKey · == symbolKey m.owner)

/-- The method that takes the place of members that do not exist. -/
def catchAll? : MemberKind → Option String
  | .method => some "__call"
  | .staticMethod => some "__callStatic"
  | .property => some "__get"
  | _ => none

/-- Looks a member up for a calling class.  An exact spelling anywhere comes
before any other spelling; only then do unknown ancestors, catch-all methods and
dynamic properties excuse a member that was not found. -/
def findMember (r : Registry) (className : String) (kind : MemberKind) (name : String)
    (calling : Option String) : Lookup :=
  match r.class? className with
  | none => .missing
  | some c =>
    if c.placeholder then .found (.unknown c.name)
    else
      match (r.search? className kind name .exact).or (r.search? className kind name .anyCase) with
      | some m =>
        if r.isVisible m calling then .found (.ofMember m name)
        else .inaccessible (.ofMember m name)
      | none =>
        if r.hasUnknownAncestor className then .found (.unknown c.name)
        else if (catchAll? kind).any fun method =>
            (r.search? className .method method .anyCase).isSome then
          .found { Resolved.unknown c.name with magic := true }
        else if kind == .property && (r.ancestors className).any (·.dynamic) then
          .found (.unknown c.name)
        else .missing

end Registry

end PhpCheck
