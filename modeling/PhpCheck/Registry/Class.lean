import PhpCheck.Table
import PhpCheck.Types.Union

/-!
Classes, interfaces and traits with their members.
-/

namespace PhpCheck

inductive ClassKind where
  | ordinary | interface | trait
deriving DecidableEq, Inhabited

/-- Who may use a member: all code, its class and the classes below it, or its
class alone. -/
inductive Visibility where
  | everyone | heirs | owner
deriving DecidableEq, Inhabited

namespace Visibility

def text : Visibility → String
  | .everyone => "public"
  | .heirs => "protected"
  | .owner => "private"

def ofText? : String → Option Visibility
  | "public" => some .everyone
  | "protected" => some .heirs
  | "private" => some .owner
  | _ => none

end Visibility

/-- A method, property or constant of a class. -/
structure Member where
  /-- The name as declared; a property's has no dollar sign. -/
  name : String
  /-- The type that a reader sees. -/
  ty : TyUnion
  /-- The type that a written value must have. -/
  declared : Option TyUnion := none
  visibility : Visibility := .everyone
  /-- The class whose body declares the member. -/
  owner : String
  isAbstract : Bool := false
deriving Inhabited

namespace Member

def ofSignature (f : Signature) (visibility : Visibility) (owner : String) : Member :=
  { name := f.name.getD "", ty := .of (.function f), visibility, owner }

/-- The signature of a method. -/
def signature? (m : Member) : Option Signature :=
  match m.ty.single? with
  | some (.function f) => some f
  | _ => none

end Member

/-- The sorts of members; each has names of its own. -/
inductive MemberKind where
  | method | staticMethod | property | staticProperty | constant
deriving DecidableEq, Inhabited

namespace MemberKind

def all : List MemberKind := [.method, .staticMethod, .property, .staticProperty, .constant]

def isMethod : MemberKind → Bool
  | .method | .staticMethod => true
  | _ => false

/-- The word for a member in messages. -/
def text : MemberKind → String
  | .method | .staticMethod => "method"
  | .property | .staticProperty => "property"
  | .constant => "constant"

end MemberKind

/-- A name without the backslashes in front of it. -/
def unrooted (name : String) : String := String.ofList (name.toList.dropWhile (· == '\\'))

/-- Classes and functions are found without regard to leading backslashes and to
the case of ASCII letters. -/
def symbolKey (name : String) : String := (unrooted name).toLower

/-- What is known of a class, an interface or a trait. -/
structure ClassInfo where
  /-- The qualified name as declared. -/
  name : String
  kind : ClassKind := .ordinary
  parent : Option String := none
  interfaces : List String := []
  isAbstract : Bool := false
  /-- The class was mentioned but its declaration is not known: it may have any
  member. -/
  placeholder : Bool := false
  /-- Properties need not be declared. -/
  dynamic : Bool := false
  /-- The file that declares the class. -/
  origin : Option String := none
  methods : Table Member := .empty
  staticMethods : Table Member := .empty
  properties : Table Member := .empty
  staticProperties : Table Member := .empty
  constants : Table Member := .empty
deriving Inhabited

namespace ClassInfo

def ofName (name : String) (kind : ClassKind) : ClassInfo :=
  { name := unrooted name, kind }

/-- A class of which only the name is known. -/
def unknown (name : String) : ClassInfo := { ofName name .ordinary with placeholder := true }

def withParent (c : ClassInfo) (parent : String) : ClassInfo :=
  { c with parent := some (unrooted parent) }

def withInterfaces (c : ClassInfo) (interfaces : List String) : ClassInfo :=
  { c with interfaces := interfaces.map unrooted }

/-- The members of a sort. -/
def table (c : ClassInfo) : MemberKind → Table Member
  | .method => c.methods
  | .staticMethod => c.staticMethods
  | .property => c.properties
  | .staticProperty => c.staticProperties
  | .constant => c.constants

def withTable (c : ClassInfo) (kind : MemberKind) (t : Table Member) : ClassInfo :=
  match kind with
  | .method => { c with methods := t }
  | .staticMethod => { c with staticMethods := t }
  | .property => { c with properties := t }
  | .staticProperty => { c with staticProperties := t }
  | .constant => { c with constants := t }

/-- Adds a member, in place of one with the same name. -/
def addMember (c : ClassInfo) (kind : MemberKind) (m : Member) : ClassInfo :=
  c.withTable kind ((c.table kind).insert m.name m)

def addMethod (c : ClassInfo) (f : Signature) (visibility : Visibility) (isStatic : Bool) :
    ClassInfo :=
  c.addMember (if isStatic then .staticMethod else .method) (.ofSignature f visibility c.name)

/-- How the members of a class are gone through, sort by sort.  They are kept by their names, and
in no order that could be relied on: each class may have its own. -/
structure Order where
  list : ClassInfo → MemberKind → List Member
  perm : ∀ c kind, (list c kind).Perm (c.table kind).values

/-- Members are gone through in the order of their names. -/
def Order.byName : Order := ⟨fun c kind => (c.table kind).values, fun _ _ => .refl _⟩

instance : Inhabited Order := ⟨.byName⟩

/-- How closely a member's name must be spelled. -/
inductive Spelling where
  | exact | anyCase
deriving DecidableEq

/-- The member of a class with a name.  An exactly spelled one comes first; of several that differ
from the name in the case of letters, it is the first that is come across. -/
def member? (c : ClassInfo) (order : Order) (kind : MemberKind) (name : String)
    (spelling : Spelling) : Option Member :=
  match (c.table kind).get? name, spelling with
  | some m, _ => some m
  | none, .exact => none
  | none, .anyCase => (order.list c kind).find? (sameName ·.name name)

/-- A method of the class, be it static or not. -/
def method? (c : ClassInfo) (name : String) (order : Order := .byName) : Option Member :=
  (c.member? order .method name .anyCase).or (c.member? order .staticMethod name .anyCase)

theorem table_withTable (c : ClassInfo) (kind other : MemberKind) (t : Table Member) :
    (c.withTable kind t).table other = if kind = other then t else c.table other := by
  cases kind <;> cases other <;> rfl

end ClassInfo

end PhpCheck
