import PhpCheck.Numeric.Shortest

/-!
The types that the checker works with.  A union stands for "one of these"; an
optional type is a type together with the falsy values that signal its absence.
-/

namespace PhpCheck

/-- The falsy values that an optional type may have beside its content. -/
inductive Sentinel where
  | false | null | both
deriving DecidableEq, Inhabited

mutual

/-- A type.  Scalar types may be refined to a single value.  An array whose
member type is the empty union has members of any type. -/
inductive Ty where
  | mixed
  | void
  | bool (value : Option Bool)
  | int (value : Option Int64)
  | float (value : Option Double)
  | string (value : Option String)
  | null
  | resource
  | map (member : TyUnion)
  | list (member : TyUnion)
  | function (signature : Signature)
  /-- The class itself, as named by `Foo::class`. -/
  | classOf (name : String)
  /-- An instance of a class. -/
  | object (name : String)
  | optional (content : Ty) (sentinel : Sentinel)

/-- A set of alternatives.  The empty union is the type without a value. -/
structure TyUnion where
  members : List Ty

/-- What is known of a function. -/
structure Signature where
  name : Option String
  params : List Param
  result : TyUnion
  /-- The result type was declared, not inferred. -/
  declared : Bool
  /-- Positions of parameters that take a callback. -/
  callbacks : List Nat
  /-- Nothing is known of the parameters: any arguments are accepted. -/
  any : Bool

/-- A declared parameter; its type is absent when nothing is known of it. -/
structure Param where
  name : String
  ty : Option TyUnion
  byRef : Bool
  hasDefault : Bool
  variadic : Bool

end

instance : Inhabited Ty := ⟨.mixed⟩
instance : Inhabited TyUnion := ⟨⟨[]⟩⟩
instance : Inhabited Param := ⟨⟨"", none, false, false, false⟩⟩
instance : Inhabited Signature := ⟨⟨none, [], ⟨[]⟩, false, [], false⟩⟩

/-- A value known before the program runs. -/
inductive Constant where
  | bool (value : Bool)
  | int (value : Int64)
  | float (value : Double)
  | string (value : String)
  | null
deriving DecidableEq, Inhabited

namespace Constant

def toTy : Constant → Ty
  | .bool b => .bool (some b)
  | .int i => .int (some i)
  | .float f => .float (some f)
  | .string s => .string (some s)
  | .null => .null

/-- Texts that count as false. -/
def isFalsyText (s : String) : Bool := s.isEmpty || s == "0"

def isTruthy : Constant → Bool
  | .bool b => b
  | .int i => i != 0
  | .float f => !f.isZero
  | .string s => !isFalsyText s
  | .null => false

/-- Whether a number has no fractional part and fewer than sixteen digits. -/
def isShortInteger (d : Double) : Bool :=
  let f := d.toFloat
  f.floor == f && f.abs < 1e15

/-- The text that a value takes in a concatenation. -/
def text : Constant → String
  | .bool true => "1"
  | .bool false | .null => ""
  | .int i => toString i.toInt
  | .float f => if isShortInteger f then toString f.toFloat.toInt64.toInt else f.text
  | .string s => s

end Constant

namespace Sentinel

def union (a b : Sentinel) : Sentinel := if a = b then a else .both

/-- Whether every value of `b` is one of `a`. -/
def contains (a b : Sentinel) : Bool := a == b || a == .both

def hasNull (s : Sentinel) : Bool := s == .null || s == .both

def hasFalse (s : Sentinel) : Bool := s == .false || s == .both

/-- The values as types. -/
def types : Sentinel → List Ty
  | .false => [.bool (some Bool.false)]
  | .null => [.null]
  | .both => [.bool (some Bool.false), .null]

def toUnion (s : Sentinel) : TyUnion := ⟨s.types⟩

/-- The sentinel that a type stands for by itself. -/
def ofTy? : Ty → Option Sentinel
  | .bool (some Bool.false) => some .false
  | .null => some .null
  | _ => none

end Sentinel

namespace Ty

/-- An array with members of any type. -/
def array : Ty := .map ⟨[]⟩

/-- A type that may also be one of the sentinels.  An optional type gains the
sentinel, and `mixed` has every value already. -/
def makeOptional (content : Ty) (sentinel : Sentinel) : Ty :=
  match content with
  | .optional content inner => .optional content (inner.union sentinel)
  | .mixed => .mixed
  | other => .optional other sentinel

def isMixed : Ty → Bool
  | .mixed => true
  | _ => false

def isNull : Ty → Bool
  | .null => true
  | _ => false

def isArray : Ty → Bool
  | .map _ | .list _ => true
  | _ => false

def isNumeric : Ty → Bool
  | .int _ | .float _ => true
  | _ => false

def isOptional : Ty → Bool
  | .optional _ _ => true
  | _ => false

/-- The value that a type is refined to. -/
def value? : Ty → Option Constant
  | .bool (some b) => some (.bool b)
  | .int (some i) => some (.int i)
  | .float (some f) => some (.float f)
  | .string (some s) => some (.string s)
  | .null => some .null
  | _ => none

/-- The type without its refinement. -/
def widened : Ty → Ty
  | .bool _ => .bool none
  | .int _ => .int none
  | .float _ => .float none
  | .string _ => .string none
  | other => other

/-- The type of the members of an array. -/
def member? : Ty → Option TyUnion
  | .map m | .list m => some m
  | _ => none

/-- The class of an instance or of a class. -/
def className? : Ty → Option String
  | .classOf name | .object name => some name
  | _ => none

/-- The key under which a union looks for a member of the same sort. -/
def key : Ty → String
  | .mixed => "mixed"
  | .void => "void"
  | .bool _ => "bool"
  | .int _ => "int"
  | .float _ => "float"
  | .string _ => "string"
  | .null => "null"
  | .resource => "resource"
  | .map _ | .list _ => "array"
  | .function _ => "callable"
  | .classOf name => "class:" ++ name.toLower
  | .object name => name.toLower
  | .optional content _ => content.key

/-- The values of a type that count as true; nothing when there are none. -/
def truthy? : Ty → Option Ty
  | .void | .null => none
  | .bool (some false) => none
  | .bool none => some (.bool (some true))
  | .int (some i) => if i = 0 then none else some (.int (some i))
  | .float (some f) => if f.isZero then none else some (.float (some f))
  | .string (some s) => if Constant.isFalsyText s then none else some (.string (some s))
  | .optional content _ => content.truthy?
  | other => some other

/-- The values of a type that count as false; nothing when there are none. -/
def falsy? : Ty → Option Ty
  | .void => none
  | .mixed => some .mixed
  | .null => some .null
  | .bool (some true) => none
  | .bool _ => some (.bool (some false))
  | .int (some i) => if i = 0 then some (.int (some 0)) else none
  | .int none => some (.int (some 0))
  | .float (some f) => if f.isZero then some (.float (some Double.zero)) else none
  | .float none => some (.float (some Double.zero))
  | .string (some s) => if Constant.isFalsyText s then some (.string (some s)) else none
  | .string none => some (.string none)
  | .map m => some (.map m)
  | .list m => some (.list m)
  | .resource | .function _ | .classOf _ | .object _ => none
  | .optional _ .false => some (.bool (some false))
  | .optional _ .null => some .null
  | .optional _ .both => some (.optional (.bool (some false)) .null)

end Ty

namespace Param

def ofName (name : String) (ty : Option TyUnion) : Param :=
  { name, ty, byRef := false, hasDefault := false, variadic := false }

def isRequired (p : Param) : Bool := !p.hasDefault && !p.variadic

end Param

namespace Signature

/-- A function of which nothing is known. -/
def callable : Signature :=
  { name := none, params := [], result := ⟨[.mixed]⟩, declared := false, callbacks := []
    any := true }

def ofParams (name : String) (params : List Param) (result : TyUnion) : Signature :=
  { name := some name, params, result, declared := false, callbacks := [], any := false }

/-- Positions of the parameters passed by reference. -/
def byRefPositions (s : Signature) : List Nat :=
  s.params.zipIdx.filterMap fun (p, i) => if p.byRef then some i else none

def requiredCount (s : Signature) : Nat := (s.params.filter Param.isRequired).length

/-- The greatest number of arguments; none when there is no bound. -/
def maxCount? (s : Signature) : Option Nat :=
  if s.any || s.params.any (·.variadic) then none else some s.params.length

/-- The parameter for the argument at a position; a variadic one at the end takes
all that follow. -/
def paramAt? (s : Signature) (position : Nat) : Option Param :=
  match s.params[position]? with
  | some p => some p
  | none => s.params.getLast?.filter (·.variadic)

/-- The position of the parameter with a name. -/
def positionOf? (s : Signature) (name : String) : Option Nat :=
  s.params.findIdx? (·.name == name)

end Signature

def Ty.callable : Ty := .function Signature.callable

end PhpCheck
