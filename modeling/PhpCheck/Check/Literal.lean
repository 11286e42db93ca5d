import PhpCheck.Numeric.Read
import PhpCheck.Types.Union

/-!
The types of literals and of casts.
-/

namespace PhpCheck

/-- The digits of an integer literal and their base. -/
def literalBase : List Char → List Char × Nat
  | '0' :: 'x' :: digits => (digits, 16)
  | '0' :: 'b' :: digits => (digits, 2)
  | '0' :: 'o' :: digits => (digits, 8)
  | '0' :: first :: rest => (first :: rest, 8)
  | digits => (digits, 10)

/-- A number of up to 128 bits without a sign, in which a plus may stand in
front. -/
def readWide? (base : Nat) (digits : List Char) : Option Nat :=
  let digits := match digits with
    | '+' :: rest => rest
    | _ => digits
  (readNat? base digits).filter (· < UInt64.size * UInt64.size)

/-- The type of an integer literal.  Out of range it is a floating point number. -/
def integerLiteral (text : String) : TyUnion :=
  let (digits, base) := literalBase ((text.toList.filter (· != '_')).map Char.toLower)
  match readInt64? base digits with
  | some n => .of (.int (some n))
  | none => .of (.float ((readWide? base digits).map fun n => Double.ofInt n))

def floatLiteral (text : String) : TyUnion :=
  .of (.float (Double.read? (text.toList.filter (· != '_'))))

/-- What a cast converts to. -/
inductive CastTarget where
  | int | float | string | bool | array | object | unset | unknown
deriving DecidableEq, Inhabited

namespace CastTarget

def ofText (text : String) : CastTarget :=
  match (String.ofList (trimmed text.toList)).toLower with
  | "int" | "integer" => .int
  | "float" | "double" | "real" => .float
  | "string" | "binary" => .string
  | "bool" | "boolean" => .bool
  | "array" => .array
  | "object" => .object
  | "unset" => .unset
  | _ => .unknown

/-- The type of a known value after a cast.  A text that is not a number as a
whole makes an unknown one. -/
def castValue? (target : CastTarget) (c : Constant) : Option Ty :=
  match target, c with
  | .int, .int i => some (.int (some i))
  | .int, .float f => if f.isFinite then some (.int (some f.truncate)) else none
  | .int, .bool b => some (.int (some (if b then 1 else 0)))
  | .int, .null => some (.int (some 0))
  | .int, .string s => some (.int (readInt64? 10 (trimmed s.toList)))
  | .float, .int i => some (.float (some (.ofInt i.toInt)))
  | .float, .float f => some (.float (some f))
  | .float, .string s => some (.float (Double.read? (trimmed s.toList)))
  | .string, c => some (.string (some c.text))
  | .bool, c => some (.bool (some c.isTruthy))
  | _, _ => none

/-- The type of a cast. -/
def result (target : CastTarget) (operand : TyUnion) : TyUnion :=
  match operand.value?.bind target.castValue? with
  | some t => .of t
  | none =>
    match target with
    | .int => .of (.int none)
    | .float => .of (.float none)
    | .string => .of (.string none)
    | .bool => .of (.bool none)
    | .array =>
      if !operand.isUnknown && operand.members.all Ty.isArray then operand else .of .array
    | .object => .of (.object "stdClass")
    | .unset => .of .null
    | .unknown => .of .mixed

end CastTarget

end PhpCheck
