import PhpCheck.Numeric.Read
import PhpCheck.Types.Union

/-!
The types of operator expressions.  Where both operands are known, so is the
result; integers that leave the range of 64 bits become floating point numbers.
-/

namespace PhpCheck

/-- Operators with two operands, both of which are evaluated. -/
inductive Operator where
  | concat
  | add | sub | mul | pow | div
  | rem | shiftLeft | shiftRight | bitAnd | bitOr | bitXor
  | spaceship
  | equal | unequal | identical | distinct
  | less | greater | atMost | atLeast
  | xor
deriving DecidableEq, Inhabited

namespace Operator

def ofText? : String → Option Operator
  | "." => some .concat
  | "+" => some .add
  | "-" => some .sub
  | "*" => some .mul
  | "**" => some .pow
  | "/" => some .div
  | "%" => some .rem
  | "<<" => some .shiftLeft
  | ">>" => some .shiftRight
  | "&" => some .bitAnd
  | "|" => some .bitOr
  | "^" => some .bitXor
  | "<=>" => some .spaceship
  | "==" => some .equal
  | "!=" | "<>" => some .unequal
  | "===" => some .identical
  | "!==" => some .distinct
  | "<" => some .less
  | ">" => some .greater
  | "<=" => some .atMost
  | ">=" => some .atLeast
  | "xor" => some .xor
  | _ => none

end Operator

namespace TyUnion

/-- The type of a number. -/
def number : TyUnion := ofList [.int none, .float none]

def allInt (u : TyUnion) : Bool :=
  !u.isEmpty && u.members.all fun
    | .int _ => true
    | _ => false

def allNumeric (u : TyUnion) : Bool := !u.isEmpty && u.members.all Ty.isNumeric

end TyUnion

namespace Constant

/-- A number as a floating point number. -/
def double? : Constant → Option Double
  | .int i => some (Double.ofInt i.toInt)
  | .float f => some f
  | _ => none

/-- Equality of sort and value. -/
def identical : Constant → Constant → Bool
  | .bool a, .bool b => a == b
  | .int a, .int b => a == b
  | .float a, .float b => a.same b
  | .string a, .string b => a == b
  | .null, .null => true
  | _, _ => false

/-- The order of two texts or of two numbers. -/
def compare? : Constant → Constant → Option Ordering
  | .string a, .string b => some (Ord.compare a b)
  | a, b => do (← a.double?).compare? (← b.double?)

/-- Equality after conversion.  Texts that both read as numbers are compared as
numbers; a text and a number are not compared. -/
def looselyEqual? : Constant → Constant → Option Bool
  | .string a, .string b =>
    match Double.read? a.toList, Double.read? b.toList with
    | some x, some y => some (x.same y)
    | _, _ => some (a == b)
  | a, b =>
    let isLogical : Constant → Bool
      | .bool _ | .null => true
      | _ => false
    if isLogical a || isLogical b then some (a.isTruthy == b.isTruthy)
    else do return (← a.double?).same (← b.double?)

/-- The outcome of a comparison. -/
def comparison? (op : Operator) (a b : Constant) : Option Bool :=
  match op with
  | .identical => some (a.identical b)
  | .distinct => some (!a.identical b)
  | .equal => a.looselyEqual? b
  | .unequal => (a.looselyEqual? b).map (!·)
  | .less => (a.compare? b).map (· == .lt)
  | .greater => (a.compare? b).map (· == .gt)
  | .atMost => (a.compare? b).map (· != .gt)
  | .atLeast => (a.compare? b).map (· != .lt)
  | _ => none

end Constant

/-! ### Arithmetic on known operands -/

/-- A power, if it fits.  Large powers of large numbers are not written out. -/
def power? (a : Int64) (exponent : Nat) : Option Int64 :=
  if exponent < 64 then int64? (Int.pow a.toInt exponent)
  else if a.toInt.natAbs ≤ 1 then int64? (Int.pow a.toInt (exponent % 2 + 2))
  else none

/-- An exponent or a shift, which must fit in 32 bits without a sign. -/
def count32? (b : Int64) : Option Nat :=
  if 0 ≤ b.toInt && b.toInt.toNat < UInt32.size then some b.toInt.toNat else none

/-- The exact result of an operation on integers, if it fits. -/
def integerResult? (op : Operator) (a b : Int64) : Option Int64 :=
  match op with
  | .add => int64? (a.toInt + b.toInt)
  | .sub => int64? (a.toInt - b.toInt)
  | .mul => int64? (a.toInt * b.toInt)
  | .pow => (count32? b).bind (power? a)
  | _ => none

/-- The exact quotient, if there is one that fits. -/
def quotient? (a b : Int64) : Option Int64 :=
  if b.toInt ≠ 0 && a.toInt.tmod b.toInt = 0 then int64? (a.toInt.tdiv b.toInt) else none

/-- A remainder, shift or bitwise operation on integers.  A remainder has the sign
of the dividend, and is unknown where the quotient does not fit. -/
def integerOp? (op : Operator) (a b : Int64) : Option Int64 :=
  match op with
  | .rem =>
    if b.toInt = 0 then none
    else (int64? (a.toInt.tdiv b.toInt)).bind fun _ => int64? (a.toInt.tmod b.toInt)
  | .shiftLeft => (count32? b).bind fun n => if n < 64 then some (a <<< b) else none
  | .shiftRight => (count32? b).bind fun n => if n < 64 then some (a >>> b) else none
  | .bitAnd => some (a &&& b)
  | .bitOr => some (a ||| b)
  | .bitXor => some (a ^^^ b)
  | _ => none

/-- The result of an operation on floating point numbers, if it is a finite
number. -/
def floatOp? (op : Operator) (a b : Double) : Option Double :=
  let result := match op with
    | .add => some (a.add b)
    | .sub => some (a.sub b)
    | .mul => some (a.mul b)
    | .pow => some (a.pow b)
    | .div => if b.isZero then none else some (a.div b)
    | _ => none
  result.filter Double.isFinite

/-! ### Types of results -/

/-- The type of a sum, difference, product or power. -/
def arithmetic (op : Operator) (left right : TyUnion) : TyUnion :=
  let general : TyUnion :=
    if left.allInt && right.allInt then
      if op = .pow then .number else .of (.int none)
    else if left.allNumeric && right.allNumeric then .of (.float none)
    else .number
  match left.value?, right.value? with
  | some (.int a), some (.int b) =>
    match integerResult? op a b with
    | some n => .of (.int (some n))
    | none => .of (.float (floatOp? op (.ofInt a.toInt) (.ofInt b.toInt)))
  | some a, some b =>
    match a.double?, b.double? with
    | some x, some y => .of (.float (floatOp? op x y))
    | _, _ => general
  | _, _ => general

/-- The type of a quotient.  It is an integer only if it is exact. -/
def division (left right : TyUnion) : TyUnion :=
  let ofFloats (a b : Constant) : TyUnion :=
    match a.double?, b.double? with
    | some x, some y => .of (.float (floatOp? .div x y))
    | _, _ => .number
  match left.value?, right.value? with
  | some (.int a), some (.int b) =>
    match quotient? a b with
    | some q => .of (.int (some q))
    | none => ofFloats (.int a) (.int b)
  | some a, some b => ofFloats a b
  | _, _ =>
    if left.allInt && right.allInt then .number
    else if left.allNumeric && right.allNumeric then .of (.float none)
    else .number

/-- The type of an operator expression. -/
def Operator.result (op : Operator) (left right : TyUnion) : TyUnion :=
  let values := do return (← left.value?, ← right.value?)
  match op with
  | .concat => .of (.string (values.map fun (a, b) => a.text ++ b.text))
  | .add =>
    if left.members.any Ty.isArray && right.members.any Ty.isArray then left.union right
    else arithmetic op left right
  | .sub | .mul | .pow => arithmetic op left right
  | .div => division left right
  | .rem | .shiftLeft | .shiftRight | .bitAnd | .bitOr | .bitXor =>
    .of (.int (values.bind fun
      | (.int a, .int b) => integerOp? op a b
      | _ => none))
  | .spaceship =>
    .of (.int (values.bind fun (a, b) => (a.compare? b).map fun
      | .lt => -1
      | .eq => 0
      | .gt => 1))
  | .equal | .unequal | .identical | .distinct | .less | .greater | .atMost | .atLeast =>
    .of (.bool (values.bind fun (a, b) => a.comparison? op b))
  | .xor => .of (.bool (values.map fun (a, b) => a.isTruthy != b.isTruthy))

/-- The type of an expression with an operator as it is written. -/
def binaryResult (operator : String) (left right : TyUnion) : TyUnion :=
  match Operator.ofText? operator with
  | some op => op.result left right
  | none => .mixed

/-- The type of `l ?? r`: what `l` is but for null, and `r` where `l` may be null. -/
def coalesce (left right : TyUnion) : TyUnion :=
  if left.isEmpty || left.mayBeNull then left.withoutNull.union right else left

/-! ### Operators with one operand -/

/-- The negative of a number. -/
def Ty.negated : Ty → Ty
  | .int (some i) =>
    match int64? (-i.toInt) with
    | some n => .int (some n)
    | none => .float (some (Double.ofInt i.toInt).negate)
  | .int none => .int none
  | .float f => .float (f.map Double.negate)
  | _ => .mixed

/-- The type of an expression with an operator in front. -/
def unaryResult (operator : String) (operand : TyUnion) : TyUnion :=
  match operator with
  | "-" => if operand.allNumeric then .ofList (operand.members.map Ty.negated) else .number
  | "+" => if operand.allNumeric then operand else .number
  | "~" => match operand.value? with
    | some (.int i) => .of (.int (some (~~~i)))
    | _ => .of (.int none)
  | _ => .mixed

/-- The value after an increment or a decrement. -/
def Ty.stepped (increment : Bool) : Ty → Ty
  | .int (some i) =>
    let next := if increment then i.toInt + 1 else i.toInt - 1
    match int64? next with
    | some n => .int (some n)
    | none => .float (some ((Double.ofInt i.toInt).add (.ofInt (if increment then 1 else -1))))
  | .int none => .int none
  | .float f => .float (f.map fun f => f.add (.ofInt (if increment then 1 else -1)))
  | .null => if increment then .int (some 1) else .null
  | .bool b => .bool b
  | .string _ => .string none
  | _ => .mixed

end PhpCheck
