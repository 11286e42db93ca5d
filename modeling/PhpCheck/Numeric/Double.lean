/-!
Floating point numbers as their 64 bits, so that they can be compared and
reasoned about as words.
-/

namespace PhpCheck

/-- A binary64 number. -/
structure Double where
  bits : UInt64
deriving DecidableEq, Inhabited

namespace Double

def zero : Double := ⟨0⟩

/-- The bits without the sign. -/
def magnitude (d : Double) : UInt64 := d.bits &&& 0x7fffffffffffffff

def isNegative (d : Double) : Bool := d.bits >>> 63 == 1

/-- Neither positive nor negative zero is anything but zero. -/
def isZero (d : Double) : Bool := d.magnitude == 0

def isNaN (d : Double) : Bool := d.magnitude > 0x7ff0000000000000

def isInfinite (d : Double) : Bool := d.magnitude == 0x7ff0000000000000

/-- Equality of numbers: both zeros are equal, and no number equals one that is
not a number. -/
def same (a b : Double) : Bool :=
  !a.isNaN && !b.isNaN && (a.bits == b.bits || (a.isZero && b.isZero))

def ofFloat (f : Float) : Double := ⟨f.toBits⟩

def toFloat (d : Double) : Float := Float.ofBits d.bits

def infinity : Double := ⟨0x7ff0000000000000⟩

/-- A number that is not one. -/
def nan : Double := ⟨0x7ff8000000000000⟩

def negate (d : Double) : Double := ⟨d.bits ^^^ 0x8000000000000000⟩

def isFinite (d : Double) : Bool := d.magnitude < 0x7ff0000000000000

/-- The place of a number in the order of numbers; both zeros have the same. -/
def rank (d : Double) : Int :=
  if d.isNegative then -(d.magnitude.toNat : Int) else d.magnitude.toNat

/-- The order of two numbers; none if one of them is not a number. -/
def compare? (a b : Double) : Option Ordering :=
  if a.isNaN || b.isNaN then none else some (compare a.rank b.rank)

/-! ### Arithmetic -/

def add (a b : Double) : Double := ofFloat (a.toFloat + b.toFloat)

def sub (a b : Double) : Double := ofFloat (a.toFloat - b.toFloat)

def mul (a b : Double) : Double := ofFloat (a.toFloat * b.toFloat)

def div (a b : Double) : Double := ofFloat (a.toFloat / b.toFloat)

def pow (a b : Double) : Double := ofFloat (a.toFloat ^ b.toFloat)

/-- The integer part, at most the greatest and at least the least 64 bit integer. -/
def truncate (d : Double) : Int64 := d.toFloat.toInt64

def negateIf (negative : Bool) (d : Double) : Double := if negative then d.negate else d

/-! ### Rounding -/

/-- A quotient rounded to the nearest integer, a half to the even neighbour. -/
def roundDiv (n d : Nat) : Nat :=
  let q := n / d
  let r := n % d
  if 2 * r > d || (2 * r == d && q % 2 == 1) then q + 1 else q

/-- The exponent of the unit in which `n / d` is rounded: the quotient then has 53
bits, or fewer next to zero. -/
def unitExponent (n d : Nat) : Int :=
  let e : Int := (n.log2 : Int) - d.log2 - 52
  let e := if n * Nat.pow 2 (-e).toNat < d * Nat.pow 2 (e.toNat + 52) then e - 1 else e
  max e (-1074)

/-- The nearest number to the quotient of two positive integers.  The exponent is
added to the leading bit of the mantissa, so that a carry out of the mantissa
comes out right. -/
def ofRatio (n d : Nat) : Double :=
  if n = 0 then zero
  else
    let e := unitExponent n d
    let m := roundDiv (n * Nat.pow 2 (-e).toNat) (d * Nat.pow 2 e.toNat)
    let bits := (e + 1074).toNat * Nat.pow 2 52 + m
    if bits ≥ infinity.bits.toNat then infinity else ⟨bits.toUInt64⟩

/-- The nearest number to an integer. -/
def ofInt (n : Int) : Double := negateIf (n < 0) (ofRatio n.natAbs 1)

/-- The nearest number to `digits * 10 ^ exponent`.  Exponents far out of range
are not written out. -/
def ofDecimal (digits : Nat) (exponent : Int) : Double :=
  let magnitude := exponent + (digits.log2 / 3 : Nat)
  if digits = 0 || magnitude < -400 then zero
  else if exponent > 400 then infinity
  else ofRatio (digits * Nat.pow 10 exponent.toNat) (Nat.pow 10 (-exponent).toNat)

end Double

end PhpCheck
