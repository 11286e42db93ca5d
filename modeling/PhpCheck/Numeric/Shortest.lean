import PhpCheck.Numeric.Double

/-!
The shortest decimal that reads back as a given floating point number, found by
exact arithmetic on naturals, and its positional notation.
-/

namespace PhpCheck

namespace Shortest

/-- A finite number without its sign, `m * 2 ^ q`. -/
structure Binary where
  m : Nat
  q : Int
  /-- The gap to the number below is half the gap to the number above. -/
  narrowBelow : Bool

/-- The parts of a finite number. -/
def Binary.ofDouble (d : Double) : Binary :=
  let e := ((d.bits >>> 52) &&& 0x7ff).toNat
  let f := (d.bits &&& 0xfffffffffffff).toNat
  if e = 0 then { m := f, q := -1074, narrowBelow := false }
  else { m := Nat.pow 2 52 + f, q := (e : Int) - 1075, narrowBelow := f == 0 && e > 1 }

/-- A decimal `digits * 10 ^ exponent`. -/
structure Decimal where
  digits : Nat
  exponent : Int

/-- Compares `a * 10 ^ i` with `n * 2 ^ j`. -/
def compareScaled (a : Nat) (i : Int) (n : Nat) (j : Int) : Ordering :=
  compare (a * Nat.pow 10 i.toNat * Nat.pow 2 (-j).toNat)
    (n * Nat.pow 2 j.toNat * Nat.pow 10 (-i).toNat)

/-- Whether a decimal lies among the reals that round to the number: between the
midpoints to its neighbours, which belong to it when its last bit is even. -/
def Binary.readsBack (x : Binary) (d : Decimal) : Bool :=
  let low := if x.narrowBelow then 4 * x.m - 1 else 4 * x.m - 2
  let below := compareScaled d.digits d.exponent low (x.q - 2)
  let above := compareScaled d.digits d.exponent (4 * x.m + 2) (x.q - 2)
  let even := x.m % 2 == 0
  (below == .gt || (even && below == .eq)) && (above == .lt || (even && above == .eq))

/-- The least `k` at or above `start` with `x < 10 ^ k`, at most `fuel` steps up. -/
def Binary.scaleFrom (x : Binary) : (fuel : Nat) → (start : Int) → Int
  | 0, k => k
  | fuel + 1, k =>
    if compareScaled 1 k x.m x.q == .gt then k else x.scaleFrom fuel (k + 1)

/-- The number of digits before the point, negative when zeros follow it. -/
def Binary.scale (x : Binary) : Int :=
  let bits : Int := (Nat.log2 x.m : Int) + x.q
  x.scaleFrom 6 (bits * 30103 / 100000 - 2)

/-- The decimal on a grid of `n` digits that reads back: of the two neighbours of
the number the nearer one, and the upper one when both are equally near. -/
def Binary.onGrid? (x : Binary) (scale : Int) (n : Nat) : Option Decimal :=
  let exponent := scale - n
  let numerator := x.m * Nat.pow 2 x.q.toNat * Nat.pow 10 (-exponent).toNat
  let denominator := Nat.pow 2 (-x.q).toNat * Nat.pow 10 exponent.toNat
  let low := numerator / denominator
  let lower : Decimal := ⟨low, exponent⟩
  let upper : Decimal := ⟨low + 1, exponent⟩
  match x.readsBack lower, x.readsBack upper with
  | true, true => if 2 * numerator < (2 * low + 1) * denominator then some lower else some upper
  | true, false => some lower
  | false, true => some upper
  | false, false => none

/-- Moves trailing zeros of the digits into the exponent. -/
def Decimal.strip : (fuel : Nat) → Decimal → Decimal
  | 0, d => d
  | fuel + 1, d =>
    if d.digits != 0 && d.digits % 10 == 0 then strip fuel ⟨d.digits / 10, d.exponent + 1⟩ else d

/-- The decimal with the fewest digits that reads back.  Seventeen digits always
do. -/
def Binary.shortest (x : Binary) : Decimal :=
  let scale := x.scale
  let found := (List.range 17).findSome? fun n => x.onGrid? scale (n + 1)
  (found.getD ⟨x.m * Nat.pow 5 (-x.q).toNat * Nat.pow 2 x.q.toNat, min x.q 0⟩).strip 400

/-- A decimal without an exponent. -/
def Decimal.positional (d : Decimal) : String :=
  let digits := Nat.toDigits 10 d.digits
  if d.exponent ≥ 0 then String.ofList (digits ++ List.replicate d.exponent.toNat '0')
  else
    let places := d.exponent.natAbs
    let padded := List.replicate (places + 1 - digits.length) '0' ++ digits
    let whole := padded.take (padded.length - places)
    String.ofList (whole ++ '.' :: padded.drop (padded.length - places))

end Shortest

namespace Double

/-- The shortest text that reads back as the number, without an exponent. -/
def text (d : Double) : String :=
  let sign := if d.isNegative then "-" else ""
  if d.isNaN then "NaN"
  else if d.isInfinite then sign ++ "inf"
  else if d.isZero then sign ++ "0"
  else sign ++ (Shortest.Binary.ofDouble d).shortest.positional

end Double

end PhpCheck
