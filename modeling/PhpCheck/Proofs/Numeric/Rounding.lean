import Mathlib
import PhpCheck.Numeric.Double

/-!
The order of floating point numbers, and of integers that are rounded to them.

The place of a number in the order is its rank: the bits without the sign, counted downwards for
a negative number (`rank_of_lt`, `rank_of_le`).  Numbers are equal if their ranks are
(`same_eq`).  The bits of a rounded integer are those of its leading bit with the rounded
mantissa added to them (`rounded`); a carry out of the mantissa only reaches the next leading
bit, so rounding keeps the order of integers (`rank_ofInt_mono`), and below 2 ^ 53 it keeps them
apart (`eq_of_ofInt_eq`).
-/

namespace PhpCheck.Double

/-! ### Bits -/

section

variable {d x y : Double} {m : Nat}

theorem toNat_magnitude (d : Double) : d.magnitude.toNat = d.bits.toNat % 2 ^ 63 := by
  show (d.bits &&& 0x7fffffffffffffff).toNat = _
  rw [UInt64.toNat_and]
  exact Nat.and_two_pow_sub_one_eq_mod d.bits.toNat 63

theorem isNegative_eq (d : Double) : d.isNegative = decide (2 ^ 63 ≤ d.bits.toNat) := by
  have hbits := d.bits.toNat_lt
  have hshift : (d.bits >>> 63).toNat = d.bits.toNat / 2 ^ 63 := by
    rw [UInt64.toNat_shiftRight]
    exact Nat.shiftRight_eq_div_pow d.bits.toNat 63
  have hone : d.isNegative = true ↔ (d.bits >>> 63).toNat = 1 := by
    rw [isNegative, beq_iff_eq, ← UInt64.toNat_inj]
    rfl
  rw [Bool.eq_iff_iff, hone, hshift, decide_eq_true_iff]
  omega

theorem isNaN_eq (d : Double) : d.isNaN = decide (2047 * 2 ^ 52 < d.magnitude.toNat) := rfl

theorem isZero_iff : d.isZero = true ↔ d.magnitude.toNat = 0 := by
  rw [isZero, beq_iff_eq, ← UInt64.toNat_inj]
  rfl

theorem rank_of_lt (hd : d.bits.toNat < 2 ^ 63) : d.rank = d.bits.toNat := by
  rw [rank, isNegative_eq, decide_eq_false (by omega), toNat_magnitude, Nat.mod_eq_of_lt hd]
  rfl

theorem rank_of_le (hd : 2 ^ 63 ≤ d.bits.toNat) : d.rank = 2 ^ 63 - (d.bits.toNat : Int) := by
  have hbits := d.bits.toNat_lt
  rw [rank, isNegative_eq, decide_eq_true hd, if_pos rfl, toNat_magnitude]
  omega

/-- Two numbers have the same rank if they are the same number or both are zero. -/
theorem rank_eq_iff : x.rank = y.rank ↔ x.bits = y.bits ∨ x.isZero = true ∧ y.isZero = true := by
  have hx := x.bits.toNat_lt
  have hy := y.bits.toNat_lt
  rw [isZero_iff, isZero_iff, toNat_magnitude, toNat_magnitude, ← UInt64.toNat_inj]
  rcases Nat.lt_or_ge x.bits.toNat (2 ^ 63) with hx' | hx' <;>
    rcases Nat.lt_or_ge y.bits.toNat (2 ^ 63) with hy' | hy' <;>
    simp only [rank_of_lt, rank_of_le, hx', hy'] <;> omega

/-- Equality of numbers is the one that their order has. -/
theorem same_eq (x y : Double) : x.same y = (x.compare? y == some .eq) := by
  rw [same, compare?]
  cases x.isNaN
  · cases y.isNaN
    · rw [Bool.eq_iff_iff]
      simp only [Bool.not_false, Bool.true_and, Bool.or_eq_true, Bool.and_eq_true, beq_iff_eq,
        Bool.or_self, Bool.false_eq_true, if_false, Option.some_inj, Std.compare_eq_iff_eq]
      exact rank_eq_iff.symm
    · rfl
  · rfl

end

/-! ### Rounding -/

section

variable {a b d m n : Nat}

theorem roundDiv_one (n : Nat) : roundDiv n 1 = n := by
  rw [roundDiv]
  simp [Nat.mod_one]

theorem le_roundDiv (n d : Nat) : n / d ≤ roundDiv n d := by
  rw [roundDiv]
  split <;> omega

theorem roundDiv_le (n d : Nat) : roundDiv n d ≤ n / d + 1 := by
  rw [roundDiv]
  split <;> omega

theorem roundDiv_mono (hnm : n ≤ m) : roundDiv n d ≤ roundDiv m d := by
  rcases Nat.lt_or_eq_of_le (Nat.div_le_div_right (c := d) hnm) with hlt | heq
  · exact Nat.le_trans (roundDiv_le n d) (Nat.le_trans hlt (le_roundDiv m d))
  · have hn := Nat.div_add_mod n d
    have hm := Nat.div_add_mod m d
    have hrem : n % d ≤ m % d := by
      rw [heq] at hn
      omega
    rw [roundDiv, roundDiv, heq]
    simp only [Bool.or_eq_true, Bool.and_eq_true, decide_eq_true_eq, beq_iff_eq]
    split <;> split <;> omega

/-- The mantissa of a rounded integer, its leading bit included. -/
def mantissa (n : Nat) : Nat := roundDiv (n * 2 ^ (52 - n.log2)) (2 ^ (n.log2 - 52))

/-- The bits of a rounded integer. -/
def rounded (n : Nat) : Nat := if n = 0 then 0 else (n.log2 + 1022) * 2 ^ 52 + mantissa n

theorem mantissa_of_lt (hn : n < 2 ^ 53) : mantissa n = n * 2 ^ (52 - n.log2) := by
  have hlog : n.log2 ≤ 52 := by
    by_cases hzero : n = 0
    · rw [hzero]
      decide
    · exact Nat.le_of_lt_succ ((Nat.log2_lt hzero).2 hn)
  rw [mantissa, Nat.sub_eq_zero_of_le hlog, pow_zero, roundDiv_one]

/-- The mantissa has 53 bits, or is one more than these can hold. -/
theorem mantissa_bounds (hn : n ≠ 0) : 2 ^ 52 ≤ mantissa n ∧ mantissa n ≤ 2 ^ 53 := by
  have hlow : 2 ^ n.log2 ≤ n := Nat.log2_self_le hn
  have hhigh : n < 2 ^ (n.log2 + 1) := Nat.lt_log2_self
  have hscale : ∀ k, 2 ^ (k + n.log2) * 2 ^ (52 - n.log2) = 2 ^ (k + 52) * 2 ^ (n.log2 - 52) := by
    intro k
    rw [← Nat.pow_add, ← Nat.pow_add]
    congr 1
    omega
  have hquotient : 2 ^ 52 ≤ n * 2 ^ (52 - n.log2) / 2 ^ (n.log2 - 52) ∧
      n * 2 ^ (52 - n.log2) / 2 ^ (n.log2 - 52) < 2 ^ 53 := by
    rw [Nat.le_div_iff_mul_le (Nat.two_pow_pos _), Nat.div_lt_iff_lt_mul (Nat.two_pow_pos _)]
    have hzero := hscale 0
    have hone := hscale 1
    rw [Nat.zero_add, Nat.zero_add] at hzero
    rw [Nat.add_comm] at hhigh
    refine ⟨hzero ▸ Nat.mul_le_mul_right _ hlow, ?_⟩
    exact hone ▸ Nat.mul_lt_mul_of_pos_right hhigh (Nat.two_pow_pos _)
  have hle := le_roundDiv (n * 2 ^ (52 - n.log2)) (2 ^ (n.log2 - 52))
  have hge := roundDiv_le (n * 2 ^ (52 - n.log2)) (2 ^ (n.log2 - 52))
  rw [mantissa]
  omega

theorem mantissa_lt (hn : n < 2 ^ 53) : mantissa n < 2 ^ 53 := by
  rw [mantissa_of_lt hn]
  by_cases hzero : n = 0
  · rw [hzero]
    decide
  have hlog : n.log2 ≤ 52 := Nat.le_of_lt_succ ((Nat.log2_lt hzero).2 hn)
  calc n * 2 ^ (52 - n.log2) < 2 ^ (n.log2 + 1) * 2 ^ (52 - n.log2) :=
        Nat.mul_lt_mul_of_pos_right Nat.lt_log2_self (Nat.two_pow_pos _)
    _ = 2 ^ 53 := by
      rw [← Nat.pow_add]
      congr 1
      omega

theorem log2_mono (hnm : n ≤ m) : n.log2 ≤ m.log2 := by
  rw [Nat.log2_eq_log_two, Nat.log2_eq_log_two]
  exact Nat.log_mono_right hnm

theorem rounded_mono (hnm : n ≤ m) : rounded n ≤ rounded m := by
  by_cases hn : n = 0
  · rw [rounded, if_pos hn]
    exact Nat.zero_le _
  have hm : m ≠ 0 := by omega
  have hn' := mantissa_bounds hn
  have hm' := mantissa_bounds hm
  have hlog : n.log2 ≤ m.log2 := log2_mono hnm
  rw [rounded, if_neg hn, rounded, if_neg hm]
  rcases Nat.lt_or_eq_of_le hlog with hlt | heq
  · -- A carry of the smaller one reaches the leading bit of the greater one at most.
    omega
  · rw [heq]
    refine Nat.add_le_add_left ?_ _
    rw [mantissa, mantissa, heq]
    exact roundDiv_mono (Nat.mul_le_mul_right _ hnm)

/-- Integers of 53 bits are not rounded, so no other integer has the same bits. -/
theorem rounded_lt (hnm : n < m) (hn : n < 2 ^ 53) : rounded n < rounded m := by
  have hm : m ≠ 0 := by omega
  have hm' := mantissa_bounds hm
  by_cases hzero : n = 0
  · rw [rounded, if_pos hzero, rounded, if_neg hm]
    omega
  have hlog : n.log2 ≤ m.log2 := log2_mono (Nat.le_of_lt hnm)
  have hmantissa := mantissa_lt hn
  rw [rounded, if_neg hzero, rounded, if_neg hm]
  rcases Nat.lt_or_eq_of_le hlog with hlt | heq
  · omega
  · have hlow : m < 2 ^ 53 := by
      refine (Nat.log2_lt hm).1 ?_
      rw [← heq]
      exact (Nat.log2_lt hzero).2 hn
    rw [heq, mantissa_of_lt hn, mantissa_of_lt hlow, heq]
    exact Nat.add_lt_add_left (Nat.mul_lt_mul_of_pos_right hnm (Nat.two_pow_pos _)) _

theorem rounded_pos (hn : n ≠ 0) : 0 < rounded n := by
  rw [rounded, if_neg hn]
  omega

theorem rounded_lt_infinity (hn : n ≤ 2 ^ 63) : rounded n < 2047 * 2 ^ 52 := by
  refine Nat.lt_of_le_of_lt (rounded_mono hn) ?_
  decide +kernel

/-- The unit is chosen by the leading bit. -/
theorem unitExponent_one (hn : n ≠ 0) : unitExponent n 1 = (n.log2 : Int) - 52 := by
  have hlow : 2 ^ n.log2 ≤ n := Nat.log2_self_le hn
  have hscaled : ¬n * 2 ^ (-((n.log2 : Int) - 52)).toNat <
      1 * 2 ^ (((n.log2 : Int) - 52).toNat + 52) := by
    have hpow : 2 ^ (((n.log2 : Int) - 52).toNat + 52) =
        2 ^ n.log2 * 2 ^ (-((n.log2 : Int) - 52)).toNat := by
      rw [← Nat.pow_add]
      congr 1
      omega
    rw [Nat.one_mul, Nat.not_lt, hpow]
    exact Nat.mul_le_mul_right _ hlow
  have hone : (Nat.log2 1 : Int) = 0 := rfl
  simp only [unitExponent, hone, Int.sub_zero, Nat.pow_eq, hscaled, if_false]
  omega

theorem toNat_ofRatio_one (hn : n ≤ 2 ^ 63) : (ofRatio n 1).bits.toNat = rounded n := by
  by_cases hzero : n = 0
  · rw [hzero]
    rfl
  have hlt := rounded_lt_infinity hn
  have hbits : ((n.log2 : Int) - 52 + 1074).toNat * 2 ^ 52 +
      roundDiv (n * 2 ^ (-((n.log2 : Int) - 52)).toNat) (1 * 2 ^ ((n.log2 : Int) - 52).toNat) =
        rounded n := by
    have hleading : ((n.log2 : Int) - 52 + 1074).toNat = n.log2 + 1022 := by omega
    have hleft : (-((n.log2 : Int) - 52)).toNat = 52 - n.log2 := by omega
    have hright : ((n.log2 : Int) - 52).toNat = n.log2 - 52 := by omega
    rw [rounded, if_neg hzero, mantissa, hleading, hleft, hright, Nat.one_mul]
  have hfinite : ¬rounded n ≥ infinity.bits.toNat := Nat.not_le_of_lt hlt
  have hratio : ofRatio n 1 = ⟨(rounded n).toUInt64⟩ := by
    simp only [ofRatio, hzero, if_false, unitExponent_one hzero, Nat.pow_eq, hbits, hfinite]
  rw [hratio]
  exact Nat.mod_eq_of_lt (by omega)

end

/-! ### Integers -/

section

variable {a b : Int}

theorem toNat_negate {d : Double} (hd : d.bits.toNat < 2 ^ 63) :
    d.negate.bits.toNat = d.bits.toNat + 2 ^ 63 := by
  show (d.bits ^^^ 0x8000000000000000).toNat = _
  rw [UInt64.toNat_xor]
  show d.bits.toNat ^^^ 2 ^ 63 = _
  have hmod : (d.bits.toNat ^^^ 2 ^ 63) % 2 ^ 63 = d.bits.toNat := by
    rw [Nat.xor_mod_two_pow, Nat.mod_self, Nat.xor_zero, Nat.mod_eq_of_lt hd]
  have hdiv : (d.bits.toNat ^^^ 2 ^ 63) / 2 ^ 63 = 1 := by
    rw [Nat.xor_div_two_pow, Nat.div_self (Nat.two_pow_pos 63), Nat.div_eq_of_lt hd, Nat.zero_xor]
  omega

/-- The rank of a rounded integer. -/
theorem rank_ofInt (ha : a.natAbs ≤ 2 ^ 63) :
    (ofInt a).rank = if a < 0 then -(rounded a.natAbs : Int) else rounded a.natAbs := by
  have hbits := toNat_ofRatio_one ha
  have hlt := rounded_lt_infinity ha
  rw [ofInt, negateIf]
  by_cases hneg : a < 0
  · have hnegate : (ofRatio a.natAbs 1).negate.bits.toNat = rounded a.natAbs + 2 ^ 63 :=
      hbits ▸ toNat_negate (by omega)
    rw [decide_eq_true hneg, if_pos rfl, if_pos hneg, rank_of_le (by omega), hnegate]
    omega
  · rw [decide_eq_false hneg, if_neg Bool.false_ne_true, if_neg hneg, rank_of_lt (by omega), hbits]

theorem natAbs_rank (d : Double) : d.rank.natAbs = d.magnitude.toNat := by
  rw [rank]
  split <;> omega

theorem isNaN_ofInt (ha : a.natAbs ≤ 2 ^ 63) : (ofInt a).isNaN = false := by
  have hrank := rank_ofInt ha
  have hlt := rounded_lt_infinity ha
  have hmagnitude := natAbs_rank (ofInt a)
  rw [isNaN_eq, decide_eq_false_iff_not]
  split at hrank <;> omega

theorem rank_ofInt_mono (ha : a.natAbs ≤ 2 ^ 63) (hb : b.natAbs ≤ 2 ^ 63) (hab : a ≤ b) :
    (ofInt a).rank ≤ (ofInt b).rank := by
  rw [rank_ofInt ha, rank_ofInt hb]
  split <;> split
  · have hmono := rounded_mono (n := b.natAbs) (m := a.natAbs) (by omega)
    omega
  · omega
  · omega
  · have hmono := rounded_mono (n := a.natAbs) (m := b.natAbs) (by omega)
    omega

/-- Only zero is rounded to zero, so integers with the same rank are rounded to the same number. -/
theorem ofInt_eq_of_rank_eq (ha : a.natAbs ≤ 2 ^ 63) (hb : b.natAbs ≤ 2 ^ 63)
    (hrank : (ofInt a).rank = (ofInt b).rank) : ofInt a = ofInt b := by
  rcases rank_eq_iff.1 hrank with hbits | ⟨hzero, hzero'⟩
  · exact congrArg Double.mk hbits
  · have hnull : ∀ {c : Int}, c.natAbs ≤ 2 ^ 63 → (ofInt c).isZero = true → c = 0 := by
      intro c hc hczero
      have hcrank := rank_ofInt hc
      have hmagnitude := natAbs_rank (ofInt c)
      rw [isZero_iff.1 hczero] at hmagnitude
      by_contra hne
      have hpos := rounded_pos (n := c.natAbs) (by omega)
      split at hcrank <;> omega
    rw [hnull ha hzero, hnull hb hzero']

/-- The order of rounded integers is that of the integers, unless they are rounded to the same
number. -/
theorem compare?_ofInt (ha : a.natAbs ≤ 2 ^ 63) (hb : b.natAbs ≤ 2 ^ 63) :
    (ofInt a).compare? (ofInt b) = some (if ofInt a = ofInt b then .eq else compare a b) := by
  rw [compare?, isNaN_ofInt ha, isNaN_ofInt hb]
  simp only [Bool.or_self, Bool.false_eq_true, if_false]
  refine congrArg some ?_
  split
  · rename_i hab
    rw [hab, Std.compare_eq_iff_eq]
  · rename_i hab
    rcases Int.lt_trichotomy a b with hlt | heq | hgt
    · have hmono := rank_ofInt_mono ha hb (Int.le_of_lt hlt)
      have hne : (ofInt a).rank ≠ (ofInt b).rank := fun h => hab (ofInt_eq_of_rank_eq ha hb h)
      rw [compare_lt_iff_lt.2 hlt, compare_lt_iff_lt]
      omega
    · exact absurd (congrArg ofInt heq) hab
    · have hmono := rank_ofInt_mono hb ha (Int.le_of_lt hgt)
      have hne : (ofInt a).rank ≠ (ofInt b).rank := fun h => hab (ofInt_eq_of_rank_eq ha hb h)
      rw [compare_gt_iff_gt.2 hgt, compare_gt_iff_gt]
      omega

/-- An integer of 53 bits is rounded to no number that another integer is rounded to. -/
theorem eq_of_ofInt_eq (ha : a.natAbs < 2 ^ 53) (hb : b.natAbs ≤ 2 ^ 63)
    (hab : ofInt a = ofInt b) : a = b := by
  have hrank := congrArg rank hab
  rw [rank_ofInt (by omega), rank_ofInt hb] at hrank
  by_contra hne
  rcases Nat.lt_trichotomy a.natAbs b.natAbs with hlt | heq | hgt
  · have hstrict := rounded_lt hlt ha
    split at hrank <;> split at hrank <;> omega
  · have hpos := rounded_pos (n := a.natAbs) (by omega)
    rw [← heq] at hrank
    split at hrank <;> split at hrank <;> omega
  · have hstrict := rounded_lt hgt (by omega)
    split at hrank <;> split at hrank <;> omega

end

end PhpCheck.Double
