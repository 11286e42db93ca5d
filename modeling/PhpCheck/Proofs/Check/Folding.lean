import Mathlib
import PhpCheck.Check.Operator
import PhpCheck.Proofs.Types.Coverage

/-!
Operations on known integers.

The checker computes with unbounded integers and keeps a result that fits in a word
(`int64?_eq_some_iff`), so each operator is compared with the mathematical operation: sums,
differences, products and powers are that integer or, where it does not fit, a floating point
number; quotients are integers where they are exact; remainders and shifts are unknown where the
machine has none (`integer_folding_exact`).
-/

namespace PhpCheck

/-! ### Integers in a word -/

/-- The integer fits in 64 bits with a sign. -/
def Fits (r : Int) : Prop := -2 ^ 63 ≤ r ∧ r < 2 ^ 63

theorem fits_toInt (n : Int64) : Fits n.toInt := ⟨n.le_toInt, n.toInt_lt⟩

theorem inInt64_iff {r : Int} : inInt64 r = true ↔ Fits r := by
  have hmin : Int64.minValue.toInt = -2 ^ 63 := rfl
  have hmax : Int64.maxValue.toInt = 2 ^ 63 - 1 := rfl
  rw [inInt64, Bool.and_eq_true, decide_eq_true_iff, decide_eq_true_iff, hmin, hmax, Fits]
  omega

theorem int64?_eq_some_iff {r : Int} {n : Int64} : int64? r = some n ↔ n.toInt = r := by
  by_cases hr : Fits r
  · rw [int64?, if_pos (inInt64_iff.2 hr), Option.some_inj, ← Int64.toInt_inj,
      Int64.toInt_ofInt_of_le hr.1 hr.2]
    exact eq_comm
  · rw [int64?, if_neg fun h => hr (inInt64_iff.1 h)]
    refine ⟨nofun, ?_⟩
    rintro rfl
    exact absurd (fits_toInt n) hr

theorem int64?_eq_none_iff {r : Int} : int64? r = none ↔ ¬Fits r := by
  rw [← inInt64_iff, int64?]
  split <;> simp_all

theorem int64?_of_fits {r : Int} (hr : Fits r) : ∃ n, int64? r = some n :=
  Option.ne_none_iff_exists'.1 fun h => int64?_eq_none_iff.1 h hr

/-- A power that is not written out is that of zero or one, or does not fit. -/
theorem power?_eq (a : Int64) (exponent : Nat) :
    power? a exponent = int64? (a.toInt ^ exponent) := by
  rw [power?]
  split
  · rfl
  rename_i hlarge
  split
  · rename_i hsmall
    have hpow : a.toInt ^ (exponent % 2 + 2) = a.toInt ^ exponent := by
      have hvalue : a.toInt = 0 ∨ a.toInt = 1 ∨ a.toInt = -1 := by omega
      rcases hvalue with h | h | h <;> rw [h]
      · rw [zero_pow (by omega), zero_pow (by omega)]
      · rw [one_pow, one_pow]
      · rw [pow_add, neg_one_sq, mul_one, neg_one_pow_eq_pow_mod_two exponent]
    exact congrArg int64? hpow
  · rename_i hsmall
    refine (int64?_eq_none_iff.2 fun hfits => ?_).symm
    have habs : 2 ^ 64 ≤ (a.toInt ^ exponent).natAbs := by
      rw [Int.natAbs_pow]
      calc 2 ^ 64 ≤ 2 ^ exponent := Nat.pow_le_pow_right (by decide) (by omega)
        _ ≤ a.toInt.natAbs ^ exponent := Nat.pow_le_pow_left (by omega) _
    obtain ⟨hlow, hhigh⟩ := hfits
    omega

theorem count32?_of_lt {b : Int64} (hnonneg : 0 ≤ b.toInt) (hlt : b.toInt < 2 ^ 32) :
    count32? b = some b.toInt.toNat := by
  have hsize : b.toInt.toNat < UInt32.size := by
    show b.toInt.toNat < 2 ^ 32
    omega
  rw [count32?, if_pos (Bool.and_eq_true_iff.2 ⟨decide_eq_true hnonneg, decide_eq_true hsize⟩)]

/-- The exact quotient is found where there is one. -/
theorem quotient?_eq_some_iff {a b q : Int64} :
    quotient? a b = some q ↔ b.toInt ≠ 0 ∧ a.toInt = q.toInt * b.toInt := by
  rw [quotient?]
  constructor
  · intro hq
    split at hq
    · rename_i hexact
      simp only [ne_eq, Bool.and_eq_true, decide_eq_true_iff] at hexact
      refine ⟨hexact.1, ?_⟩
      have hdiv := Int.tdiv_mul_add_tmod a.toInt b.toInt
      rw [int64?_eq_some_iff.1 hq]
      omega
    · cases hq
  · rintro ⟨hb, ha⟩
    rw [ha, Int.mul_tmod_left, Int.mul_tdiv_cancel _ hb, if_pos (by simp [hb])]
    exact int64?_eq_some_iff.2 rfl

/-! ### Remainders and shifts -/

section

variable {a b : Int64}

theorem fits_tdiv (hb : b.toInt ≠ 0) (hmin : ¬(a.toInt = -2 ^ 63 ∧ b.toInt = -1)) :
    Fits (a.toInt.tdiv b.toInt) := by
  obtain ⟨hlow, hhigh⟩ := fits_toInt a
  have habs : (a.toInt.tdiv b.toInt).natAbs = a.toInt.natAbs / b.toInt.natAbs :=
    Int.natAbs_tdiv _ _
  by_cases hone : b.toInt.natAbs = 1
  · rcases Int.natAbs_eq_iff.1 hone with h | h
    · rw [h, Nat.cast_one, Int.tdiv_one]
      exact fits_toInt a
    · rw [h, Nat.cast_one, Int.tdiv_neg, Int.tdiv_one, Fits]
      omega
  · have hhalf : a.toInt.natAbs / b.toInt.natAbs ≤ a.toInt.natAbs / 2 :=
      Nat.div_le_div_left (by omega) (by decide)
    rw [Fits]
    omega

theorem fits_tmod (hb : b.toInt ≠ 0) : Fits (a.toInt.tmod b.toInt) := by
  obtain ⟨hlow, hhigh⟩ := fits_toInt b
  have hlt : (a.toInt.tmod b.toInt).natAbs < b.toInt.natAbs := by
    rw [Int.natAbs_tmod]
    exact Nat.mod_lt _ (Int.natAbs_pos.2 hb)
  rw [Fits]
  omega

theorem not_fits_tdiv (ha : a.toInt = -2 ^ 63) (hb : b.toInt = -1) :
    ¬Fits (a.toInt.tdiv b.toInt) := by
  rw [ha, hb, Fits]
  decide

/-- A shift counts by its operand, as long as that is less than the size of a word. -/
theorem toNat_smod (hnonneg : 0 ≤ b.toInt) (hlt : b.toInt < 64) :
    (b.toBitVec.smod 64).toNat = b.toInt.toNat := by
  have hmod : (b.toBitVec.smod 64).toInt = b.toInt := by
    rw [BitVec.toInt_smod]
    exact Int.fmod_eq_of_lt hnonneg hlt
  have hcond := BitVec.toInt_eq_toNat_cond (b.toBitVec.smod 64)
  have hword := (b.toBitVec.smod 64).isLt
  omega

theorem toInt_shiftLeft (hnonneg : 0 ≤ b.toInt) (hlt : b.toInt < 64) :
    (a <<< b).toInt = (a.toInt * 2 ^ b.toInt.toNat).bmod (2 ^ 64) := by
  show (a <<< b).toBitVec.toInt = (a.toBitVec.toInt * 2 ^ b.toInt.toNat).bmod (2 ^ 64)
  rw [Int64.toBitVec_shiftLeft]
  show (a.toBitVec <<< (b.toBitVec.smod 64).toNat).toInt = _
  rw [toNat_smod hnonneg hlt, BitVec.toInt_shiftLeft, Nat.shiftLeft_eq, BitVec.toInt_eq_toNat_bmod,
    Int.bmod_mul_bmod]
  push_cast
  rfl

theorem toInt_shiftRight (hnonneg : 0 ≤ b.toInt) (hlt : b.toInt < 64) :
    (a >>> b).toInt = a.toInt / 2 ^ b.toInt.toNat := by
  show (a >>> b).toBitVec.toInt = _
  rw [Int64.toBitVec_shiftRight]
  show (a.toBitVec.sshiftRight (b.toBitVec.smod 64).toNat).toInt = _
  rw [toNat_smod hnonneg hlt, BitVec.toInt_sshiftRight, Int.shiftRight_eq_div_pow]
  push_cast
  rfl

end

/-! ### Types -/

namespace TyUnion

/-- The type of a known integer. -/
def literal (a : Int64) : TyUnion := of (.int (some a))

/-- The type of the integer `r`; of a floating point number, if `r` does not fit in a word. -/
def IsExact (r : Int) (u : TyUnion) : Prop :=
  (∃ n : Int64, n.toInt = r ∧ u = literal n) ∨ (¬Fits r ∧ ∃ f, u = of (.float f))

/-- The type of the integer `r` if it is known, and of any integer if it is not. -/
def IsKnownIf (known : Prop) (r : Int) (u : TyUnion) : Prop :=
  (known → ∃ n : Int64, n.toInt = r ∧ u = literal n) ∧ (¬known → u = of (.int none))

variable {a b q : Int64} {r : Int} {f : Option Double}

theorem value?_of {t : Ty} (ht : t ≠ .void) : (of t).value? = t.value? := by
  rw [value?, ← eta (of t), members_of ht]
  rfl

theorem value?_literal (a : Int64) : (literal a).value? = some (.int a) := value?_of nofun

theorem members_literal (a : Int64) : (literal a).members = [.int (some a)] := members_of nofun

theorem literal_inj (h : literal a = literal b) : a = b := by
  have hmembers := congrArg members h
  rw [members_literal, members_literal] at hmembers
  injection hmembers with h
  injection h with h
  exact Option.some_inj.1 h

theorem literal_ne_float : literal a ≠ of (.float f) := by
  intro h
  have hmembers := congrArg members h
  rw [members_literal, members_of (t := .float f) nofun] at hmembers
  cases hmembers

/-- What is computed with unbounded integers and kept if it fits is exact. -/
theorem isExact_of_int64? {u : TyUnion} (hsome : ∀ n, int64? r = some n → u = literal n)
    (hnone : int64? r = none → ∃ f, u = of (.float f)) : u.IsExact r := by
  cases hr : int64? r with
  | some n => exact .inl ⟨n, int64?_eq_some_iff.1 hr, hsome n hr⟩
  | none => exact .inr ⟨int64?_eq_none_iff.1 hr, hnone hr⟩

end TyUnion

/-! ### Operators -/

open TyUnion

section

variable {a b q : Int64} {op : Operator}

theorem isExact_arithmetic {r : Int} (hop : integerResult? op a b = int64? r) :
    (arithmetic op (literal a) (literal b)).IsExact r := by
  refine isExact_of_int64? (fun n hn => ?_) (fun hn => ?_) <;>
    simp only [arithmetic, value?_literal, hop, hn]
  · rfl
  · exact ⟨_, rfl⟩

theorem isExact_add :
    (binaryResult "+" (literal a) (literal b)).IsExact (a.toInt + b.toInt) := by
  have hplain : binaryResult "+" (literal a) (literal b) =
      arithmetic .add (literal a) (literal b) := by
    show Operator.add.result _ _ = _
    simp only [Operator.result, members_literal]
    rfl
  rw [hplain]
  exact isExact_arithmetic rfl

theorem isExact_pow (hnonneg : 0 ≤ b.toInt) (hlt : b.toInt < 2 ^ 32) :
    (binaryResult "**" (literal a) (literal b)).IsExact (a.toInt ^ b.toInt.toNat) := by
  show (arithmetic .pow (literal a) (literal b)).IsExact _
  refine isExact_arithmetic ?_
  rw [integerResult?, count32?_of_lt hnonneg hlt, Option.bind_some, power?_eq]

theorem division_literal :
    division (literal a) (literal b) =
      match quotient? a b with
      | some q => literal q
      | none => of (.float (floatOp? .div (.ofInt a.toInt) (.ofInt b.toInt))) := by
  simp only [division, value?_literal]
  rfl

/-- A quotient is the integer that is exact, if there is one. -/
theorem division_eq_literal_iff :
    division (literal a) (literal b) = literal q ↔ b.toInt ≠ 0 ∧ a.toInt = q.toInt * b.toInt := by
  rw [division_literal, ← quotient?_eq_some_iff]
  cases quotient? a b with
  | some q' =>
    rw [Option.some_inj]
    exact ⟨literal_inj, congrArg literal⟩
  | none => exact ⟨fun h => absurd h.symm literal_ne_float, nofun⟩

theorem division_known :
    (∃ q, division (literal a) (literal b) = literal q) ∨
      ∃ f, division (literal a) (literal b) = of (.float f) := by
  rw [division_literal]
  cases quotient? a b with
  | some q => exact .inl ⟨q, rfl⟩
  | none => exact .inr ⟨_, rfl⟩

/-- Remainders, shifts and bitwise operations are told from what is computed. -/
theorem isKnownIf_integerOp (op : Operator) {text : String} {known : Prop} {r : Int}
    (htext : Operator.ofText? text = some op)
    (hop : op ∈ [Operator.rem, .shiftLeft, .shiftRight, .bitAnd, .bitOr, .bitXor])
    (hsome : known → ∃ n : Int64, n.toInt = r ∧ integerOp? op a b = some n)
    (hnone : ¬known → integerOp? op a b = none) :
    (binaryResult text (literal a) (literal b)).IsKnownIf known r := by
  have hresult : binaryResult text (literal a) (literal b) = of (.int (integerOp? op a b)) := by
    rw [binaryResult, htext]
    cases op <;> first | exact absurd hop (by decide) | simp [Operator.result, value?_literal]
  rw [hresult]
  refine ⟨fun hknown => ?_, fun hknown => by rw [hnone hknown]⟩
  obtain ⟨n, hn, hfound⟩ := hsome hknown
  exact ⟨n, hn, by rw [hfound]; rfl⟩

theorem isKnownIf_rem :
    (binaryResult "%" (literal a) (literal b)).IsKnownIf
      (¬(b.toInt = 0 ∨ a.toInt = -2 ^ 63 ∧ b.toInt = -1)) (a.toInt.tmod b.toInt) := by
  refine isKnownIf_integerOp .rem rfl (by decide) (fun hknown => ?_) fun hunknown => ?_
  · obtain ⟨hb, hmin⟩ := not_or.1 hknown
    obtain ⟨q, hq⟩ := int64?_of_fits (fits_tdiv hb hmin)
    obtain ⟨n, hn⟩ := int64?_of_fits (fits_tmod (a := a) hb)
    refine ⟨n, int64?_eq_some_iff.1 hn, ?_⟩
    rw [integerOp?, if_neg hb, hq, Option.bind_some, hn]
  · rcases not_not.1 hunknown with hb | ⟨ha, hb⟩
    · rw [integerOp?, if_pos hb]
    · rw [integerOp?, int64?_eq_none_iff.2 (not_fits_tdiv ha hb), Option.bind_none, ite_self]

/-- A shift count is read in 32 bits, and a count beyond a word is not folded. -/
theorem count32?_bind (n : Int64) :
    ((count32? b).bind fun count => if count < 64 then some n else none) =
      if 0 ≤ b.toInt ∧ b.toInt < 64 then some n else none := by
  by_cases hb : 0 ≤ b.toInt ∧ b.toInt < 2 ^ 32
  · rw [count32?_of_lt hb.1 hb.2, Option.bind_some]
    exact if_congr (by omega) rfl rfl
  · have hsize : UInt32.size = 2 ^ 32 := rfl
    have hnone : count32? b = none := by
      rw [count32?, if_neg]
      rw [Bool.and_eq_true, decide_eq_true_iff, decide_eq_true_iff, hsize]
      omega
    rw [hnone, if_neg (by omega), Option.bind_none]

theorem isKnownIf_shiftLeft :
    (binaryResult "<<" (literal a) (literal b)).IsKnownIf (0 ≤ b.toInt ∧ b.toInt < 64)
      ((a.toInt * 2 ^ b.toInt.toNat).bmod (2 ^ 64)) := by
  have hcount : integerOp? .shiftLeft a b = _ := count32?_bind (a <<< b)
  refine isKnownIf_integerOp .shiftLeft rfl (by decide) (fun hb => ?_) fun hb => ?_
  · exact ⟨_, toInt_shiftLeft hb.1 hb.2, by rw [hcount, if_pos hb]⟩
  · rw [hcount, if_neg hb]

theorem isKnownIf_shiftRight :
    (binaryResult ">>" (literal a) (literal b)).IsKnownIf (0 ≤ b.toInt ∧ b.toInt < 64)
      (a.toInt / 2 ^ b.toInt.toNat) := by
  have hcount : integerOp? .shiftRight a b = _ := count32?_bind (a >>> b)
  refine isKnownIf_integerOp .shiftRight rfl (by decide) (fun hb => ?_) fun hb => ?_
  · exact ⟨_, toInt_shiftRight hb.1 hb.2, by rw [hcount, if_pos hb]⟩
  · rw [hcount, if_neg hb]

theorem isExact_negative : (unaryResult "-" (literal a)).IsExact (-a.toInt) := by
  have hnegative : unaryResult "-" (literal a) = of (Ty.negated (.int (some a))) := by
    simp only [unaryResult, allNumeric, isEmpty, members_literal]
    rfl
  rw [hnegative]
  refine isExact_of_int64? (fun n hn => ?_) fun hn => ?_ <;> simp only [Ty.negated, hn]
  · rfl
  · exact ⟨_, rfl⟩

/-- An increment or a decrement of a known integer. -/
theorem isExact_stepped (increment : Bool) :
    (ofList ((literal a).members.map (Ty.stepped increment))).IsExact
      (a.toInt + if increment then 1 else -1) := by
  have hstepped : ofList ((literal a).members.map (Ty.stepped increment)) =
      of (Ty.stepped increment (.int (some a))) := by
    rw [members_literal]
    rfl
  rw [hstepped]
  have hnext : (if increment then a.toInt + 1 else a.toInt - 1) =
      a.toInt + if increment then 1 else -1 := by
    split <;> omega
  refine isExact_of_int64? (fun n hn => ?_) fun hn => ?_ <;> simp only [Ty.stepped, hnext, hn]
  · rfl
  · exact ⟨_, rfl⟩

end

/-- The result of each operation on known integers is the mathematical one: sums, differences,
products, powers, negatives, increments and decrements are that integer or, where it leaves
64 bits, a floating point number; a quotient is an integer where it is exact and fits; a
remainder has the sign of the dividend and is unknown where the machine has none; a shift is one
of words of 64 bits in two's complement. -/
theorem integer_folding_exact (a b : Int64) :
    (binaryResult "+" (literal a) (literal b)).IsExact (a.toInt + b.toInt) ∧
      (binaryResult "-" (literal a) (literal b)).IsExact (a.toInt - b.toInt) ∧
      (binaryResult "*" (literal a) (literal b)).IsExact (a.toInt * b.toInt) ∧
      (0 ≤ b.toInt → b.toInt < 2 ^ 32 →
        (binaryResult "**" (literal a) (literal b)).IsExact (a.toInt ^ b.toInt.toNat)) ∧
      (∀ q, binaryResult "/" (literal a) (literal b) = literal q ↔
        b.toInt ≠ 0 ∧ a.toInt = q.toInt * b.toInt) ∧
      ((∃ q, binaryResult "/" (literal a) (literal b) = literal q) ∨
        ∃ f, binaryResult "/" (literal a) (literal b) = of (.float f)) ∧
      (binaryResult "%" (literal a) (literal b)).IsKnownIf
        (¬(b.toInt = 0 ∨ a.toInt = -2 ^ 63 ∧ b.toInt = -1)) (a.toInt.tmod b.toInt) ∧
      (binaryResult "<<" (literal a) (literal b)).IsKnownIf
        (0 ≤ b.toInt ∧ b.toInt < 64) ((a.toInt * 2 ^ b.toInt.toNat).bmod (2 ^ 64)) ∧
      (binaryResult ">>" (literal a) (literal b)).IsKnownIf
        (0 ≤ b.toInt ∧ b.toInt < 64) (a.toInt / 2 ^ b.toInt.toNat) ∧
      (unaryResult "-" (literal a)).IsExact (-a.toInt) ∧
      (ofList ((literal a).members.map (Ty.stepped true))).IsExact (a.toInt + 1) ∧
      (ofList ((literal a).members.map (Ty.stepped false))).IsExact (a.toInt - 1) :=
  ⟨isExact_add, isExact_arithmetic rfl, isExact_arithmetic rfl, isExact_pow,
    fun _ => division_eq_literal_iff, division_known, isKnownIf_rem, isKnownIf_shiftLeft,
    isKnownIf_shiftRight, isExact_negative, isExact_stepped true, isExact_stepped false⟩

/-- The least power that leaves 64 bits upwards, and the greatest in size that does not. -/
theorem integer_folding_exact_pow :
    (binaryResult "**" (literal 2) (literal 63)).IsExact (2 ^ 63) ∧
      (binaryResult "**" (literal (-2)) (literal 63)).IsExact (-2 ^ 63) ∧ ¬Fits (2 ^ 63) ∧
      Fits (-2 ^ 63) := by
  obtain ⟨-, -, -, hpow, -⟩ := integer_folding_exact 2 63
  obtain ⟨-, -, -, hpow', -⟩ := integer_folding_exact (-2) 63
  refine ⟨hpow (by decide) (by decide), hpow' (by decide) (by decide), ?_, ?_⟩ <;>
    · rw [Fits]
      decide

end PhpCheck
