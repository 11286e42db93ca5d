import PhpCheck.Proofs.Check.Folding
import PhpCheck.Proofs.Numeric.Rounding

/-!
Comparisons of known values.

Every comparison operator is looked at as a function of the order of its operands
(`identities`, `equalities`, `orderings`), so that operators are coherent if they see the same
order.  Integers are compared after rounding, except for identity: the operators see the order
of the integers unless both are rounded to the same number (`integers_coherent_iff`).  Texts are
ordered as texts, but equal as numbers if both read as numbers: the operators see the same order
unless that makes a difference (`texts_coherent_iff`).
-/

namespace PhpCheck

open TyUnion

/-! ### Outcomes -/

namespace Operator

/-- The operators for identity, and what they say of operands in a given order. -/
def identities : List (String × (Ordering → Ty)) :=
  [("===", fun o => .bool (some (o == .eq))), ("!==", fun o => .bool (some (o != .eq)))]

/-- The operators for equality. -/
def equalities : List (String × (Ordering → Ty)) :=
  [("==", fun o => .bool (some (o == .eq))), ("!=", fun o => .bool (some (o != .eq))),
    ("<>", fun o => .bool (some (o != .eq)))]

/-- An order as a number. -/
def sign : Ordering → Int64
  | .lt => -1
  | .eq => 0
  | .gt => 1

/-- The operators for order. -/
def orderings : List (String × (Ordering → Ty)) :=
  [("<", fun o => .bool (some (o == .lt))), (">", fun o => .bool (some (o == .gt))),
    ("<=", fun o => .bool (some (o != .gt))), (">=", fun o => .bool (some (o != .lt))),
    ("<=>", fun o => .int (some (sign o)))]

def comparisons : List (String × (Ordering → Ty)) := identities ++ (equalities ++ orderings)

end Operator

open Operator (identities equalities orderings comparisons sign)

/-- The operators give what they say of operands in the order `o`. -/
def SeesOrder (operators : List (String × (Ordering → Ty))) (u v : TyUnion) (o : Ordering) :
    Prop :=
  ∀ entry ∈ operators, binaryResult entry.1 u v = of (entry.2 o)

namespace TyUnion

/-- The type of a known value. -/
def known (c : Constant) : TyUnion := of c.toTy

/-- The type of a known text. -/
def textLiteral (s : String) : TyUnion := known (.string s)

theorem value?_known (c : Constant) : (known c).value? = some c := by
  rw [known, value?_of (by cases c <;> nofun)]
  cases c <;> rfl

end TyUnion

section

variable {c d : Constant} {o o' : Ordering} {u v : TyUnion}
  {operators more : List (String × (Ordering → Ty))}

theorem seesOrder_append :
    SeesOrder (operators ++ more) u v o ↔ SeesOrder operators u v o ∧ SeesOrder more u v o :=
  List.forall_mem_append

theorem seesOrder_comparisons : SeesOrder comparisons u v o ↔
    SeesOrder identities u v o ∧ SeesOrder equalities u v o ∧ SeesOrder orderings u v o := by
  rw [comparisons, seesOrder_append, seesOrder_append]

theorem comparison_known {text : String} {op : Operator} {b : Bool}
    (htext : Operator.ofText? text = some op) (hb : c.comparison? op d = some b) :
    binaryResult text (known c) (known d) = of (.bool (some b)) := by
  have hresult : op.result (known c) (known d) = of (.bool (some b)) := by
    cases op <;> first | (simp [Operator.result, value?_known, hb]; done) | cases hb
  rw [binaryResult, htext]
  exact hresult

/-- What operands are for identity, equality and order is what their operators see. -/
theorem seesOrder_identities (ho : c.identical d = (o == .eq)) :
    SeesOrder identities (known c) (known d) o := by
  simp only [SeesOrder, identities, List.forall_mem_cons]
  refine ⟨comparison_known rfl ?_, comparison_known rfl ?_, List.forall_mem_nil _⟩ <;>
    simp [Constant.comparison?, ho, bne]

theorem seesOrder_equalities (ho : c.looselyEqual? d = some (o == .eq)) :
    SeesOrder equalities (known c) (known d) o := by
  simp only [SeesOrder, equalities, List.forall_mem_cons]
  refine ⟨comparison_known rfl ?_, comparison_known rfl ?_, comparison_known rfl ?_,
    List.forall_mem_nil _⟩ <;>
    simp [Constant.comparison?, ho, bne]

theorem seesOrder_orderings (ho : c.compare? d = some o) :
    SeesOrder orderings (known c) (known d) o := by
  have hspaceship : binaryResult "<=>" (known c) (known d) =
      of (.int (some (sign o))) := by
    show Operator.spaceship.result (known c) (known d) = _
    simp [Operator.result, value?_known, ho]
    cases o <;> rfl
  simp only [SeesOrder, orderings, List.forall_mem_cons]
  refine ⟨comparison_known rfl ?_, comparison_known rfl ?_, comparison_known rfl ?_,
    comparison_known rfl ?_, hspaceship, List.forall_mem_nil _⟩ <;> simp [Constant.comparison?, ho]

theorem bool_inj {b b' : Bool} (h : of (.bool (some b)) = of (.bool (some b'))) : b = b' := by
  have hmembers := congrArg members h
  rw [members_of (t := .bool (some b)) nofun, members_of (t := .bool (some b')) nofun] at hmembers
  cases hmembers
  rfl

/-- Operators that see two orders do not tell whether operands are equal in them apart. -/
theorem SeesOrder.eq_iff (ho : SeesOrder equalities u v o) (ho' : SeesOrder equalities u v o') :
    o = .eq ↔ o' = .eq := by
  have heq := (ho _ List.mem_cons_self).symm.trans (ho' _ List.mem_cons_self)
  simpa only [beq_iff_eq] using Bool.eq_iff_iff.1 (bool_inj heq)

end

/-! ### Integers -/

section

variable {a b : Int64}

/-- The order of integers after rounding. -/
def roundedOrder (a b : Int64) : Ordering :=
  if Double.ofInt a.toInt = Double.ofInt b.toInt then .eq else compare a.toInt b.toInt

theorem natAbs_toInt_le (a : Int64) : a.toInt.natAbs ≤ 2 ^ 63 := by
  have hlow := a.le_toInt
  have hhigh := a.toInt_lt
  omega

theorem compare?_int (a b : Int64) :
    Constant.compare? (.int a) (.int b) = some (roundedOrder a b) := by
  show Double.compare? (.ofInt a.toInt) (.ofInt b.toInt) = _
  rw [Double.compare?_ofInt (natAbs_toInt_le a) (natAbs_toInt_le b), roundedOrder]

theorem looselyEqual?_int (a b : Int64) :
    Constant.looselyEqual? (.int a) (.int b) = some (roundedOrder a b == .eq) := by
  show some ((Double.ofInt a.toInt).same (.ofInt b.toInt)) = _
  rw [Double.same_eq, Double.compare?_ofInt (natAbs_toInt_le a) (natAbs_toInt_le b), roundedOrder]
  rfl

theorem identical_int (a b : Int64) :
    Constant.identical (.int a) (.int b) = (compare a.toInt b.toInt == .eq) := by
  have hidentical : Constant.identical (.int a) (.int b) = true ↔ a = b := beq_iff_eq
  rw [Bool.eq_iff_iff, hidentical, beq_iff_eq, Std.compare_eq_iff_eq, Int64.toInt_inj]

theorem seesOrder_integers (a b : Int64) :
    SeesOrder identities (literal a) (literal b) (compare a.toInt b.toInt) ∧
      SeesOrder (equalities ++ orderings) (literal a) (literal b) (roundedOrder a b) := by
  have hidentities := seesOrder_identities (identical_int a b)
  have hequalities := seesOrder_equalities (looselyEqual?_int a b)
  have horderings := seesOrder_orderings (compare?_int a b)
  exact ⟨hidentities, seesOrder_append.2 ⟨hequalities, horderings⟩⟩

/-- All operators see the order of the integers, unless different ones are rounded to the same
number. -/
theorem integers_coherent_iff :
    SeesOrder comparisons (literal a) (literal b) (compare a.toInt b.toInt) ↔
      (Double.ofInt a.toInt = Double.ofInt b.toInt → a = b) := by
  obtain ⟨hidentities, hrounded⟩ := seesOrder_integers a b
  obtain ⟨hequalities, horderings⟩ := seesOrder_append.1 hrounded
  constructor
  · intro hall hround
    have heq := (hequalities.eq_iff (seesOrder_comparisons.1 hall).2.1).1 (if_pos hround)
    exact Int64.toInt_inj.1 (Std.compare_eq_iff_eq.1 heq)
  · intro hround
    have horder : roundedOrder a b = compare a.toInt b.toInt := by
      rw [roundedOrder]
      split
      · rename_i hab
        rw [hround hab, Std.compare_eq_iff_eq.2 rfl]
      · rfl
    rw [horder] at hequalities horderings
    exact seesOrder_comparisons.2 ⟨hidentities, hequalities, horderings⟩

/-- An integer of 53 bits is told apart from every other one. -/
theorem eq_of_rounded_eq (hsmall : a.toInt.natAbs < 2 ^ 53 ∨ b.toInt.natAbs < 2 ^ 53)
    (hround : Double.ofInt a.toInt = Double.ofInt b.toInt) : a = b := by
  rcases hsmall with ha | hb
  · exact Int64.toInt_inj.1 (Double.eq_of_ofInt_eq ha (natAbs_toInt_le b) hround)
  · exact Int64.toInt_inj.1 (Double.eq_of_ofInt_eq hb (natAbs_toInt_le a) hround.symm).symm

end

/-! ### Texts -/

section

variable {s t : String}

/-- Whether texts are equal: as numbers, if both read as numbers. -/
def equalTexts (s t : String) : Bool :=
  match Double.read? s.toList, Double.read? t.toList with
  | some x, some y => x.same y
  | _, _ => s == t

theorem looselyEqual?_string (s t : String) :
    Constant.looselyEqual? (.string s) (.string t) = some (equalTexts s t) := by
  rw [Constant.looselyEqual?, equalTexts]
  cases Double.read? s.toList <;> cases Double.read? t.toList <;> rfl

theorem seesOrder_texts (s t : String) :
    SeesOrder (identities ++ orderings) (textLiteral s) (textLiteral t) (compare s t) := by
  have hequal : Constant.identical (.string s) (.string t) = true ↔ s = t := beq_iff_eq
  have hidentical : Constant.identical (.string s) (.string t) = (compare s t == .eq) := by
    rw [Bool.eq_iff_iff, hequal, beq_iff_eq, Std.compare_eq_iff_eq]
  rw [textLiteral, textLiteral, seesOrder_append]
  exact ⟨seesOrder_identities hidentical, seesOrder_orderings rfl⟩

theorem equalTexts_eq_iff : equalTexts s t = (compare s t == .eq) ↔
    ∀ x y, Double.read? s.toList = some x → Double.read? t.toList = some y →
      (x.same y = true ↔ s = t) := by
  have horder : (compare s t == .eq) = decide (s = t) := by
    rw [Bool.eq_iff_iff, beq_iff_eq, Std.compare_eq_iff_eq, decide_eq_true_iff]
  have hplain : ((s == t) = decide (s = t)) := by
    rw [Bool.eq_iff_iff, beq_iff_eq, decide_eq_true_iff]
  rw [horder, equalTexts]
  cases Double.read? s.toList with
  | none => exact ⟨fun _ => nofun, fun _ => hplain⟩
  | some x =>
    cases Double.read? t.toList with
    | none => exact ⟨fun _ _ => nofun, fun _ => hplain⟩
    | some y =>
      have hnumbers : x.same y = decide (s = t) ↔ (x.same y = true ↔ s = t) := by
        rw [Bool.eq_iff_iff, decide_eq_true_iff]
      refine hnumbers.trans ⟨?_, fun h => h x y rfl rfl⟩
      rintro h x' y' hx hy
      obtain rfl := Option.some_inj.1 hx
      obtain rfl := Option.some_inj.1 hy
      exact h

theorem equal_texts (s t : String) :
    binaryResult "==" (textLiteral s) (textLiteral t) = of (.bool (some (equalTexts s t))) :=
  comparison_known rfl (looselyEqual?_string s t)

/-- Equality sees the order of the texts unless both read as numbers that are equal though the
texts are not, or the other way round. -/
theorem texts_coherent_iff :
    SeesOrder equalities (textLiteral s) (textLiteral t) (compare s t) ↔
      ∀ x y, Double.read? s.toList = some x → Double.read? t.toList = some y →
        (x.same y = true ↔ s = t) := by
  rw [← equalTexts_eq_iff]
  constructor
  · intro hequalities
    exact bool_inj ((equal_texts s t).symm.trans (hequalities _ List.mem_cons_self))
  · intro hequal
    exact seesOrder_equalities (by rw [looselyEqual?_string, hequal])

/-- A text equals itself unless it reads as what is not a number. -/
theorem equal_self_iff :
    binaryResult "==" (textLiteral s) (textLiteral s) = of (.bool (some true)) ↔
      ∀ x, Double.read? s.toList = some x → x.isNaN = false := by
  have hequal : equalTexts s s = true ↔
      ∀ x, Double.read? s.toList = some x → x.isNaN = false := by
    rw [equalTexts]
    cases Double.read? s.toList with
    | none => simp
    | some x => simp [Double.same]
  rw [equal_texts, ← hequal]
  exact ⟨bool_inj, fun h => by rw [h]⟩

end

/-- What the operators for comparison say of two known integers and of two known texts.

Integers are compared after rounding except for identity, so all operators see the order of the
integers unless different ones are rounded to the same number; integers of 53 bits never are.
Identity and order of texts see the order of the texts; equality sees it too unless both texts
are numbers that are equal while the texts differ, or that are not equal to themselves. -/
theorem comparison_folding (a b : Int64) (s t : String) :
    (SeesOrder comparisons (literal a) (literal b) (compare a.toInt b.toInt) ↔
        (Double.ofInt a.toInt = Double.ofInt b.toInt → a = b)) ∧
      SeesOrder identities (literal a) (literal b) (compare a.toInt b.toInt) ∧
      SeesOrder (equalities ++ orderings) (literal a) (literal b) (roundedOrder a b) ∧
      (a.toInt.natAbs < 2 ^ 53 ∨ b.toInt.natAbs < 2 ^ 53 →
        SeesOrder comparisons (literal a) (literal b) (compare a.toInt b.toInt)) ∧
      SeesOrder (identities ++ orderings) (textLiteral s) (textLiteral t) (compare s t) ∧
      (SeesOrder equalities (textLiteral s) (textLiteral t) (compare s t) ↔
        ∀ x y, Double.read? s.toList = some x → Double.read? t.toList = some y →
          (x.same y = true ↔ s = t)) ∧
      (binaryResult "==" (textLiteral s) (textLiteral s) = of (.bool (some true)) ↔
        ∀ x, Double.read? s.toList = some x → x.isNaN = false) := by
  obtain ⟨hidentities, hrounded⟩ := seesOrder_integers a b
  refine ⟨integers_coherent_iff, hidentities, hrounded, fun hsmall => ?_, seesOrder_texts s t,
    texts_coherent_iff, equal_self_iff⟩
  exact integers_coherent_iff.2 (eq_of_rounded_eq hsmall)

/-- Two great integers that are taken for equal, two texts that are equal as numbers but in order
as texts, and one that does not equal itself. -/
theorem comparison_folding_rounded :
    SeesOrder comparisons (literal 9007199254740991) (literal 9007199254740993) .lt ∧
      ¬SeesOrder comparisons (literal 9007199254740992) (literal 9007199254740993) .lt ∧
      ¬SeesOrder equalities (textLiteral "1") (textLiteral "1.0") .lt ∧
      binaryResult "==" (textLiteral "nan") (textLiteral "nan") ≠ of (.bool (some true)) := by
  obtain ⟨-, -, -, hsmall, -⟩ := comparison_folding 9007199254740991 9007199254740993 "" ""
  obtain ⟨hgreat, -, -, -, -, htexts, -⟩ :=
    comparison_folding 9007199254740992 9007199254740993 "1" "1.0"
  obtain ⟨-, -, -, -, -, -, hself⟩ := comparison_folding 0 0 "nan" "nan"
  refine ⟨hsmall (.inl (by decide)), fun h => ?_, fun h => ?_, fun h => ?_⟩
  · exact absurd (hgreat.1 h (by decide +kernel)) (by decide)
  · have hsame := (htexts.1 h ⟨0x3ff0000000000000⟩ ⟨0x3ff0000000000000⟩ (by decide +kernel)
      (by decide +kernel)).1 (by decide)
    exact absurd hsame (by decide)
  · exact absurd (hself.1 h Double.nan (by decide +kernel)) (by decide)

end PhpCheck
