import PhpCheck.Proofs.Types.Described

/-!
What a test for truth does to types.

A type that is not optional has each of its values among the true ones or among the
false ones.  The true values of an optional type are those of its content, and its
false ones are its sentinels.
-/

namespace PhpCheck

/-! ### Zero -/

theorem Double.same_zero {d f : Double} (hdf : d.same f = true) (hf : f.isZero = true) :
    d.same Double.zero = true := by
  refine Double.same_trans hdf ?_
  have hz : Double.zero.isNaN = false ∧ Double.zero.isZero = true := by decide
  simp only [Double.same, Bool.and_eq_true, Bool.not_eq_true'] at hdf
  simp [Double.same, hdf.1.2, hf, hz]

theorem Double.isNaN_of_isZero {f : Double} (hf : f.isZero = true) : f.isNaN = false := by
  simp only [Double.isZero, beq_iff_eq] at hf
  rw [Double.isNaN, hf]
  decide

theorem Double.same_of_zero {d f : Double} (hd : d.same Double.zero = true)
    (hf : f.isZero = true) : d.same f = true := by
  have hnan := Double.isNaN_of_isZero hf
  have hself : f.same f = true := by simp [Double.same, hnan]
  refine Double.same_trans hd ?_
  rw [Double.same_comm]
  exact Double.same_zero hself hf

theorem Double.isZero_of_same {d f : Double} (hdf : d.same f = true) : d.isZero = f.isZero := by
  simp only [Double.same, Bool.and_eq_true, Bool.or_eq_true, beq_iff_eq] at hdf
  rcases hdf.2 with hbits | ⟨hd, hf⟩
  · rw [Double.isZero, Double.magnitude, hbits]
    rfl
  · rw [hd, hf]

/-! ### Values -/

/-- A type that is not optional has each of its values among the true ones or among
the false ones, and all false ones but those of `bool` and of refined types also among
the true ones. -/
theorem Constant.truthy_or_falsy {c : Constant} {t : Ty} (ho : t.isOptional = false)
    (hf : t.functionFree = true) (hct : c.toTy.matches .flat t = true) :
    (∃ r, t.truthy? = some r ∧ c.toTy.matches .flat r = true) ∨
      ((∃ r, t.falsy? = some r ∧ c.toTy.matches .flat r = true) ∧ c.isTruthy = false ∧
        (t = .bool none ∨ t.value?.isSome = true)) := by
  cases t with
  | mixed => exact .inl ⟨.mixed, rfl, Ty.matches_mixed _⟩
  | bool x =>
    cases c <;> simp [Constant.toTy, Ty.matches, refines] at hct
    rename_i b
    cases b with
    | true =>
      exact .inl ⟨.bool (some true), by rcases hct with rfl | rfl <;> rfl, by
        simp [Constant.toTy, Ty.matches, refines]⟩
    | false =>
      refine .inr ⟨⟨.bool (some false), by rcases hct with rfl | rfl <;> rfl, ?_⟩, rfl, ?_⟩
      · simp [Constant.toTy, Ty.matches, refines]
      · rcases hct with rfl | rfl
        · exact .inl rfl
        · exact .inr rfl
  | int x =>
    cases c <;> simp [Constant.toTy, Ty.matches, refines] at hct
    rename_i i
    rcases hct with rfl | rfl
    · exact .inl ⟨.int none, rfl, by simp [Constant.toTy, Ty.matches, refines]⟩
    · by_cases hi : i = 0
      · subst hi
        exact .inr ⟨⟨.int (some 0), rfl, by simp [Constant.toTy, Ty.matches, refines]⟩, rfl,
          .inr rfl⟩
      · exact .inl ⟨.int (some i), by simp [Ty.truthy?, hi], by
          simp [Constant.toTy, Ty.matches, refines]⟩
  | float x =>
    cases x with
    | none => exact .inl ⟨.float none, rfl, hct⟩
    | some f =>
      cases c <;> simp [Constant.toTy, Ty.matches, refinesFloat, sameFloat] at hct
      rename_i d
      by_cases hz : f.isZero = true
      · refine .inr ⟨⟨.float (some Double.zero), by simp [Ty.falsy?, hz], ?_⟩, ?_, .inr rfl⟩
        · simpa [Constant.toTy, Ty.matches, refinesFloat, sameFloat] using Double.same_zero hct hz
        · simp [Constant.isTruthy, Double.isZero_of_same hct, hz]
      · exact .inl ⟨.float (some f), by simp [Ty.truthy?, hz], by
          simpa [Constant.toTy, Ty.matches, refinesFloat, sameFloat] using hct⟩
  | string x =>
    cases c <;> simp [Constant.toTy, Ty.matches, refines] at hct
    rename_i s
    rcases hct with rfl | rfl
    · exact .inl ⟨.string none, rfl, by simp [Constant.toTy, Ty.matches, refines]⟩
    · by_cases hs : Constant.isFalsyText s = true
      · exact .inr ⟨⟨.string (some s), by simp [Ty.falsy?, hs], by
          simp [Constant.toTy, Ty.matches, refines]⟩, by simp [Constant.isTruthy, hs], .inr rfl⟩
      · exact .inl ⟨.string (some s), by simp [Ty.truthy?, hs], by
          simp [Constant.toTy, Ty.matches, refines]⟩
  | null =>
    cases c <;> simp [Constant.toTy, Ty.matches] at hct
    exact .inr ⟨⟨.null, rfl, by simp [Constant.toTy, Ty.matches]⟩, rfl, .inr rfl⟩
  | function f => simp [Ty.functionFree] at hf
  | optional c s => simp [Ty.isOptional] at ho
  | void | resource | map | list | classOf | object =>
    cases c <;> simp [Constant.toTy, Ty.matches] at hct

theorem Constant.matches_optional_iff {c : Constant} {h : Hierarchy} {t : Ty} {s : Sentinel} :
    c.toTy.matches h (.optional t s) = true ↔ c.toTy ∈ s.types ∨ c.toTy.matches h t = true := by
  rw [Ty.matches_optional c.isAtom_toTy, Sentinel.any_contains_iff]

theorem Constant.matches_of_truthy? {c : Constant} {t r : Ty} (hr : t.truthy? = some r)
    (hcr : c.toTy.matches .flat r = true) : c.toTy.matches .flat t = true := by
  induction t using Ty.induct generalizing r with
  | optional d s ih => exact matches_optional_iff.2 (.inr (ih (by simpa [Ty.truthy?] using hr) hcr))
  | leaf t _ ho _ =>
    rcases Ty.truthy?_eq_some hr with rfl | ⟨rfl, rfl⟩ | ⟨d, s, rfl, -⟩
    · exact hcr
    · cases c <;> simp_all [Constant.toTy, Ty.matches, refines]
    · simp [Ty.isOptional] at ho
  | map u _ | list u _ | function f _ _ =>
    simp only [Ty.truthy?, Option.some.injEq] at hr
    exact hr ▸ hcr

/-- The false values of an optional type are its sentinels. -/
theorem Constant.matches_falsy?_optional {c : Constant} {t r : Ty} {s : Sentinel}
    (hr : (Ty.optional t s).falsy? = some r) :
    c.toTy.matches .flat r = true ↔ c.toTy ∈ s.types := by
  cases s <;> simp only [Ty.falsy?, Option.some.injEq] at hr <;> subst hr
  · cases c <;> simp [Constant.toTy, Ty.matches, refines, Sentinel.types]
  · cases c <;> simp [Constant.toTy, Ty.matches, Sentinel.types]
  · rw [matches_optional_iff]
    cases c <;> simp [Constant.toTy, Ty.matches, refines, Sentinel.types]

theorem Constant.matches_of_falsy? {c : Constant} {t r : Ty} (hr : t.falsy? = some r)
    (hcr : c.toTy.matches .flat r = true) : c.toTy.matches .flat t = true := by
  cases t with
  | optional d s => exact matches_optional_iff.2 (.inl ((matches_falsy?_optional hr).1 hcr))
  | mixed => exact Ty.matches_mixed _
  | bool x =>
    rcases x with _ | _ | _ <;> simp only [Ty.falsy?, reduceCtorEq, Option.some.injEq] at hr
    · subst hr
      cases c <;> simp_all [Constant.toTy, Ty.matches, refines]
    · exact hr ▸ hcr
  | int x =>
    cases x with
    | none =>
      simp only [Ty.falsy?, Option.some.injEq] at hr
      subst hr
      cases c <;> simp_all [Constant.toTy, Ty.matches, refines]
    | some i =>
      by_cases hi : i = 0 <;> simp [Ty.falsy?, hi] at hr
      rw [hi, hr]
      exact hcr
  | float x =>
    cases x with
    | none =>
      simp only [Ty.falsy?, Option.some.injEq] at hr
      subst hr
      cases c <;> simp_all [Constant.toTy, Ty.matches, refinesFloat]
    | some f =>
      by_cases hz : f.isZero = true <;> simp [Ty.falsy?, hz] at hr
      subst hr
      cases c <;> simp [Constant.toTy, Ty.matches, refinesFloat, sameFloat] at hcr ⊢
      exact Double.same_of_zero hcr hz
  | string x =>
    cases x with
    | none =>
      simp only [Ty.falsy?, Option.some.injEq] at hr
      exact hr ▸ hcr
    | some s =>
      by_cases hs : Constant.isFalsyText s = true <;> simp [Ty.falsy?, hs] at hr
      exact hr ▸ hcr
  | null | map | list =>
    simp only [Ty.falsy?, Option.some.injEq] at hr
    exact hr ▸ hcr
  | void | resource | function | classOf | object => simp [Ty.falsy?] at hr

/-- The true values of `bool` and of refined types are true. -/
theorem Constant.isTruthy_of_truthy? {c : Constant} {t r : Ty}
    (ht : t = .bool none ∨ t.value?.isSome = true) (hr : t.truthy? = some r)
    (hcr : c.toTy.matches .flat r = true) : c.isTruthy = true := by
  cases t with
  | bool x =>
    rcases x with _ | _ | _ <;> simp only [Ty.truthy?, reduceCtorEq, Option.some.injEq] at hr
    all_goals
      subst hr
      cases c <;> simp_all [Constant.toTy, Ty.matches, refines, Constant.isTruthy]
  | int x =>
    cases x with
    | none => simp [Ty.value?] at ht
    | some i =>
      by_cases hi : i = 0 <;> simp [Ty.truthy?, hi] at hr
      subst hr
      cases c <;> simp_all [Constant.toTy, Ty.matches, refines, Constant.isTruthy]
  | float x =>
    cases x with
    | none => simp [Ty.value?] at ht
    | some f =>
      by_cases hz : f.isZero = true <;> simp [Ty.truthy?, hz] at hr
      subst hr
      cases c <;> simp [Constant.toTy, Ty.matches, refinesFloat, sameFloat] at hcr
      simp [Constant.isTruthy, Double.isZero_of_same hcr, hz]
  | string x =>
    cases x with
    | none => simp [Ty.value?] at ht
    | some s =>
      by_cases hs : Constant.isFalsyText s = true <;> simp [Ty.truthy?, hs] at hr
      subst hr
      cases c <;> simp_all [Constant.toTy, Ty.matches, refines, Constant.isTruthy]
  | null => simp [Ty.truthy?] at hr
  | _ => simp [Ty.value?] at ht

/-! ### True and false parts are plain -/

theorem Ty.Plain.truthy {t r : Ty} (ht : t.Plain) (hr : t.truthy? = some r) : r.Plain := by
  refine ⟨ht.1.truthy hr, ?_⟩
  have hf := ht.2
  clear ht
  induction t using Ty.induct generalizing r with
  | optional d s ih =>
    exact ih (by simpa [Ty.truthy?] using hr) (by simpa [Ty.functionFree] using hf)
  | leaf t _ ho _ =>
    rcases Ty.truthy?_eq_some hr with rfl | ⟨-, rfl⟩ | ⟨d, s, rfl, -⟩
    · exact hf
    · rfl
    · simp [Ty.isOptional] at ho
  | map u _ | list u _ | function f _ _ =>
    simp only [Ty.truthy?, Option.some.injEq] at hr
    exact hr ▸ hf

theorem Ty.Plain.falsy {t r : Ty} (ht : t.Plain) (hr : t.falsy? = some r) : r.Plain := by
  refine ⟨ht.1.falsy hr, ?_⟩
  have hf := ht.2
  unfold Ty.falsy? at hr
  split at hr <;> try split at hr
  all_goals
    cases hr
    all_goals first
      | exact hf
      | rfl

theorem Kind.isIn_truthy? {k : Kind} {t r : Ty} (ht : t.WellFormed) (hr : t.truthy? = some r)
    (hk : k.isIn r = true) : k.isIn t = true := by
  rcases Ty.truthy?_eq_some hr with rfl | ⟨rfl, rfl⟩ | ⟨d, s, rfl, hd⟩
  · exact hk
  · cases k <;> simp [Kind.isIn, Kind.isOf, Ty.isNumeric] at hk
  · have ho := (Ty.wellFormed_optional.1 ht).2.2
    rw [← Kind.isIn_content ht]
    rcases Ty.truthy?_eq_some hd with rfl | ⟨rfl, rfl⟩ | ⟨d', s', rfl, -⟩
    · exact hk
    · cases k <;> simp [Kind.isIn, Kind.isOf, Ty.isNumeric] at hk
    · simp [Ty.isOptional] at ho

theorem Kind.isIn_falsy? {k : Kind} {t r : Ty} (hr : t.falsy? = some r)
    (hk : k.isIn r = true) : k.isIn t = true := by
  unfold Ty.falsy? at hr
  split at hr <;> try split at hr
  all_goals
    cases hr
    all_goals first
      | exact hk
      | (cases k <;> simp_all [Kind.isIn, Kind.isOf, Ty.isNumeric])

end PhpCheck
