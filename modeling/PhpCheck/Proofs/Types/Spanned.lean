import Mathlib
import PhpCheck.Proofs.Types.Families
import PhpCheck.Proofs.Types.Filtering

/-!
The values that a join describes.

Two texts, or two numbers, cannot be told apart in one union: where they meet, their
refinements are given up, and what is left describes all texts, or all numbers.
`Spanned` states this of sets of values, with no regard to how they are written as
types.  A join describes just what the values of both sides span, unless it is `mixed`
(`TyUnion.Plain.describes_union_iff`), and neither this nor whether it is `mixed`
depends on the order of the two or on the order of their members.
-/

namespace PhpCheck

/-! ### Spans -/

/-- The values that stand for some values: those themselves, and all of a sort of which
there are two. -/
inductive Spanned (S : Constant → Prop) : Constant → Prop
  | of {c : Constant} (hc : S c) : Spanned S c
  | text {x y : String} (hx : S (.string x)) (hy : S (.string y)) (hxy : x ≠ y) (z : String) :
      Spanned S (.string z)
  | whole {x y : Int64} (hx : S (.int x)) (hy : S (.int y)) (hxy : x ≠ y) (z : Int64) :
      Spanned S (.int z)
  /-- A floating point number and another number stand for all, whole ones included. -/
  | number {x : Double} {c d : Constant} (hx : S (.float x)) (hc : S c)
      (hck : c.toTy.isNumeric = true) (hcx : c.toTy.matches .flat (.float (some x)) = false)
      (hdk : d.toTy.isNumeric = true) : Spanned S d

section

variable {S T : Constant → Prop} {c : Constant}

/-- Spanning is done once and for all. -/
theorem Spanned.bind (hc : Spanned S c) (hST : ∀ c, S c → Spanned T c) : Spanned T c := by
  cases hc with
  | of hc => exact hST c hc
  | text hx hy hxy z =>
    cases hST _ hx with
    | text hx hy hxy => exact .text hx hy hxy z
    | number _ _ _ _ hdk => cases hdk
    | of hx =>
      cases hST _ hy with
      | text hx hy hxy => exact .text hx hy hxy z
      | number _ _ _ _ hdk => cases hdk
      | of hy => exact .text hx hy hxy z
  | whole hx hy hxy z =>
    cases hST _ hx with
    | whole hx hy hxy => exact .whole hx hy hxy z
    | number hx hc hck hcx => exact .number hx hc hck hcx rfl
    | of hx =>
      cases hST _ hy with
      | whole hx hy hxy => exact .whole hx hy hxy z
      | number hx hc hck hcx => exact .number hx hc hck hcx rfl
      | of hy => exact .whole hx hy hxy z
  | number hx hc hck hcx hdk =>
    cases hST _ hx with
    | number hx hc hck hcx => exact .number hx hc hck hcx hdk
    | of hx =>
      cases hST _ hc with
      | text => cases hck
      | whole ha => exact .number hx ha rfl (by simp [Constant.toTy, Ty.matches]) hdk
      | number hx hc hck hcx => exact .number hx hc hck hcx hdk
      | of hc => exact .number hx hc hck hcx hdk

theorem Spanned.mono (hc : Spanned S c) (hST : ∀ c, S c → T c) : Spanned T c :=
  hc.bind fun c hc => .of (hST c hc)

end

/-! ### What a union describes spans no more -/

theorem Kind.matches_core {k : Kind} {c : Constant} (hk : k.isOf c.toTy = true) (h : Hierarchy)
    (t : Ty) : c.toTy.matches h t = c.toTy.matches h t.core := by
  cases t with
  | optional d s =>
    have hnone : Sentinel.ofTy? c.toTy = none := by
      cases k <;> cases c <;> simp_all [Kind.isOf, Constant.toTy, Ty.isNumeric, Sentinel.ofTy?]
    rw [Bool.eq_iff_iff, Ty.matches_optional c.isAtom_toTy, hnone]
    simp [Ty.core]
  | _ => rfl

theorem Kind.isIn_of_describes {k : Kind} {c : Constant} {t : Ty} (hk : k.isOf c.toTy = true)
    (ht : t.Telling) (hct : c.toTy.matches .flat t = true) : k.isIn t = true := by
  refine Kind.isIn_of_matches ht.plain ht.isMixed ?_ hct
  rw [Kind.isIn_eq]
  cases c <;> exact hk

/-- One member of a union describes all values of a sort. -/
theorem Separate.eq_of_isIn {ts : List Ty} {k : Kind} {a b : Ty} (hs : Separate ts) (ha : a ∈ ts)
    (hb : b ∈ ts) (hka : k.isIn a = true) (hkb : k.isIn b = true) : a = b := by
  by_contra hne
  have : Std.Symm fun a b : Ty => a.combine? b = none :=
    ⟨fun _ _ hn => Ty.combine?_eq_none_comm hn⟩
  exact Kind.combine?_ne_none hka hkb (hs.apart.forall ha hb hne)

theorem Ty.text_closed {t : Ty} {x y : String} (hx : (Ty.string (some x)).matches .flat t = true)
    (hy : (Ty.string (some y)).matches .flat t = true) (hxy : x ≠ y) (hk : Kind.text.isOf t = true)
    (z : String) : (Ty.string (some z)).matches .flat t = true := by
  cases t with
  | string v => cases v <;> simp_all [Ty.matches, refines]
  | _ => cases hk

theorem Ty.whole_closed {t : Ty} {x y : Int64} (hx : (Ty.int (some x)).matches .flat t = true)
    (hy : (Ty.int (some y)).matches .flat t = true) (hxy : x ≠ y) (hk : t.isNumeric = true)
    (z : Int64) : (Ty.int (some z)).matches .flat t = true := by
  cases t with
  | int v => cases v <;> simp_all [Ty.matches, refines]
  | float v => cases v <;> simp_all [Ty.matches]
  | _ => cases hk

theorem Ty.number_closed {t : Ty} {x : Double} {c d : Constant}
    (hx : (Ty.float (some x)).matches .flat t = true) (hc : c.toTy.matches .flat t = true)
    (hk : t.isNumeric = true) (hck : c.toTy.isNumeric = true)
    (hcx : c.toTy.matches .flat (.float (some x)) = false) (hdk : d.toTy.isNumeric = true) :
    d.toTy.matches .flat t = true := by
  cases t with
  | int v => simp [Ty.matches] at hx
  | float v =>
    cases v with
    | none => cases d <;> simp_all [Constant.toTy, Ty.isNumeric, Ty.matches, refinesFloat]
    | some e =>
      -- The other number would have to be equal to the one there is.
      cases c <;> simp_all [Constant.toTy, Ty.isNumeric, Ty.matches, refinesFloat, sameFloat]
      rw [Double.same_trans hc (Double.same_comm x e ▸ hx)] at hcx
      cases hcx
  | _ => cases hk

theorem TyUnion.Plain.telling {u : TyUnion} (hu : u.Plain) (hm : u.isMixed = false) :
    ∀ t ∈ u.members, t.Telling := by
  refine fun t ht => ⟨hu.mem t ht, (wellFormed_iff.1 hu.1).2.isMixed_eq_false (fun h => ?_) ht⟩
  rw [isMixed_iff.2 h] at hm
  cases hm

theorem TyUnion.Plain.describes_of_spanned {u : TyUnion} {c : Constant} (hu : u.Plain)
    (hc : Spanned (u.Describes .flat) c) : u.Describes .flat c := by
  by_cases hm : u.isMixed = true
  · exact describes_of_isMixed c hm
  have hs := (wellFormed_iff.1 hu.1).2
  have htell := hu.telling (by simpa using hm)
  -- The two values of a sort are described by one member, so that it describes all.
  have hone : ∀ (k : Kind) {a b : Constant}, k.isOf a.toTy = true → k.isOf b.toTy = true →
      u.Describes .flat a → u.Describes .flat b → ∃ m ∈ u.members, k.isOf m.core = true ∧
        a.toTy.matches .flat m.core = true ∧ b.toTy.matches .flat m.core = true := by
    rintro k a b hka hkb ⟨m, hm, ham⟩ ⟨n, hn, hbn⟩
    have hkm := Kind.isIn_of_describes hka (htell m hm) ham
    obtain rfl := hs.eq_of_isIn hm hn hkm (Kind.isIn_of_describes hkb (htell n hn) hbn)
    rw [Kind.matches_core hka] at ham
    rw [Kind.matches_core hkb] at hbn
    exact ⟨m, hm, Kind.isIn_eq k m ▸ hkm, ham, hbn⟩
  cases hc with
  | of hc => exact hc
  | text hx hy hxy z =>
    obtain ⟨m, hm, hk, hxm, hym⟩ := hone .text rfl rfl hx hy
    exact ⟨m, hm, Kind.matches_core (k := .text) (c := .string z) rfl _ _ ▸
      Ty.text_closed hxm hym hxy hk z⟩
  | whole hx hy hxy z =>
    obtain ⟨m, hm, hk, hxm, hym⟩ := hone .number rfl rfl hx hy
    exact ⟨m, hm, Kind.matches_core (k := .number) (c := .int z) rfl _ _ ▸
      Ty.whole_closed hxm hym hxy hk z⟩
  | number hx hd hdk hdx hck =>
    obtain ⟨m, hm, hk, hxm, hdm⟩ := hone .number rfl hdk hx hd
    exact ⟨m, hm, Kind.matches_core (k := .number) hck _ _ ▸
      Ty.number_closed hxm hdm hk hdk hdx hck⟩

/-! ### Merging gives up no more than it has to -/

section

variable {j : TyUnion → TyUnion → TyUnion} {k : Kind} {a b r : Ty} {c : Constant}

/-- What one of two types describes. -/
def Ty.Either (a b : Ty) (c : Constant) : Prop :=
  c.toTy.matches .flat a = true ∨ c.toTy.matches .flat b = true

theorem Ty.Either.symm (hc : a.Either b c) : b.Either a c := Or.symm hc

theorem Ty.spanned_texts {x y : Option String}
    (hr : (Ty.string x).combineWith j (.string y) = some r) (hcr : c.toTy.matches .flat r = true) :
    Spanned ((Ty.string x).Either (.string y)) c := by
  rw [Ty.combineWith.eq_def] at hr
  split at hr
  · exact .of (.inl (Option.some.inj hr ▸ hcr))
  rename_i hyx
  split at hr
  · exact .of (.inr (Option.some.inj hr ▸ hcr))
  rename_i hxy
  obtain rfl := Option.some.inj hr
  cases x with
  | none => simp [Ty.matches, refines] at hyx
  | some x =>
    cases y with
    | none => simp [Ty.matches, refines] at hxy
    | some y =>
      have hne : x ≠ y := by
        rintro rfl
        simp [Ty.matches, refines] at hxy
      cases c with
      | string z =>
        exact .text (.inl (Ty.WellFormed.matches_self trivial))
          (.inr (Ty.WellFormed.matches_self trivial)) hne z
      | _ => simp [Constant.toTy, Ty.matches] at hcr

theorem Ty.spanned_wholes {x y : Option Int64} (hyx : (Ty.int y).matches .flat (.int x) = false)
    (hxy : (Ty.int x).matches .flat (.int y) = false)
    (hc : c.toTy.matches .flat (.int none) = true) : Spanned ((Ty.int x).Either (.int y)) c := by
  cases x with
  | none => simp [Ty.matches, refines] at hyx
  | some x =>
    cases y with
    | none => simp [Ty.matches, refines] at hxy
    | some y =>
      have hne : x ≠ y := by
        rintro rfl
        simp [Ty.matches, refines] at hxy
      cases c with
      | int z =>
        exact .whole (.inl (Ty.WellFormed.matches_self trivial))
          (.inr (Ty.WellFormed.matches_self trivial)) hne z
      | _ => simp [Constant.toTy, Ty.matches] at hc

/-- Numbers of which neither type accepts the other, and one is refined to a floating point
number. -/
theorem Ty.spanned_floats {x : Double} (hx : (Ty.float (some x)).WellFormed)
    (hkb : b.isNumeric = true) (hb : b.WellFormed)
    (hxb : (Ty.float (some x)).matches .flat b = false)
    (hbx : b.matches .flat (.float (some x)) = false) (hc : c.toTy.isNumeric = true) :
    Spanned ((Ty.float (some x)).Either b) c := by
  obtain ⟨d, hd, hdb, hdx⟩ : ∃ d : Constant, d.toTy.isNumeric = true ∧
      d.toTy.matches .flat b = true ∧ d.toTy.matches .flat (.float (some x)) = false := by
    cases b with
    | int y =>
      refine ⟨.int (y.getD 0), rfl, ?_, ?_⟩
      · cases y <;> simp [Constant.toTy, Ty.matches, refines]
      · simp [Constant.toTy, Ty.matches]
    | float y =>
      cases y with
      | none => simp [Ty.matches, refinesFloat] at hxb
      | some y => exact ⟨.float y, rfl, hb.matches_self, hbx⟩
    | _ => cases hkb
  exact .number (.inl hx.matches_self) (.inr hdb) hd hdx hc

theorem Ty.spanned_numbers (hka : a.isNumeric = true) (hkb : b.isNumeric = true)
    (ha : a.WellFormed) (hb : b.WellFormed) (hr : a.combineWith j b = some r)
    (hcr : c.toTy.matches .flat r = true) : Spanned (a.Either b) c := by
  rw [Ty.combineWith.eq_def] at hr
  split at hr
  · exact .of (.inl (Option.some.inj hr ▸ hcr))
  rename_i hba
  split at hr
  · exact .of (.inr (Option.some.inj hr ▸ hcr))
  rename_i hab
  rw [Bool.not_eq_true] at hba hab
  have hnum : r = .float none → c.toTy.isNumeric = true := by
    rintro rfl
    cases c <;> simp_all [Constant.toTy, Ty.matches, Ty.isNumeric]
  cases a <;> simp only [Ty.isNumeric, Bool.false_eq_true] at hka <;>
    cases b <;> simp only [Ty.isNumeric, Bool.false_eq_true] at hkb <;>
      simp only [Option.some.injEq] at hr
  case int.int x y => exact spanned_wholes hba hab (hr ▸ hcr)
  case int.float x y =>
    cases y with
    | none => simp [Ty.matches] at hab
    | some y =>
      exact (spanned_floats hb rfl ha hba hab (hnum hr.symm)).mono fun c hc => hc.symm
  case float.int x y =>
    cases x with
    | none => simp [Ty.matches] at hba
    | some x => exact spanned_floats ha rfl hb hab hba (hnum hr.symm)
  case float.float x y =>
    cases x with
    | none => simp [Ty.matches, refinesFloat] at hba
    | some x => exact spanned_floats ha rfl hb hab hba (hnum hr.symm)

/-- Merging types of one sort of values describes what their values span. -/
theorem Kind.spanned_cores (hka : k.isOf a = true) (hkb : k.isOf b = true) (ha : a.WellFormed)
    (hb : b.WellFormed) (hr : a.combineWith j b = some r) (hcr : c.toTy.matches .flat r = true) :
    Spanned (a.Either b) c := by
  cases k with
  | number => exact Ty.spanned_numbers hka hkb ha hb hr hcr
  | text =>
    cases a <;> simp only [Kind.isOf, Bool.false_eq_true] at hka
    cases b <;> simp only [Kind.isOf, Bool.false_eq_true] at hkb
    exact Ty.spanned_texts hr hcr

theorem Ty.combineWith_optionals {x y : Ty} {s t : Sentinel}
    (hr : (Ty.optional x s).combineWith j (.optional y t) = some r) :
    r = .optional x s ∨ r = .optional y t ∨
      ∃ c, x.combineWith j y = some c ∧ r = c.makeOptional (s.union t) := by
  rw [Ty.combineWith.eq_def] at hr
  split at hr
  · exact .inl (Option.some.inj hr).symm
  split at hr
  · exact .inr (.inl (Option.some.inj hr).symm)
  obtain ⟨c, hc, rfl⟩ := Option.map_eq_some_iff.1 hr
  exact .inr (.inr ⟨c, hc, rfl⟩)

theorem Ty.combineWith_content {x t : Ty} {s : Sentinel} (ho : t.isOptional = false)
    (ht : Sentinel.ofTy? t = none) (hr : (Ty.optional x s).combineWith j t = some r ∨
      t.combineWith j (.optional x s) = some r) :
    r = .optional x s ∨ r = t ∨ ∃ c, x.combineWith j t = some c ∧ r = c.makeOptional s := by
  have habsorb : x.absorb j s t = some r →
      ∃ c, x.combineWith j t = some c ∧ r = c.makeOptional s := by
    intro hr
    rcases Ty.absorb_eq_some hr with ⟨o, ho, -⟩ | ⟨c, -, hc, hrc⟩
    · rw [ht] at ho
      cases ho
    · exact ⟨c, hc, hrc⟩
  rcases hr with hr | hr <;> rw [Ty.combineWith.eq_def] at hr <;> split at hr
  · exact .inl (Option.some.inj hr).symm
  · split at hr
    · exact .inr (.inl (Option.some.inj hr).symm)
    · refine .inr (.inr (habsorb ?_))
      cases t <;> first | exact hr | cases ho
  · exact .inr (.inl (Option.some.inj hr).symm)
  · split at hr
    · exact .inl (Option.some.inj hr).symm
    · refine .inr (.inr (habsorb ?_))
      cases t <;> first | exact hr | cases ho

theorem Kind.ofTy?_eq_none {t : Ty} (hk : k.isIn t = true) (ho : t.isOptional = false) :
    Sentinel.ofTy? t = none := by
  cases k <;> cases t <;> simp_all [Kind.isIn, Kind.isOf, Ty.isNumeric, Ty.isOptional,
    Sentinel.ofTy?]

/-- Types about values of one sort describe when merged what their values span. -/
theorem Ty.spanned_rivals (ha : a.Plain) (hb : b.Plain) (hka : k.isIn a = true)
    (hkb : k.isIn b = true) (hr : a.combineWith j b = some r)
    (hcr : c.toTy.matches .flat r = true) : Spanned (a.Either b) c := by
  have hopt : ∀ {d : Ty} {s : Sentinel} {c : Constant},
      c.toTy.matches .flat d = true ∨ c.toTy ∈ s.types →
        c.toTy.matches .flat (.optional d s) = true := by
    intro d s c hds
    rw [Ty.matches_optional c.isAtom_toTy, Sentinel.any_contains_iff]
    exact hds.symm
  cases hao : a.isOptional with
  | true =>
    obtain ⟨x, s, rfl⟩ := Ty.eq_optional hao
    cases hbo : b.isOptional with
    | true =>
      obtain ⟨y, t, rfl⟩ := Ty.eq_optional hbo
      rcases Ty.combineWith_optionals hr with rfl | rfl | ⟨z, hz, rfl⟩
      · exact .of (.inl hcr)
      · exact .of (.inr hcr)
      · rcases Ty.matches_of_makeOptional c.isAtom_toTy hcr with hcz | hcs
        · refine (Kind.spanned_cores hka hkb ha.1.content hb.1.content hz hcz).mono fun c hc => ?_
          exact hc.imp (fun h => hopt (.inl h)) fun h => hopt (.inl h)
        · refine .of ((Sentinel.mem_types_union hcs).imp (fun h => hopt (.inr h)) fun h => ?_)
          exact hopt (.inr h)
    | false =>
      have hbs := Kind.ofTy?_eq_none hkb hbo
      rcases Ty.combineWith_content hbo hbs (.inl hr) with rfl | rfl | ⟨z, hz, rfl⟩
      · exact .of (.inl hcr)
      · exact .of (.inr hcr)
      · rcases Ty.matches_of_makeOptional c.isAtom_toTy hcr with hcz | hcs
        · rw [Kind.isIn_eq, Ty.core_eq hbo] at hkb
          refine (Kind.spanned_cores hka hkb ha.1.content hb.1 hz hcz).mono fun c hc => ?_
          exact hc.imp_left fun h => hopt (.inl h)
        · exact .of (.inl (hopt (.inr hcs)))
  | false =>
    cases hbo : b.isOptional with
    | true =>
      obtain ⟨y, t, rfl⟩ := Ty.eq_optional hbo
      have has := Kind.ofTy?_eq_none hka hao
      rcases Ty.combineWith_content hao has (.inr hr) with rfl | rfl | ⟨z, hz, rfl⟩
      · exact .of (.inr hcr)
      · exact .of (.inl hcr)
      · rcases Ty.matches_of_makeOptional c.isAtom_toTy hcr with hcz | hcs
        · rw [Kind.isIn_eq, Ty.core_eq hao] at hka
          refine (Kind.spanned_cores hkb hka hb.1.content ha.1 hz hcz).mono fun c hc => ?_
          exact hc.symm.imp_right fun h => hopt (.inl h)
        · exact .of (.inr (hopt (.inr hcs)))
    | false =>
      rw [Kind.isIn_eq, Ty.core_eq hao] at hka
      rw [Kind.isIn_eq, Ty.core_eq hbo] at hkb
      exact Kind.spanned_cores hka hkb ha.1 hb.1 hr hcr

theorem Ty.spanned_of_combineWith (ha : a.Plain) (hb : b.Plain) (hr : a.combineWith j b = some r)
    (hcr : c.toTy.matches .flat r = true) : Spanned (a.Either b) c := by
  by_cases hab : a.Unrivalled b
  · exact .of ((Ty.combines_of_combineWith hr).matches_of_matches ha hb hab hcr)
  · obtain ⟨k, hk⟩ := not_forall.1 hab
    obtain ⟨hka, hkb⟩ := not_not.1 hk
    exact Ty.spanned_rivals ha hb hka hkb hr hcr

end

/-! ### Adding and joining -/

/-- What some types describe. -/
def Described (ts : List Ty) (c : Constant) : Prop := ∃ t ∈ ts, c.toTy.matches .flat t = true

section

variable {j : TyUnion → TyUnion → TyUnion} {K : Ty → Prop}

/-- Adding a type describes what the values of all types span. -/
theorem spanned_addWith (hK : ∀ t, K t → t.Plain) (hj : MergeClosed j K) {ms : List Ty} {t : Ty}
    {c : Constant} (hl : ms.length ≤ maxMembers) (hms : ∀ m ∈ ms, K m) (ht : K t)
    (hc : Described (addWith (Ty.combineWith j) ms t) c) :
    addWith (Ty.combineWith j) ms t = [.mixed] ∨ Spanned (Described (t :: ms)) c := by
  refine (addWith_induct (motive := fun ms t res => (∀ m ∈ ms, K m) → K t → Described res c →
    res = [.mixed] ∨ Spanned (Described (t :: ms)) c) ?_ ?_ ?_ ?_ ?_ ?_ ms t hl).1 hms ht hc
  · exact fun ms _ _ ⟨e, he, hce⟩ => .inr (.of ⟨e, List.mem_cons_of_mem _ he, hce⟩)
  · exact fun ms _ _ _ => .inl rfl
  · exact fun t _ _ _ => .inl rfl
  · intro pre m post t r _ _ _ hr ih hms ht hc
    have hm := hms m (by simp)
    have hkr := (Ty.combines_of_combineWith hr).keeps hj hm ht
    refine (ih (fun x hx => hms x (mem_of_mem_rest m hx)) hkr hc).imp_right fun hc => ?_
    refine hc.bind fun c ⟨x, hx, hcx⟩ => ?_
    rcases List.mem_cons.1 hx with rfl | hx
    · refine (Ty.spanned_of_combineWith (hK m hm) (hK t ht) hr hcx).mono fun c hc => ?_
      rcases hc with hc | hc
      · exact ⟨m, by simp, hc⟩
      · exact ⟨t, by simp, hc⟩
    · exact .of ⟨x, List.mem_cons_of_mem t (mem_of_mem_rest m hx), hcx⟩
  · intro ms t _ _ _ _ _ _ _ ⟨e, he, hce⟩
    refine .inr (.of ⟨e, ?_, hce⟩)
    rcases List.mem_append.1 he with he | he
    · exact List.mem_cons_of_mem t he
    · rw [List.mem_singleton.1 he]
      exact List.mem_cons_self
  · exact fun ms t _ _ _ _ _ _ _ _ => .inl rfl

end

theorem spanned_addMember {ms : List Ty} {t : Ty} {c : Constant} (hms : TyUnion.Plain ⟨ms⟩)
    (ht : t.Plain) (hc : Described (addMember ms t) c) :
    addMember ms t = [.mixed] ∨ Spanned (Described (t :: ms)) c := by
  have hd : TyUnion.PlainWithin (max (TyUnion.arrayDepth ⟨ms⟩) t.arrayDepth) ⟨ms⟩ :=
    TyUnion.plainWithin_iff.2 ⟨hms.1, hms.2, Nat.le_max_left _ _⟩
  exact spanned_addWith (fun t ht => ht.1) (mergeClosed_plainWithin (plainWithin_joinWithin _))
    (TyUnion.wellFormed_iff.1 hms.1).2.length_le hd.2 ⟨ht, Nat.le_max_right _ _⟩ hc

theorem spanned_foldl {ms ts : List Ty} {c : Constant} (hms : TyUnion.Plain ⟨ms⟩)
    (hts : ∀ t ∈ ts, t.Plain) (hc : Described (ts.foldl addMember ms) c) :
    ts.foldl addMember ms = [.mixed] ∨ Spanned (Described (ms ++ ts)) c := by
  induction ts generalizing ms with
  | nil => exact .inr (.of (by simpa using hc))
  | cons t ts ih =>
    obtain ⟨ht, hts⟩ := List.forall_mem_cons.1 hts
    rw [List.foldl_cons] at hc ⊢
    by_cases hfull : addMember ms t = [.mixed]
    · rw [hfull, foldl_addMember_mixed]
      exact .inl rfl
    refine (ih (grows_addMember ms t hms ht).2 hts hc).imp_right fun hc => ?_
    refine hc.bind fun c ⟨x, hx, hcx⟩ => ?_
    rcases List.mem_append.1 hx with hx | hx
    · refine ((spanned_addMember hms ht ⟨x, hx, hcx⟩).resolve_left hfull).mono ?_
      rintro c ⟨y, hy, hcy⟩
      refine ⟨y, ?_, hcy⟩
      rcases List.mem_cons.1 hy with rfl | hy
      · simp
      · exact List.mem_append_left _ hy
    · exact .of ⟨x, by simp [hx], hcx⟩

/-- What two unions describe. -/
def TyUnion.Either (u v : TyUnion) (c : Constant) : Prop :=
  u.Describes .flat c ∨ v.Describes .flat c

/-- A join describes what the values of both sides span, if it describes not all. -/
theorem TyUnion.Plain.describes_union_iff {u v : TyUnion} {c : Constant} (hu : u.Plain)
    (hv : v.Plain) :
    (u.union v).Describes .flat c ↔ (u.union v).isMixed = true ∨ Spanned (u.Either v) c := by
  obtain ⟨us⟩ := u
  have hmembers : (TyUnion.union ⟨us⟩ v).members = v.members.foldl addMember us := by
    rw [TyUnion.union, members_foldl_add]
  constructor
  · intro hc
    rw [TyUnion.Describes, hmembers] at hc
    rw [isMixed_iff, hmembers]
    refine (spanned_foldl hu hv.mem hc).imp_right fun hc => hc.mono fun c hc => ?_
    obtain ⟨x, hx, hcx⟩ := hc
    exact (List.mem_append.1 hx).imp (fun h => ⟨x, h, hcx⟩) fun h => ⟨x, h, hcx⟩
  · rintro (hm | hc)
    · exact describes_of_isMixed c hm
    refine (hu.union hv).describes_of_spanned (hc.mono fun c hc => ?_)
    have hacc : ∃ e ∈ v.members.foldl addMember us, c.toTy.matches .flat e = true := by
      refine accepted_foldl (I := fun ms => TyUnion.Plain ⟨ms⟩) (K := Ty.Plain)
        (fun ms t hms ht => ?_) hu hv.mem ?_
      · obtain ⟨hg, hp⟩ := grows_addMember ms t hms ht
        exact ⟨hp, hg.scalar (Ty.isScalar_of_isData c.isData_toTy)⟩
      · rcases hc with ⟨x, hx, hcx⟩ | ⟨x, hx, hcx⟩
        · exact ⟨x, List.mem_append_left _ hx, hcx⟩
        · exact ⟨x, List.mem_append_right _ hx, hcx⟩
    rwa [TyUnion.Describes, hmembers]

/-! ### Order does not matter -/

theorem Ty.family?_same {a b : Ty} (hab : a.same b = true) : a.family? = b.family? := by
  induction a using Ty.induct generalizing b with
  | leaf a hm ho hf =>
    by_cases hx : ∃ x, a = .float x
    · obtain ⟨x, rfl⟩ := hx
      obtain ⟨y, rfl, -⟩ := Ty.float_same_iff.1 hab
      rfl
    · rw [(Ty.leaf_same_iff hm ho hf (not_exists.1 hx)).1 hab]
  | map u _ =>
    obtain ⟨v, rfl, -⟩ := Ty.map_same_iff.1 hab
    rfl
  | list u _ =>
    obtain ⟨v, rfl, -⟩ := Ty.list_same_iff.1 hab
    rfl
  | function f _ _ =>
    obtain ⟨g, rfl, -⟩ := Ty.function_same_iff.1 hab
    rfl
  | optional c s ih =>
    obtain ⟨d, rfl, hcd⟩ := Ty.optional_same_iff.1 hab
    exact (ih hcd : c.family? = d.family?)

theorem Ty.functionFree_of_same {a b : Ty} (hab : a.same b = true) (hb : b.functionFree = true) :
    a.functionFree = true := by
  have hmembers : ∀ {u v : TyUnion}, (∀ t ∈ u.members, ∀ {b : Ty}, t.same b = true →
      b.functionFree = true → t.functionFree = true) → u.same v = true →
        v.functionFree = true → u.functionFree = true := by
    intro u v ih huv hv
    refine TyUnion.functionFree_iff.2 fun t ht => ?_
    obtain ⟨t', ht', htt'⟩ := (TyUnion.same_iff.1 huv).2 t ht
    exact ih t ht htt' (TyUnion.functionFree_iff.1 hv t' ht')
  induction a using Ty.induct generalizing b with
  | leaf a hm ho hf =>
    cases a with
    | map | list => cases hm
    | function f => exact absurd rfl (hf f)
    | optional => cases ho
    | _ => rfl
  | map u ih =>
    obtain ⟨v, rfl, huv⟩ := Ty.map_same_iff.1 hab
    rw [Ty.functionFree] at hb ⊢
    exact hmembers (fun t ht _ => ih t ht) huv hb
  | list u ih =>
    obtain ⟨v, rfl, huv⟩ := Ty.list_same_iff.1 hab
    rw [Ty.functionFree] at hb ⊢
    exact hmembers (fun t ht _ => ih t ht) huv hb
  | function f _ _ =>
    obtain ⟨g, rfl, -⟩ := Ty.function_same_iff.1 hab
    cases hb
  | optional c s ih =>
    obtain ⟨d, rfl, hcd⟩ := Ty.optional_same_iff.1 hab
    rw [Ty.functionFree] at hb ⊢
    exact ih hcd hb

theorem TyUnion.Plain.of_same {u w : TyUnion} (hu : u.Plain) (hw : w.WellFormed)
    (huw : u.same w = true) : w.Plain := by
  refine ⟨hw, functionFree_iff.2 fun t ht => ?_⟩
  obtain ⟨t', ht', htt'⟩ := ((hu.1.same_iff_forall hw).1 huw).2 t ht
  exact Ty.functionFree_of_same htt' (functionFree_iff.1 hu.2 t' ht')

/-- Equal unions describe the same values. -/
theorem TyUnion.Plain.describes_of_same {u w : TyUnion} {c : Constant} (hu : u.Plain)
    (hw : w.Plain) (huw : u.same w = true) (hc : u.Describes .flat c) : w.Describes .flat c := by
  obtain ⟨m, hm, hcm⟩ := hc
  obtain ⟨n, hn, hmn⟩ := ((hu.1.same_iff_forall hw.1).1 huw).1 m hm
  refine ⟨n, hn, ?_⟩
  by_cases hmix : m.isMixed = true
  · cases m <;> simp only [Ty.isMixed, Bool.false_eq_true] at hmix
    cases n <;> simp only [Ty.same, Bool.false_eq_true] at hmn
    exact Ty.matches_mixed _
  obtain ⟨p, hp, hdata, hcp⟩ := Constant.exists_data_part (hu.mem m hm) (by simpa using hmix) hcm
  exact Ty.data_trans c.isData_toTy hdata (hw.mem n hn) hcp
    (Ty.part_matches ((hu.1.mem m hm).alike hmn).le hp)

theorem TyUnion.Plain.families_same {u w : TyUnion} (hu : u.Plain) (hw : w.Plain)
    (huw : u.same w = true) : families u.members = families w.members := by
  obtain ⟨hle, hge⟩ := (hu.1.same_iff_forall hw.1).1 huw
  ext f
  rw [mem_families, mem_families]
  constructor
  · rintro ⟨t, ht, hf⟩
    obtain ⟨t', ht', htt'⟩ := hle t ht
    exact ⟨t', ht', Ty.family?_same htt' ▸ hf⟩
  · rintro ⟨t, ht, hf⟩
    obtain ⟨t', ht', htt'⟩ := hge t ht
    exact ⟨t', ht', Ty.family?_same htt' ▸ hf⟩

theorem TyUnion.Plain.isMixed_same {u w : TyUnion} (hu : u.Plain) (hw : w.Plain)
    (huw : u.same w = true) (hm : u.isMixed = true) : w.isMixed = true := by
  obtain ⟨t, ht, hmt⟩ := ((hu.1.same_iff_forall hw.1).1 huw).1 .mixed (by simp [isMixed_iff.1 hm])
  cases t <;> simp only [Ty.same, Bool.false_eq_true] at hmt
  exact isMixed_iff.2 ((wellFormed_iff.1 hw.1).2.mixed_alone ht)

/-- A join of unions without functions describes the same values in either order, and
whatever the order of the members. -/
theorem TyUnion.Reachable.describes_union_comm {u v : TyUnion} (hu : u.Reachable) (hv : v.Reachable)
    (hfu : u.functionFree = true) (hfv : v.functionFree = true) :
    (∀ c, (u.union v).Describes .flat c ↔ (v.union u).Describes .flat c) ∧
      ∀ w : TyUnion, w.Reachable → u.same w = true →
        ∀ c, (u.union v).Describes .flat c ↔ (w.union v).Describes .flat c := by
  have hpu : u.Plain := ⟨hu.wellFormed, hfu⟩
  have hpv : v.Plain := ⟨hv.wellFormed, hfv⟩
  refine ⟨fun c => ?_, fun w hw huw c => ?_⟩
  · rw [hpu.describes_union_iff hpv, hpv.describes_union_iff hpu, isMixed_union_iff hpu hpv,
      isMixed_union_iff hpv hpu, Finset.union_comm, or_left_comm]
    exact or_congr_right ⟨fun hc => hc.mono fun _ => Or.symm, fun hc => hc.mono fun _ => Or.symm⟩
  · have hpw := hpu.of_same hw.wellFormed huw
    have hwu := hpu.1.same_symm huw
    have hmixed : u.isMixed = true ↔ w.isMixed = true :=
      ⟨hpu.isMixed_same hpw huw, hpw.isMixed_same hpu hwu⟩
    rw [hpu.describes_union_iff hpv, hpw.describes_union_iff hpv, isMixed_union_iff hpu hpv,
      isMixed_union_iff hpw hpv, hpu.families_same hpw huw, hmixed]
    refine or_congr_right ⟨fun hc => hc.mono fun c => ?_, fun hc => hc.mono fun c => ?_⟩
    · exact Or.imp_left (hpu.describes_of_same hpw huw)
    · exact Or.imp_left (hpw.describes_of_same hpu hwu)

/-- A union of two types of different families. -/
theorem TyUnion.members_pair {a b : Ty} {f g : Family} (ha : a.Telling) (hb : b.Telling)
    (hf : a.family? = some f) (hg : b.family? = some g) (hfg : f ≠ g) :
    ((of a).add b).members = [a, b] := by
  have hv : ∀ {t : Ty} {f : Family}, t.family? = some f → t ≠ .void := by
    rintro t f hf rfl
    cases hf
  have hx : ∀ {t : Ty}, t.Telling → t ≠ .mixed := by
    rintro t ht rfl
    cases ht.isMixed
  have hof : of a = ⟨[a]⟩ := by
    rw [← TyUnion.eta (of a), members_of (hv hf)]
  rw [hof, add, addWith_eq_append (hv hg) (hx hb) (by simpa using hx ha) ?_ (by simp [maxMembers])]
  · rfl
  · intro m hm
    rw [List.mem_singleton.1 hm]
    exact (Ty.combineWith_eq_none_iff _).2 (ha.combine?_eq_none hb hf hg hfg)

/-- A number or nothing, or a text, in two orders, and `false`, a floating point number or
another text. -/
theorem TyUnion.describes_union_comm_refined :
    let number := (Ty.int (some 1)).makeOptional .null
    let u := (of number).add (.string (some "a"))
    let w := (of (.string (some "a"))).add number
    let v := (of ((Ty.float (some ⟨0x3ff0000000000000⟩)).makeOptional .false)).add
      (.string (some "b"))
    u.same w = true ∧ (∀ c, (u.union v).Describes .flat c ↔ (v.union u).Describes .flat c) ∧
      ∀ c, (u.union v).Describes .flat c ↔ (w.union v).Describes .flat c := by
  intro number u w v
  have hnumber : number.Reachable := .optional (.int _) _
  have hfloat : ((Ty.float (some ⟨0x3ff0000000000000⟩)).makeOptional .false).Reachable :=
    .optional (.float (by rintro d ⟨⟩; decide)) _
  have htell : ∀ {t : Ty}, t.Reachable → t.functionFree = true → t.isMixed = false → t.Telling :=
    fun ht hf hm => ⟨⟨ht.wellFormed, hf⟩, hm⟩
  have htext := fun x : Option String => htell (.string x) rfl rfl
  have hfn : Family.number ≠ .text := by decide
  have hum : u.members = [number, .string (some "a")] :=
    members_pair (htell hnumber rfl rfl) (htext _) rfl rfl hfn
  have hwm : w.members = [.string (some "a"), number] :=
    members_pair (htext _) (htell hnumber rfl rfl) rfl rfl hfn.symm
  have hvm : v.members = _ := members_pair (htell hfloat rfl rfl) (htext _) rfl rfl hfn
  have hu : u.Reachable := .add (.add .empty hnumber) (.string _)
  have hw : w.Reachable := .add (.add .empty (.string _)) hnumber
  have hv : v.Reachable := .add (.add .empty hfloat) (.string _)
  have huw : u.same w = true := by
    rw [same_iff, hum, hwm]
    exact ⟨rfl, by decide⟩
  have hfree : ∀ {x : TyUnion} {ts : List Ty}, x.members = ts → allFunctionFree ts = true →
      x.functionFree = true := by
    rintro ⟨ms⟩ ts rfl h
    exact h
  obtain ⟨hcomm, hsame⟩ := TyUnion.Reachable.describes_union_comm hu hv (hfree hum (by decide))
    (hfree hvm (by decide))
  exact ⟨huw, hcomm, hsame w hw huw⟩

end PhpCheck
