import PhpCheck.Proofs.Types.Filtering
import PhpCheck.Proofs.Types.Truth
import PhpCheck.Scope.Narrowing

/-!
Which values a test of a variable loses.

A test splits the type of a variable in two, and every value that the type describes
should be described by one of the outcomes.  It is, except where optional types are
concerned.  Taken as true, an optional type is the true part of its content, and
taken as false, it is its sentinels: false values of the content are in neither.
Tested for a type, an optional type passes or fails as a whole, but what is left of
it when it fails is decided for its content and each sentinel apart.

`Narrowing.Drops` says which values an alternative drops that way, and
`Env.narrow_loses_iff` that a value is lost exactly when all alternatives that
describe it drop it and both outcomes say something.
-/

namespace PhpCheck

/-! ### Alternatives that drop a value -/

/-- Whether neither outcome of a test has a value that an alternative describes.  Only
optional types drop values.  Tested for truth, they drop false values of their content,
if the content is `bool` or refined.  Tested for a type to which they do not compare as
a whole, they drop what the type accepts of them. -/
def Narrowing.Drops (h : Hierarchy) (test : Narrowing) (c : Constant) : Ty → Prop
  | .optional content s =>
    match test with
    | .truthy =>
      c.isTruthy = false ∧ c.toTy ∉ s.types ∧ (content = .bool none ∨ content.value?.isSome = true)
    | .is target =>
      (∀ b ∈ target.members, (Ty.optional content s).matches h b = false ∧
        b.matches h (.optional content s) = false) ∧
      ∀ p ∈ content :: s.types, c.toTy.matches h p = true →
        ∃ b ∈ target.members, p.matches h b = true
    | _ => False
  | _ => False

theorem Narrowing.not_drops {h : Hierarchy} {test : Narrowing} {c : Constant} {t : Ty}
    (ho : t.isOptional = false) : ¬ test.Drops h c t := by
  cases t <;> simp_all [Narrowing.Drops, Ty.isOptional]

/-- Where nothing is dropped, a value is among the true or the false ones. -/
theorem Constant.exists_truthy_or_falsy {h : Hierarchy} {c : Constant} {t : Ty} (ht : t.Plain)
    (hct : c.toTy.matches .flat t = true) (hd : ¬ Narrowing.truthy.Drops h c t) :
    ∃ r, (t.truthy? = some r ∨ t.falsy? = some r) ∧ c.toTy.matches .flat r = true := by
  cases t with
  | optional d s =>
    obtain ⟨hdp, -, hdo⟩ := Ty.wellFormed_optional.1 ht.1
    obtain ⟨f, hf⟩ : ∃ f, (Ty.optional d s).falsy? = some f := by
      cases s <;> exact ⟨_, rfl⟩
    by_cases hs : c.toTy ∈ s.types
    · exact ⟨f, .inr hf, (matches_falsy?_optional hf).2 hs⟩
    · have hcd := (matches_optional_iff.1 hct).resolve_left hs
      rcases truthy_or_falsy hdo ht.content.2 hcd with ⟨r, hr, hcr⟩ | ⟨-, hfalse, href⟩
      · exact ⟨r, .inl (by simpa [Ty.truthy?] using hr), hcr⟩
      · exact absurd ⟨hfalse, hs, href⟩ hd
  | _ =>
    rcases truthy_or_falsy rfl ht.2 hct with ⟨r, hr, hcr⟩ | ⟨⟨r, hr, hcr⟩, -⟩
    · exact ⟨r, .inl hr, hcr⟩
    · exact ⟨r, .inr hr, hcr⟩

theorem Constant.not_drops_of_truthy_or_falsy {h : Hierarchy} {c : Constant} {t r : Ty}
    (hr : t.truthy? = some r ∨ t.falsy? = some r) (hcr : c.toTy.matches .flat r = true) :
    c.toTy.matches .flat t = true ∧ ¬ Narrowing.truthy.Drops h c t := by
  refine ⟨hr.elim (fun hr => matches_of_truthy? hr hcr) fun hr => matches_of_falsy? hr hcr, ?_⟩
  cases t with
  | optional d s =>
    rintro ⟨hfalse, hs, href⟩
    rcases hr with hr | hr
    · rw [isTruthy_of_truthy? href (by simpa [Ty.truthy?] using hr) hcr] at hfalse
      cases hfalse
    · exact hs ((matches_falsy?_optional hr).1 hcr)
  | _ => exact Narrowing.not_drops rfl

/-! ### Testing for a type -/

section

variable {h : Hierarchy} {b t r : Ty} {c : Constant}

/-- Where nothing is dropped, a value is in what passes or in what is left. -/
theorem Constant.exists_passing_or_remainder {target : TyUnion} (hb : target.members = [b])
    (ht : t.Plain) (hbp : b.Plain) (hm : t.isMixed = false)
    (hct : c.toTy.matches h t = true) (hd : ¬ (Narrowing.is target).Drops h c t) :
    ∃ r, (r ∈ passing h b t ∨ r ∈ TyUnion.remainder h [b] t) ∧ c.toTy.matches h r = true := by
  by_cases htb : t.matches h b = true
  · exact ⟨t, .inl (mem_passing.2 (.inl ⟨htb, rfl⟩)), hct⟩
  have htb : t.matches h b = false := by simpa using htb
  by_cases hleft : ∃ p ∈ t.parts, c.toTy.matches h p = true ∧ p.matches h b = false
  · obtain ⟨p, hp, hcp, hpb⟩ := hleft
    exact ⟨p, .inr (mem_remainder.2 ⟨hp, by simpa using hpb⟩), hcp⟩
  have hall : ∀ p ∈ t.parts, c.toTy.matches h p = true → p.matches h b = true := by
    intro p hp hcp
    rw [← Bool.not_eq_false]
    exact fun hpb => hleft ⟨p, hp, hcp, hpb⟩
  by_cases hbt : b.matches h t = true
  · obtain ⟨p, hp, hpd, hcp⟩ := exists_data_part ht hm hct
    exact ⟨b, .inl (mem_passing.2 (.inr ⟨htb, hbt, rfl⟩)),
      Ty.data_trans c.isData_toTy hpd hbp hcp (hall p hp hcp)⟩
  · refine absurd ?_ hd
    cases t with
    | optional d s =>
      refine ⟨?_, fun p hp hcp => ⟨b, by simp [hb], hall p hp hcp⟩⟩
      rw [hb]
      simpa using ⟨htb, by simpa using hbt⟩
    | _ => exact absurd (hall _ (List.mem_singleton_self _) hct) (by simp [htb])

theorem Constant.not_drops_of_passing_or_remainder {target : TyUnion} (hb : target.members = [b])
    (ht : t.Plain) (hbp : b.Plain) (hbm : b.isMixed = false)
    (hr : r ∈ passing h b t ∨ r ∈ TyUnion.remainder h [b] t) (hcr : c.toTy.matches h r = true) :
    c.toTy.matches h t = true ∧ ¬ (Narrowing.is target).Drops h c t := by
  have hdrops : ∀ {d : Ty} {s : Sentinel}, t = .optional d s → (Narrowing.is target).Drops h c t →
      t.matches h b = false ∧ b.matches h t = false ∧
        ∀ p ∈ t.parts, c.toTy.matches h p = true → p.matches h b = true := by
    rintro d s rfl ⟨hcmp, hall⟩
    obtain ⟨htb, hbt⟩ := hcmp b (by simp [hb])
    refine ⟨htb, hbt, fun p hp hcp => ?_⟩
    simpa [hb] using hall p hp hcp
  have hopt : (Narrowing.is target).Drops h c t → ∃ d s, t = .optional d s := by
    intro hd
    cases t with
    | optional d s => exact ⟨d, s, rfl⟩
    | _ => exact absurd hd (Narrowing.not_drops rfl)
  rcases hr with hr | hr
  · rcases mem_passing.1 hr with ⟨htb, rfl⟩ | ⟨-, hbt, rfl⟩
    · refine ⟨hcr, fun hd => ?_⟩
      obtain ⟨d, s, he⟩ := hopt hd
      rw [(hdrops he hd).1] at htb
      cases htb
    · obtain ⟨q, hq, hqd, hcq⟩ := exists_data_part hbp hbm hcr
      refine ⟨Ty.data_trans c.isData_toTy hqd ht hcq (Ty.part_matches hbt hq), fun hd => ?_⟩
      obtain ⟨d, s, he⟩ := hopt hd
      rw [(hdrops he hd).2.1] at hbt
      cases hbt
  · obtain ⟨hp, hpb⟩ := mem_remainder.1 hr
    refine ⟨(Ty.matches_iff_parts c.isAtom_toTy).2 ⟨r, hp, hcr⟩, fun hd => ?_⟩
    obtain ⟨d, s, he⟩ := hopt hd
    have hrb := (hdrops he hd).2.2 r hp hcr
    rw [hpb b (List.mem_singleton_self b)] at hrb
    cases hrb

end

/-! ### Taking a falsy value away -/

namespace TyUnion

/-- The type of the value alone. -/
def Falsy.ty : Falsy → Ty
  | .null => .null
  | .false => .bool (some Bool.false)

/-- Whether a type shows that it has the value. -/
def Falsy.isIn (f : Falsy) : Ty → Bool
  | .optional _ s => match f with
    | .null => s.hasNull
    | .false => s.hasFalse
  | t => f.ty.matches .flat t

theorem Falsy.isIn_optional {f : Falsy} {d : Ty} {s : Sentinel} :
    f.isIn (.optional d s) = true ↔ f.ty ∈ s.types := by
  cases f <;> cases s <;>
    simp [isIn, ty, Sentinel.types, Sentinel.hasNull, Sentinel.hasFalse]

theorem mayBeNull_of_mem {u : TyUnion} {m : Ty} (hm : m ∈ u.members)
    (hf : Falsy.null.isIn m = true) : u.mayBeNull = true := by
  rw [mayBeNull, List.any_eq_true]
  refine ⟨m, hm, ?_⟩
  cases m <;> simp_all [Falsy.isIn, Falsy.ty, Ty.matches]

theorem mayBeFalse_of_mem {u : TyUnion} {m : Ty} (hm : m ∈ u.members)
    (hf : Falsy.false.isIn m = true) : u.mayBeFalse = true := by
  rw [mayBeFalse, List.any_eq_true]
  refine ⟨m, hm, ?_⟩
  cases m with
  | bool x => rcases x with _ | _ | _ <;> simp_all [Falsy.isIn, Falsy.ty, Ty.matches, refines]
  | _ => simp_all [Falsy.isIn, Falsy.ty, Ty.matches]

theorem Falsy.plain_remove {f : Falsy} {t r : Ty} (ht : t.Plain) (hr : f.remove t = some r) :
    r.Plain := by
  refine ⟨ht.1.remove hr, ?_⟩
  have hf := ht.2
  unfold Falsy.remove at hr
  split at hr
  · cases hr
  · cases hr
    rfl
  · rename_i c s
    split at hr <;> cases hr
    · cases c <;> simp_all [Ty.makeOptional, Ty.functionFree]
    · simpa [Ty.functionFree] using hf
  · split at hr
    · cases hr
    · exact Option.some.inj hr ▸ hf

/-- Taking a falsy value away leaves all others, and leaves the value in types that do
not show it. -/
theorem Falsy.remove_describes {f : Falsy} {t : Ty} {c : Constant} (ht : t.Plain)
    (hct : c.toTy.matches .flat t = true) :
    (∃ r, f.remove t = some r ∧ c.toTy.matches .flat r = true) ∨
      (c.toTy = f.ty ∧ f.isIn t = true) := by
  cases t with
  | optional d s =>
    by_cases hcd : c.toTy.matches .flat d = true
    · left
      rw [Falsy.remove]
      cases f.strip s with
      | none => exact ⟨d, rfl, hcd⟩
      | some s' =>
        exact ⟨_, rfl, Ty.matches_makeOptional s' (Ty.isAtom_iff.1 c.isAtom_toTy).2 hcd⟩
    · have hs := (Constant.matches_optional_iff.1 hct).resolve_right hcd
      by_cases hcf : c.toTy = f.ty
      · exact .inr ⟨hcf, Falsy.isIn_optional.2 (hcf ▸ hs)⟩
      · left
        obtain ⟨s', hstrip, hs'⟩ : ∃ s', f.strip s = some s' ∧ c.toTy ∈ s'.types := by
          cases f <;> cases s <;> simp_all [Falsy.strip, Falsy.ty, Sentinel.types]
        refine ⟨d.makeOptional s', by simp [Falsy.remove, hstrip], ?_⟩
        exact Sentinel.matches_makeOptional d hs'
  | bool x =>
    cases f with
    | null => exact .inl ⟨.bool x, rfl, hct⟩
    | false =>
      cases c <;> simp [Constant.toTy, Ty.matches, refines] at hct
      rename_i b
      cases b with
      | false => exact .inr ⟨rfl, by simpa [Falsy.isIn, Falsy.ty, Ty.matches, refines] using hct⟩
      | true =>
        refine .inl ⟨.bool (some true), by rcases hct with rfl | rfl <;> rfl, ?_⟩
        simp [Constant.toTy, Ty.matches, refines]
  | null =>
    cases f with
    | null =>
      cases c <;> simp [Constant.toTy, Ty.matches] at hct
      exact .inr ⟨rfl, by simp [Falsy.isIn, Falsy.ty, Ty.matches]⟩
    | false => exact .inl ⟨.null, rfl, hct⟩
  | mixed | int x | float x | string x => exact .inl ⟨_, by cases f <;> rfl, hct⟩
  | function f => exact absurd rfl (Ty.ne_function ht.2 f)
  | void | resource | map | list | classOf | object =>
    cases c <;> simp [Constant.toTy, Ty.matches] at hct

end TyUnion

/-! ### Both outcomes together -/

theorem TyUnion.describes_orElse {h : Hierarchy} {u v : TyUnion} {c : Constant}
    (hv : v.Describes h c) (hu : u.isEmpty = true ∨ u.Describes h c) :
    (u.orElse v).Describes h c := by
  rw [TyUnion.orElse]
  split
  · exact hv
  · rename_i he
    exact hu.resolve_left he

section

variable {h : Hierarchy} {u : TyUnion} {c : Constant}

theorem TyUnion.Plain.describes_without {f : TyUnion.Falsy} {m : Ty} (hu : u.Plain)
    (hm : m ∈ u.members) (hcm : c.toTy.matches h m = true) :
    (u.without f).Describes h c ∨ (c.toTy = f.ty ∧ f.isIn m = true) := by
  rw [c.matches_eq] at hcm
  refine (TyUnion.Falsy.remove_describes (f := f) (hu.mem m hm) hcm).imp_left ?_
  rintro ⟨r, hr, hcr⟩
  rw [← c.matches_eq h] at hcr
  refine TyUnion.describes_ofList (fun t ht => ?_) ⟨r, List.mem_filterMap.2 ⟨m, hm, hr⟩, hcr⟩
  obtain ⟨x, hx, hxt⟩ := List.mem_filterMap.1 ht
  exact TyUnion.Falsy.plain_remove (hu.mem x hx) hxt

theorem TyUnion.describes_onlyIf {f : TyUnion.Falsy} (hc : c.toTy = f.ty) :
    (TyUnion.onlyIf true f.ty).Describes h c := by
  have hv : f.ty ≠ .void := by cases f <;> simp [TyUnion.Falsy.ty]
  refine ⟨f.ty, by simp [TyUnion.onlyIf, TyUnion.members_of hv], ?_⟩
  rw [hc]
  cases f <;> simp [TyUnion.Falsy.ty, Ty.matches, refines]

theorem TyUnion.Plain.isMixed_eq_false {m : Ty} (hu : u.Plain) (hm : m ∈ u.members)
    (hn : u.isMixed = false) : m.isMixed = false := by
  refine (TyUnion.wellFormed_iff.1 hu.1).2.isMixed_eq_false (fun he => ?_) hm
  rw [TyUnion.isMixed_iff.2 he] at hn
  cases hn

/-- A test for types is about one type, and not about functions. -/
def Narrowing.Simple : Narrowing → Prop
  | .is target => target.Plain ∧ ∃ b, target.members = [b]
  | _ => True

/-- A value that some alternative does not drop is in one of the outcomes. -/
theorem Narrowing.describes_split {test : Narrowing} (hu : u.Plain) (ht : test.Simple)
    (hk : ∃ m ∈ u.members, c.toTy.matches h m = true ∧ ¬ test.Drops h c m) :
    (test.split h u).1.Describes h c ∨ (test.split h u).2.Describes h c := by
  obtain ⟨m, hm, hcm, hd⟩ := hk
  have hplain := hu.mem
  cases test with
  | truthy =>
    rw [c.matches_eq] at hcm
    obtain ⟨r, hr, hcr⟩ := c.exists_truthy_or_falsy (hplain m hm) hcm hd
    rw [← c.matches_eq h] at hcr
    rcases hr with hr | hr
    · refine .inl (TyUnion.describes_ofList ?_ ⟨r, List.mem_filterMap.2 ⟨m, hm, hr⟩, hcr⟩)
      intro t ht
      obtain ⟨x, hx, hxt⟩ := List.mem_filterMap.1 ht
      exact (hplain x hx).truthy hxt
    · refine .inr (TyUnion.describes_ofList ?_ ⟨r, List.mem_filterMap.2 ⟨m, hm, hr⟩, hcr⟩)
      intro t ht
      obtain ⟨x, hx, hxt⟩ := List.mem_filterMap.1 ht
      exact (hplain x hx).falsy hxt
  | isNull =>
    rcases hu.describes_without (f := .null) hm hcm with hn | ⟨hc, hf⟩
    · exact .inr hn
    · left
      rw [Narrowing.split, TyUnion.mayBeNull_of_mem hm hf]
      exact TyUnion.describes_onlyIf hc
  | isSet =>
    rcases hu.describes_without (f := .null) hm hcm with hn | ⟨hc, hf⟩
    · exact .inl hn
    · right
      rw [Narrowing.split, TyUnion.mayBeNull_of_mem hm hf]
      exact TyUnion.describes_onlyIf hc
  | isFalse =>
    rcases hu.describes_without (f := .false) hm hcm with hn | ⟨hc, hf⟩
    · exact .inr hn
    · left
      rw [Narrowing.split, TyUnion.mayBeFalse_of_mem hm hf]
      exact TyUnion.describes_onlyIf hc
  | is target =>
    obtain ⟨htp, b, hb⟩ := ht
    have hbp : b.Plain := htp.mem b (by simp [hb])
    rw [Narrowing.split]
    by_cases hmixed : u.isMixed = true
    · rw [if_pos hmixed]
      exact .inr ⟨m, hm, hcm⟩
    rw [if_neg hmixed]
    have hmixed : u.isMixed = false := by simpa using hmixed
    by_cases htm : target.isMixed = true
    · rw [TyUnion.intersection, if_neg (by simp [hmixed]), if_pos htm]
      exact .inl ⟨m, hm, hcm⟩
    obtain ⟨r, hr, hcr⟩ := c.exists_passing_or_remainder hb (hplain m hm) hbp
      (hu.isMixed_eq_false hm hmixed) hcm hd
    rcases hr with hr | hr
    · rw [TyUnion.intersection_eq hmixed (by simpa using htm) hb]
      refine .inl (TyUnion.describes_ofList ?_ ⟨r, List.mem_flatMap.2 ⟨m, hm, hr⟩, hcr⟩)
      intro t ht
      obtain ⟨x, hx, hxt⟩ := List.mem_flatMap.1 ht
      exact plain_of_mem_passing (hplain x hx) hbp hxt
    · rw [TyUnion.difference, hb]
      refine .inr (TyUnion.describes_ofList ?_ ⟨r, List.mem_flatMap.2 ⟨m, hm, hr⟩, hcr⟩)
      intro t ht
      obtain ⟨x, hx, hxt⟩ := List.mem_flatMap.1 ht
      exact plain_of_mem_remainder (hplain x hx) hxt

theorem filterMap_eq_flatMap (g : Ty → Option Ty) (ts : List Ty) :
    ts.filterMap g = ts.flatMap fun t => (g t).toList := by
  induction ts with
  | nil => rfl
  | cons t ts ih => cases hg : g t <;> simp [hg, ih]

theorem exists_of_describes_flatMap {g : Ty → List Ty} (hu : u.Plain)
    (hplain : ∀ m ∈ u.members, ∀ r ∈ g m, r.Plain)
    (hcount : ∀ m ∈ u.members, ∀ k : Kind, k.count (g m) ≤ k.count [m])
    (hd : (TyUnion.ofList (u.members.flatMap g)).Describes h c)
    (hm : (TyUnion.ofList (u.members.flatMap g)).isMixed = false) :
    ∃ m ∈ u.members, ∃ r ∈ g m, c.toTy.matches h r = true := by
  have hsparse := (TyUnion.wellFormed_iff.1 hu.1).2.sparse.flatMap hcount
  have hall : ∀ r ∈ u.members.flatMap g, r.Plain := by
    intro r hr
    obtain ⟨m, hm, hr⟩ := List.mem_flatMap.1 hr
    exact hplain m hm r hr
  rcases TyUnion.exists_of_describes_ofList hall hsparse hd with hmixed | ⟨r, hr, hcr⟩
  · rw [hmixed] at hm
    cases hm
  · obtain ⟨m, hm, hr⟩ := List.mem_flatMap.1 hr
    exact ⟨m, hm, r, hr, hcr⟩

/-- A value in one of the outcomes is one that some alternative does not drop, unless
the outcome tells nothing. -/
theorem Narrowing.exists_of_describes_split {test : Narrowing} (hu : u.Plain) (ht : test.Simple)
    (hc : u.Describes h c)
    (hd : ((test.split h u).1.Describes h c ∧ (test.split h u).1.isMixed = false) ∨
      ((test.split h u).2.Describes h c ∧ (test.split h u).2.isMixed = false)) :
    ∃ m ∈ u.members, c.toTy.matches h m = true ∧ ¬ test.Drops h c m := by
  have hplain := hu.mem
  obtain ⟨m, hm, hcm⟩ := hc
  cases test with
  | isNull | isSet | isFalse =>
    refine ⟨m, hm, hcm, ?_⟩
    cases m <;> simp [Narrowing.Drops]
  | truthy =>
    have hlist : ∃ m ∈ u.members, ∃ r, (m.truthy? = some r ∨ m.falsy? = some r) ∧
        c.toTy.matches h r = true := by
      rcases hd with ⟨hd, hn⟩ | ⟨hd, hn⟩
      · rw [Narrowing.split, TyUnion.truthy, filterMap_eq_flatMap] at hd hn
        obtain ⟨m, hm, r, hr, hcr⟩ := exists_of_describes_flatMap hu
          (fun m hm r hr => (hplain m hm).truthy (by simpa using hr))
          (fun m hm k => Kind.count_toList fun r hr => Kind.isIn_truthy? (hplain m hm).1 hr) hd hn
        exact ⟨m, hm, r, .inl (by simpa using hr), hcr⟩
      · rw [Narrowing.split, TyUnion.falsy, filterMap_eq_flatMap] at hd hn
        obtain ⟨m, hm, r, hr, hcr⟩ := exists_of_describes_flatMap hu
          (fun m hm r hr => (hplain m hm).falsy (by simpa using hr))
          (fun m hm k => Kind.count_toList fun r hr => Kind.isIn_falsy? hr) hd hn
        exact ⟨m, hm, r, .inr (by simpa using hr), hcr⟩
    obtain ⟨m, hm, r, hr, hcr⟩ := hlist
    rw [c.matches_eq] at hcr
    obtain ⟨hcm, hdrop⟩ := Constant.not_drops_of_truthy_or_falsy (h := h) hr hcr
    exact ⟨m, hm, by rw [c.matches_eq, hcm], hdrop⟩
  | is target =>
    obtain ⟨htp, b, hb⟩ := ht
    have hbp : b.Plain := htp.mem b (by simp [hb])
    by_cases hmixed : u.isMixed = true
    · have hin : Ty.mixed ∈ u.members := by simp [TyUnion.isMixed_iff.1 hmixed]
      exact ⟨.mixed, hin, Ty.matches_mixed _, Narrowing.not_drops rfl⟩
    by_cases htm : target.isMixed = true
    · refine ⟨m, hm, hcm, fun hdrop => ?_⟩
      have hmb : Ty.mixed ∈ target.members := by simp [TyUnion.isMixed_iff.1 htm]
      cases m with
      | optional d s => simpa using (hdrop.1 .mixed hmb).1
      | _ => exact Narrowing.not_drops rfl hdrop
    rw [Narrowing.split, if_neg hmixed] at hd
    have hmixed : u.isMixed = false := by simpa using hmixed
    have htm : target.isMixed = false := by simpa using htm
    have hbm : b.isMixed = false := htp.isMixed_eq_false (by simp [hb]) htm
    have hlist : ∃ m ∈ u.members, ∃ r, (r ∈ passing h b m ∨ r ∈ TyUnion.remainder h [b] m) ∧
        c.toTy.matches h r = true := by
      rcases hd with ⟨hd, hn⟩ | ⟨hd, hn⟩
      · rw [TyUnion.intersection_eq hmixed htm hb] at hd hn
        obtain ⟨m, hm, r, hr, hcr⟩ := exists_of_describes_flatMap hu
          (fun m hm r => plain_of_mem_passing (hplain m hm) hbp)
          (fun m hm k => Kind.count_passing (hplain m hm) (hu.isMixed_eq_false hm hmixed)) hd hn
        exact ⟨m, hm, r, .inl hr, hcr⟩
      · rw [TyUnion.difference, hb] at hd hn
        obtain ⟨m, hm, r, hr, hcr⟩ := exists_of_describes_flatMap hu
          (fun m hm r => plain_of_mem_remainder (hplain m hm))
          (fun m hm k => Kind.count_remainder (hplain m hm).1) hd hn
        exact ⟨m, hm, r, .inr hr, hcr⟩
    obtain ⟨m, hm, r, hr, hcr⟩ := hlist
    exact ⟨m, hm, Constant.not_drops_of_passing_or_remainder hb (hplain m hm) hbp hbm hr hcr⟩

/-- Both outcomes of a test say something, and every alternative that describes a value
drops it. -/
def Narrowing.Loses (h : Hierarchy) (test : Narrowing) (u : TyUnion) (c : Constant) : Prop :=
  (test.split h u).1.isUnknown = false ∧ (test.split h u).2.isUnknown = false ∧
    ∀ m ∈ u.members, c.toTy.matches h m = true → test.Drops h c m

theorem TyUnion.isUnknown_eq_false {v : TyUnion} :
    v.isUnknown = false ↔ v.isEmpty = false ∧ v.isMixed = false := by
  rw [TyUnion.isUnknown, Bool.or_eq_false_iff]

theorem TyUnion.isUnknown_of {t : Ty} (hv : t ≠ .void) (hm : t ≠ .mixed) :
    (of t).isUnknown = false := by
  have hmixed : ¬ (of t).isMixed = true := by
    rw [isMixed_iff, members_of hv]
    simpa using hm
  rw [isUnknown_eq_false, isEmpty, members_of hv]
  exact ⟨rfl, by simpa using hmixed⟩

theorem Narrowing.loses_iff {test : Narrowing} (hu : u.Plain) (ht : test.Simple)
    (hc : u.Describes h c) :
    (¬ ((test.split h u).1.orElse u).Describes h c ∧
      ¬ ((test.split h u).2.orElse u).Describes h c) ↔ test.Loses h u c := by
  constructor
  · rintro ⟨hyes, hno⟩
    have hunknown : ∀ v : TyUnion, ¬ (v.orElse u).Describes h c → v.isUnknown = false := by
      intro v hv
      rw [Bool.eq_false_iff, ne_eq, TyUnion.isUnknown, Bool.or_eq_true]
      rintro (he | hm)
      · exact hv (TyUnion.describes_orElse hc (.inl he))
      · exact hv (TyUnion.describes_orElse hc (.inr (TyUnion.describes_of_isMixed c hm)))
    refine ⟨hunknown _ hyes, hunknown _ hno, fun m hm hcm => ?_⟩
    refine Classical.byContradiction fun hd => ?_
    rcases Narrowing.describes_split hu ht ⟨m, hm, hcm, hd⟩ with h' | h'
    · exact hyes (TyUnion.describes_orElse hc (.inr h'))
    · exact hno (TyUnion.describes_orElse hc (.inr h'))
  · rintro ⟨hyes, hno, hdrops⟩
    rw [TyUnion.isUnknown_eq_false] at hyes hno
    have hlost : ∀ v : TyUnion, v.isEmpty = false →
        (v.Describes h c → ∃ m ∈ u.members, c.toTy.matches h m = true ∧ ¬ test.Drops h c m) →
        ¬ (v.orElse u).Describes h c := by
      intro v he hv hd
      rw [TyUnion.orElse, he, if_neg (by simp)] at hd
      obtain ⟨m, hm, hcm, hk⟩ := hv hd
      exact hk (hdrops m hm hcm)
    exact ⟨hlost _ hyes.1 fun hd => exists_of_describes_split hu ht hc (.inl ⟨hd, hyes.2⟩),
      hlost _ hno.1 fun hd => exists_of_describes_split hu ht hc (.inr ⟨hd, hno.2⟩)⟩

end

/-- A test of a variable loses a value of it exactly when both outcomes say something and
every alternative that describes the value drops it.  In particular, tests for null,
for `false` and for being set lose nothing. -/
theorem Env.narrow_loses_iff {h : Hierarchy} {e : Env} {name : String} {u : TyUnion}
    {test : Narrowing} {c : Constant} (hget : e.get? name = some u) (hu : u.Reachable)
    (hf : u.functionFree = true)
    (ht : ∀ target, test = .is target →
      target.Reachable ∧ target.functionFree = true ∧ target.members.length = 1)
    (hc : u.Describes h c) :
    ∃ yes no, (e.narrow h name test).yes.get? name = some yes ∧
      (e.narrow h name test).no.get? name = some no ∧
      (¬ (yes.Describes h c ∨ no.Describes h c) ↔ test.Loses h u c) := by
  have hsimple : test.Simple := by
    cases test with
    | is target =>
      obtain ⟨hr, hf, hl⟩ := ht target rfl
      exact ⟨⟨hr.wellFormed, hf⟩, List.length_eq_one_iff.1 hl⟩
    | _ => trivial
  refine ⟨(test.split h u).1.orElse u, (test.split h u).2.orElse u, ?_, ?_, ?_⟩
  · simp [Env.narrow, hget]
  · simp [Env.narrow, hget]
  · rw [not_or]
    exact Narrowing.loses_iff ⟨hu.wellFormed, hf⟩ hsimple hc

/-- Neither outcome of a test for truth has `false` of a variable that is a bool or null. -/
theorem Env.truthy_loses_false :
    let x := TyUnion.of (.optional (.bool none) .null)
    let e := Env.empty.set "x" x
    x.Describes .flat (.bool false) ∧
      ∃ yes no, (e.narrow .flat "x" .truthy).yes.get? "x" = some yes ∧
        (e.narrow .flat "x" .truthy).no.get? "x" = some no ∧
        ¬ (yes.Describes .flat (.bool false) ∨ no.Describes .flat (.bool false)) := by
  intro x e
  have hx : x.members = [.optional (.bool none) .null] := TyUnion.members_of (by simp)
  have hr : x.Reachable := .add .empty (.optional (c := .bool none) (.bool none) .null)
  have hd : x.Describes .flat (.bool false) := by
    refine ⟨_, by rw [hx]; exact List.mem_singleton_self _, ?_⟩
    simp [Constant.toTy, Ty.matches, refines]
  have hyes : (Narrowing.truthy.split .flat x).1 = .of (.bool (some true)) := by
    rw [Narrowing.split, TyUnion.truthy, hx]
    rfl
  have hno : (Narrowing.truthy.split .flat x).2 = .of .null := by
    rw [Narrowing.split, TyUnion.falsy, hx]
    rfl
  have hloses : Narrowing.truthy.Loses .flat x (.bool false) := by
    rw [Narrowing.Loses, hyes, hno]
    refine ⟨TyUnion.isUnknown_of (by simp) (by simp), TyUnion.isUnknown_of (by simp) (by simp), ?_⟩
    intro m hm _
    rw [hx, List.mem_singleton] at hm
    subst hm
    exact ⟨rfl, by simp [Constant.toTy, Sentinel.types], .inl rfl⟩
  have hf : x.functionFree = true := by
    rw [TyUnion.functionFree_iff, hx]
    simp [Ty.functionFree]
  obtain ⟨yes, no, hy, hn, hlost⟩ :=
    @Env.narrow_loses_iff .flat e "x" x .truthy (.bool false) rfl hr hf (by simp) hd
  exact ⟨hd, yes, no, hy, hn, hlost.2 hloses⟩

end PhpCheck
