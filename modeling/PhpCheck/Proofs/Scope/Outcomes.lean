import Mathlib.Data.List.Pairwise
import PhpCheck.Proofs.Scope.Narrowing
import PhpCheck.Proofs.Types.Capacity

/-!
What the outcomes of a test of a variable describe.

Both outcomes have the variable with values that it had before, and all other variables
as they were (`Env.narrow_within`).  A test for null or for `false` is about one value.
It is exact, except where an optional type has that value not only as its sentinel but in
its content, as `?bool` has `false`: there the test does not look
(`Env.narrow_falsy_iff`).
-/

namespace PhpCheck

section

variable {h : Hierarchy} {u : TyUnion} {c : Constant}

/-! ### Pieces of the alternatives -/

/-- What pieces of the alternatives describe together, one of them describes. -/
theorem TyUnion.Plain.exists_of_describes_pieces {g : Ty → List Ty} (hu : u.Plain)
    (hplain : ∀ m ∈ u.members, ∀ r ∈ g m, r.Plain ∧ r.isMixed = false)
    (hcount : ∀ m ∈ u.members, ∀ k : Kind, k.count (g m) ≤ k.count [m])
    (hone : ∀ m ∈ u.members, (g m).countP (!·.isSentinel) ≤ 1)
    (hd : (ofList (u.members.flatMap g)).Describes h c) :
    ∃ m ∈ u.members, ∃ r ∈ g m, c.toTy.matches h r = true :=
  exists_of_describes_flatMap hu (fun m hm r hr => (hplain m hm r hr).1) hcount hd
    (hu.1.isMixed_ofList_flatMap
      (fun m hm r hr => ⟨(hplain m hm r hr).1.1, (hplain m hm r hr).2⟩) hone)

/-- The case of at most one piece of each alternative. -/
theorem TyUnion.Plain.exists_of_describes_filterMap {g : Ty → Option Ty} (hu : u.Plain)
    (hplain : ∀ m ∈ u.members, ∀ r, g m = some r → r.Plain ∧ r.isMixed = false)
    (hkind : ∀ m ∈ u.members, ∀ r, g m = some r → ∀ k : Kind, k.isIn r = true → k.isIn m = true)
    (hd : (ofList (u.members.filterMap g)).Describes h c) :
    ∃ m ∈ u.members, ∃ r, g m = some r ∧ c.toTy.matches h r = true := by
  rw [filterMap_eq_flatMap] at hd
  obtain ⟨m, hm, r, hr, hcr⟩ := hu.exists_of_describes_pieces
    (fun m hm r hr => hplain m hm r (by simpa using hr))
    (fun m hm k => Kind.count_toList fun r hr => hkind m hm r hr k)
    (fun m _ => countP_toList_le (g m)) hd
  exact ⟨m, hm, r, by simpa using hr, hcr⟩

theorem Ty.WellFormed.isMixed_truthy {t r : Ty} (ht : t.WellFormed) (hm : t.isMixed = false)
    (hr : t.truthy? = some r) : r.isMixed = false := by
  rcases Ty.truthy?_eq_some hr with rfl | ⟨-, rfl⟩ | ⟨d, s, rfl, hd⟩
  · exact hm
  · rfl
  · obtain ⟨-, hdm, hdo⟩ := Ty.wellFormed_optional.1 ht
    rcases Ty.truthy?_eq_some hd with rfl | ⟨-, rfl⟩ | ⟨d', s', rfl, -⟩
    · exact hdm
    · rfl
    · simp [Ty.isOptional] at hdo

theorem Ty.isMixed_falsy {t r : Ty} (hm : t.isMixed = false) (hr : t.falsy? = some r) :
    r.isMixed = false := by
  unfold Ty.falsy? at hr
  split at hr <;> try split at hr
  all_goals first
    | cases hr; rfl
    | exact Option.some.inj hr ▸ hm
    | cases hr

/-! ### Taking a falsy value away -/

namespace TyUnion

/-- What is left of a type when a falsy value is taken away: the type, or `true`, or the
content of an optional type with the other sentinel or with none. -/
theorem Falsy.remove_eq_some {f : Falsy} {t r : Ty} (hr : f.remove t = some r) :
    (r = t ∧ t.isOptional = Bool.false ∧ (f.ty.matches .flat t = true → t = .mixed)) ∨
      (f = .false ∧ t = .bool none ∧ r = .bool (some true)) ∨
      ∃ d s, t = .optional d s ∧ ((f.strip s = none ∧ r = d) ∨
        ∃ s', f.strip s = some s' ∧ r = d.makeOptional s') := by
  cases t with
  | optional d s =>
    refine .inr (.inr ⟨d, s, rfl, ?_⟩)
    rw [Falsy.remove] at hr
    cases hs : f.strip s with
    | none => exact .inl ⟨rfl, by simpa [hs] using hr.symm⟩
    | some s' => exact .inr ⟨s', rfl, by simpa [hs] using hr.symm⟩
  | bool x =>
    cases f <;> rcases x with _ | _ | _ <;> simp [Falsy.remove, Falsy.key, Ty.key] at hr <;>
      subst hr <;> simp [Falsy.ty, Ty.matches, refines, Ty.isOptional]
  | classOf name | object name =>
    left
    cases f <;> simp [Falsy.remove, Falsy.key, Ty.key] at hr <;> obtain ⟨-, rfl⟩ := hr <;>
      simp [Falsy.ty, Ty.matches, Ty.isOptional]
  | _ =>
    left
    cases f <;> simp [Falsy.remove, Falsy.key, Ty.key] at hr <;> subst hr <;>
      simp [Falsy.ty, Ty.matches, Ty.isOptional]

theorem Falsy.strip_types {f : Falsy} {s s' : Sentinel} (hs : f.strip s = some s') {t : Ty}
    (ht : t ∈ s'.types) : t ∈ s.types ∧ t ≠ f.ty := by
  cases f <;> cases s <;> cases hs <;> simp_all [Sentinel.types, Falsy.ty]

theorem Falsy.eq_ty_of_strip {f : Falsy} {s : Sentinel} (hs : f.strip s = none) {t : Ty}
    (ht : t ∈ s.types) : t = f.ty := by
  cases f <;> cases s <;> cases hs <;> exact List.mem_singleton.1 ht

/-- Taking a falsy value away brings about no value. -/
theorem Falsy.matches_of_remove {f : Falsy} {t r : Ty} (hr : f.remove t = some r)
    (hcr : c.toTy.matches .flat r = true) : c.toTy.matches .flat t = true := by
  rcases Falsy.remove_eq_some hr with ⟨rfl, -, -⟩ | ⟨-, rfl, rfl⟩ |
    ⟨d, s, rfl, ⟨-, rfl⟩ | ⟨s', hs, rfl⟩⟩
  · exact hcr
  · exact Constant.matches_of_truthy? rfl hcr
  · exact Constant.matches_optional_iff.2 (.inr hcr)
  · rcases Ty.matches_of_makeOptional c.isAtom_toTy hcr with hcd | hcs
    · exact Constant.matches_optional_iff.2 (.inr hcd)
    · exact Constant.matches_optional_iff.2 (.inl (Falsy.strip_types hs hcs).1)

/-- Where the value is still there, the content of an optional type has it. -/
theorem Falsy.hidden_of_remove {f : Falsy} {t r : Ty} (hm : t.isMixed = Bool.false)
    (hc : c.toTy = f.ty) (hr : f.remove t = some r) (hcr : c.toTy.matches .flat r = true) :
    ∃ d s, t = .optional d s ∧ c.toTy.matches .flat d = true := by
  rcases Falsy.remove_eq_some hr with ⟨rfl, -, hkeep⟩ | ⟨rfl, rfl, rfl⟩ |
    ⟨d, s, rfl, ⟨-, rfl⟩ | ⟨s', hs, rfl⟩⟩
  · rw [hc] at hcr
    rw [hkeep hcr] at hm
    cases hm
  · rw [hc] at hcr
    simp [Falsy.ty, Ty.matches, refines] at hcr
  · exact ⟨r, s, rfl, hcr⟩
  · rcases Ty.matches_of_makeOptional c.isAtom_toTy hcr with hcd | hcs
    · exact ⟨d, s, rfl, hcd⟩
    · exact absurd hc (Falsy.strip_types hs hcs).2

theorem Falsy.isMixed_remove {f : Falsy} {t r : Ty} (ht : t.WellFormed)
    (hm : t.isMixed = Bool.false) (hr : f.remove t = some r) : r.isMixed = Bool.false := by
  rcases Falsy.remove_eq_some hr with ⟨rfl, -, -⟩ | ⟨-, -, rfl⟩ |
    ⟨d, s, rfl, ⟨-, rfl⟩ | ⟨s', -, rfl⟩⟩
  · exact hm
  · rfl
  · exact (Ty.wellFormed_optional.1 ht).2.1
  · obtain ⟨-, hdm, -⟩ := Ty.wellFormed_optional.1 ht
    cases d <;> simp_all [Ty.makeOptional, Ty.isMixed]

theorem Falsy.isIn_remove {f : Falsy} {t r : Ty} {k : Kind} (ht : t.WellFormed)
    (hr : f.remove t = some r) (hk : k.isIn r = true) : k.isIn t = true := by
  rcases Falsy.remove_eq_some hr with ⟨rfl, -, -⟩ | ⟨-, -, rfl⟩ |
    ⟨d, s, rfl, ⟨-, rfl⟩ | ⟨s', -, rfl⟩⟩
  · exact hk
  · cases k <;> simp [Kind.isIn, Kind.isOf, Ty.isNumeric] at hk
  · rwa [← Kind.isIn_content ht]
  · rwa [Kind.isIn_makeOptional, Kind.isIn_content ht] at hk

theorem Plain.exists_of_describes_without {f : Falsy} (hu : u.Plain)
    (hn : u.isMixed = Bool.false) (hd : (u.without f).Describes h c) :
    ∃ m ∈ u.members, ∃ r, f.remove m = some r ∧ c.toTy.matches h r = true :=
  hu.exists_of_describes_filterMap
    (fun m hm _ hr => ⟨Falsy.plain_remove (hu.mem m hm) hr,
      Falsy.isMixed_remove (hu.1.mem m hm) (hu.isMixed_eq_false hm hn) hr⟩)
    (fun m hm _ hr _ hk => Falsy.isIn_remove (hu.1.mem m hm) hr hk) hd

theorem Falsy.matches_ty_iff {f : Falsy} : c.toTy.matches .flat f.ty = true ↔ c.toTy = f.ty := by
  cases f <;> cases c <;> simp [Falsy.ty, Constant.toTy, Ty.matches, refines]

theorem describes_onlyIf_iff {f : Falsy} {possible : Bool} :
    (onlyIf possible f.ty).Describes h c ↔ possible = true ∧ c.toTy = f.ty := by
  have hv : f.ty ≠ .void := by cases f <;> simp [Falsy.ty]
  cases possible with
  | false => simp [onlyIf, Describes, empty]
  | true => simp [onlyIf, Describes, members_of hv, c.matches_eq, Falsy.matches_ty_iff]

/-- Whether the value is looked for with success. -/
def mayBe (u : TyUnion) : Falsy → Bool
  | .null => u.mayBeNull
  | .false => u.mayBeFalse

theorem mayBe_of_mem {f : Falsy} {m : Ty} (hm : m ∈ u.members) (hf : f.isIn m = true) :
    u.mayBe f = true := by
  cases f with
  | null => exact mayBeNull_of_mem hm hf
  | false => exact mayBeFalse_of_mem hm hf

theorem describes_of_mayBe {f : Falsy} (hf : u.mayBe f = true) (hc : c.toTy = f.ty) :
    u.Describes h c := by
  obtain ⟨m, hm, hmf⟩ : ∃ m ∈ u.members, f.isIn m = true := by
    cases f with
    | null =>
      obtain ⟨m, hm, hmn⟩ := List.any_eq_true.1 hf
      exact ⟨m, hm, by cases m <;> simp_all [Falsy.isIn, Falsy.ty, Ty.matches]⟩
    | false =>
      obtain ⟨m, hm, hmn⟩ := List.any_eq_true.1 hf
      refine ⟨m, hm, ?_⟩
      cases m with
      | bool x => rcases x with _ | _ | _ <;> simp_all [Falsy.isIn, Falsy.ty, Ty.matches, refines]
      | _ => simp_all [Falsy.isIn, Falsy.ty]
  refine ⟨m, hm, ?_⟩
  rw [c.matches_eq]
  cases m with
  | optional d s =>
    rw [Constant.matches_optional_iff, hc]
    exact .inl (Falsy.isIn_optional.1 hmf)
  | _ =>
    rw [hc]
    exact hmf

end TyUnion

/-! ### No value is gained -/

theorem TyUnion.Plain.describes_of_without {f : TyUnion.Falsy} (hu : u.Plain)
    (hn : u.isMixed = false) (hd : (u.without f).Describes h c) : u.Describes h c := by
  obtain ⟨m, hm, r, hr, hcr⟩ := hu.exists_of_describes_without hn hd
  rw [c.matches_eq] at hcr
  exact ⟨m, hm, by rw [c.matches_eq, TyUnion.Falsy.matches_of_remove hr hcr]⟩

theorem TyUnion.describes_of_onlyIf_mayBe {f : TyUnion.Falsy}
    (hd : (onlyIf (u.mayBe f) f.ty).Describes h c) : u.Describes h c :=
  have ⟨hp, hc⟩ := describes_onlyIf_iff.1 hd
  describes_of_mayBe hp hc

theorem TyUnion.Plain.describes_of_truthy (hu : u.Plain) (hn : u.isMixed = false)
    (hd : u.truthy.Describes h c) : u.Describes h c := by
  have hnm : ∀ m ∈ u.members, m.isMixed = false := fun m hm => hu.isMixed_eq_false hm hn
  obtain ⟨m, hm, r, hr, hcr⟩ := hu.exists_of_describes_filterMap
    (fun m hm _ hr => ⟨(hu.mem m hm).truthy hr, (hu.mem m hm).1.isMixed_truthy (hnm m hm) hr⟩)
    (fun m hm _ hr _ hk => Kind.isIn_truthy? (hu.mem m hm).1 hr hk) hd
  rw [c.matches_eq] at hcr
  exact ⟨m, hm, by rw [c.matches_eq, Constant.matches_of_truthy? hr hcr]⟩

theorem TyUnion.Plain.describes_of_falsy (hu : u.Plain) (hn : u.isMixed = false)
    (hd : u.falsy.Describes h c) : u.Describes h c := by
  have hnm : ∀ m ∈ u.members, m.isMixed = false := fun m hm => hu.isMixed_eq_false hm hn
  obtain ⟨m, hm, r, hr, hcr⟩ := hu.exists_of_describes_filterMap
    (fun m hm _ hr => ⟨(hu.mem m hm).falsy hr, Ty.isMixed_falsy (hnm m hm) hr⟩)
    (fun m hm _ hr _ hk => Kind.isIn_falsy? hr hk) hd
  rw [c.matches_eq] at hcr
  exact ⟨m, hm, by rw [c.matches_eq, Constant.matches_of_falsy? hr hcr]⟩

section

variable {target : TyUnion} {b : Ty}

theorem TyUnion.Plain.describes_of_intersection (hu : u.Plain) (hn : u.isMixed = false)
    (ht : target.Plain) (hb : target.members = [b])
    (hd : (u.intersection h target).Describes h c) : u.Describes h c := by
  have hbp : b.Plain := ht.mem b (by simp [hb])
  have hnm : ∀ m ∈ u.members, m.isMixed = false := fun m hm => hu.isMixed_eq_false hm hn
  cases htm : target.isMixed with
  | true => simpa [intersection, hn, htm] using hd
  | false =>
    have hbm : b.isMixed = false := ht.isMixed_eq_false (by simp [hb]) htm
    rw [intersection_eq hn htm hb] at hd
    have hpass : ∀ m ∈ u.members, ∀ r ∈ passing h b m, r.Plain ∧ r.isMixed = false := by
      intro m hm r hr
      refine ⟨plain_of_mem_passing (hu.mem m hm) hbp hr, ?_⟩
      rcases mem_passing.1 hr with ⟨-, he⟩ | ⟨-, -, he⟩
      · exact he ▸ hnm m hm
      · exact he ▸ hbm
    obtain ⟨m, hm, r, hr, hcr⟩ := hu.exists_of_describes_pieces hpass
      (fun m hm k => Kind.count_passing (hu.mem m hm) (hnm m hm))
      (fun m _ => Nat.le_trans List.countP_le_length (List.length_filterMap_le _ _)) hd
    exact ⟨m, hm, (Constant.not_drops_of_passing_or_remainder hb (hu.mem m hm) hbp hbm
      (.inl hr) hcr).1⟩

theorem TyUnion.Plain.describes_of_difference (hu : u.Plain) (hn : u.isMixed = false)
    (hb : target.members = [b]) (hd : (u.difference h target).Describes h c) :
    u.Describes h c := by
  have hnm : ∀ m ∈ u.members, m.isMixed = false := fun m hm => hu.isMixed_eq_false hm hn
  rw [difference, hb] at hd
  obtain ⟨m, hm, r, hr, hcr⟩ := hu.exists_of_describes_pieces
    (fun m hm r hr => ⟨plain_of_mem_remainder (hu.mem m hm) hr,
      (Ty.isAtom_iff.1 ((hu.mem m hm).1.isAtom_part (hnm m hm) (mem_remainder.1 hr).1)).1⟩)
    (fun m hm k => Kind.count_remainder (hu.mem m hm).1) (fun m _ => countP_remainder_le) hd
  exact ⟨m, hm, (Ty.matches_iff_parts c.isAtom_toTy).2 ⟨r, (mem_remainder.1 hr).1, hcr⟩⟩

end

/-- What an outcome of a test describes, one of the alternatives describes. -/
theorem Narrowing.describes_of_split {test : Narrowing} (hu : u.Plain) (ht : test.Simple)
    (hd : (test.split h u).1.Describes h c ∨ (test.split h u).2.Describes h c) :
    u.Describes h c := by
  by_cases hmixed : u.isMixed = true
  · exact TyUnion.describes_of_isMixed c hmixed
  have hn : u.isMixed = false := by simpa using hmixed
  cases test with
  | truthy => exact hd.elim (hu.describes_of_truthy hn) (hu.describes_of_falsy hn)
  | isNull =>
    exact hd.elim (TyUnion.describes_of_onlyIf_mayBe (f := .null)) (hu.describes_of_without hn)
  | isSet =>
    exact hd.elim (hu.describes_of_without hn) (TyUnion.describes_of_onlyIf_mayBe (f := .null))
  | isFalse =>
    exact hd.elim (TyUnion.describes_of_onlyIf_mayBe (f := .false)) (hu.describes_of_without hn)
  | is target =>
    obtain ⟨htp, b, hb⟩ := ht
    rw [Narrowing.split, if_neg hmixed] at hd
    exact hd.elim (hu.describes_of_intersection hn htp hb) (hu.describes_of_difference hn hb)

end

/-- A test of a variable touches only that variable, and gives it no value that it did not
have. -/
theorem Env.narrow_within {h : Hierarchy} {e : Env} {name : String} {u : TyUnion}
    {test : Narrowing} (hget : e.get? name = some u) (hu : u.Reachable)
    (hf : u.functionFree = true)
    (ht : ∀ target, test = .is target →
      target.Reachable ∧ target.functionFree = true ∧ target.members.length = 1) :
    ∀ outcome ∈ [(e.narrow h name test).yes, (e.narrow h name test).no],
      (∀ other, (outcome.get? other).isSome = (e.get? other).isSome) ∧
      (∀ other, other ≠ name → outcome.get? other = e.get? other) ∧
      ∃ v, outcome.get? name = some v ∧ ∀ c, v.Describes h c → u.Describes h c := by
  have hsimple : test.Simple := by
    cases test with
    | is target =>
      obtain ⟨hr, hf, hl⟩ := ht target rfl
      exact ⟨⟨hr.wellFormed, hf⟩, List.length_eq_one_iff.1 hl⟩
    | _ => trivial
  have hset : ∀ v : TyUnion, (∀ c, v.Describes h c → u.Describes h c) →
      (∀ other, ((e.set name (v.orElse u)).get? other).isSome = (e.get? other).isSome) ∧
      (∀ other, other ≠ name → (e.set name (v.orElse u)).get? other = e.get? other) ∧
      ∃ w, (e.set name (v.orElse u)).get? name = some w ∧
        ∀ c, w.Describes h c → u.Describes h c := by
    intro v hv
    refine ⟨fun other => ?_, fun other ho => by simp [Ne.symm ho], v.orElse u, by simp,
      fun c hc => ?_⟩
    · by_cases ho : name = other
      · simp [← ho, hget]
      · simp [ho]
    · rw [TyUnion.orElse] at hc
      split at hc
      · exact hc
      · exact hv c hc
  have hyes : (e.narrow h name test).yes = e.set name ((test.split h u).1.orElse u) := by
    simp [Env.narrow, hget]
  have hno : (e.narrow h name test).no = e.set name ((test.split h u).2.orElse u) := by
    simp [Env.narrow, hget]
  intro outcome ho
  rw [hyes, hno] at ho
  rcases List.mem_pair.1 ho with rfl | rfl
  · exact hset _ fun c hc => Narrowing.describes_of_split ⟨hu.wellFormed, hf⟩ hsimple (.inl hc)
  · exact hset _ fun c hc => Narrowing.describes_of_split ⟨hu.wellFormed, hf⟩ hsimple (.inr hc)

/-- An outcome of a test for `bool` has no value of a variable that is a bool or null which
the variable did not have. -/
theorem Env.narrow_within_nullable :
    let x := TyUnion.of (.optional (.bool none) .null)
    let e := Env.empty.set "x" x
    ∀ outcome ∈ [(e.narrow .flat "x" (.is (.of (.bool none)))).yes,
        (e.narrow .flat "x" (.is (.of (.bool none)))).no],
      (∀ other, (outcome.get? other).isSome = (e.get? other).isSome) ∧
      (∀ other, other ≠ "x" → outcome.get? other = e.get? other) ∧
      ∃ v, outcome.get? "x" = some v ∧ ∀ c, v.Describes .flat c → x.Describes .flat c := by
  intro x e
  have hx : x.members = [.optional (.bool none) .null] := TyUnion.members_of (by simp)
  have hr : x.Reachable := .add .empty (.optional (c := .bool none) (.bool none) .null)
  have hf : x.functionFree = true := by
    rw [TyUnion.functionFree_iff, hx]
    simp [Ty.functionFree]
  have hb : (TyUnion.of (.bool none)).members = [.bool none] := TyUnion.members_of (by simp)
  refine @Env.narrow_within .flat e "x" x _ rfl hr hf fun target ht => ?_
  obtain rfl := Narrowing.is.inj ht
  refine ⟨.add .empty (.bool none), ?_, by rw [hb]; rfl⟩
  rw [TyUnion.functionFree_iff, hb]
  simp [Ty.functionFree]

/-! ### Tests for null and for false -/

namespace TyUnion

/-- The value that is taken away. -/
def Falsy.value : Falsy → Constant
  | .null => .null
  | .false => .bool Bool.false

/-- The test for the value. -/
def Falsy.test : Falsy → Narrowing
  | .null => .isNull
  | .false => .isFalse

theorem Falsy.toTy_value (f : Falsy) : f.value.toTy = f.ty := by
  cases f <;> rfl

theorem Falsy.eq_value_iff {f : Falsy} {c : Constant} : c = f.value ↔ c.toTy = f.ty := by
  cases f <;> cases c <;> simp [Falsy.value, Falsy.ty, Constant.toTy]

theorem Falsy.split_test (f : Falsy) (h : Hierarchy) (u : TyUnion) :
    f.test.split h u = (onlyIf (u.mayBe f) f.ty, u.without f) := by
  cases f <;> rfl

/-- A union that describes one value only and has no alternative without it.  Nothing is
of type `void`, which is no alternative. -/
structure Only (u : TyUnion) (c : Constant) : Prop where
  describes : ∀ d : Constant, u.Describes .flat d → d = c
  alternatives : ∀ m ∈ u.members, ∀ p ∈ m.parts, p ≠ .void → p = c.toTy

/-- An optional type has the value in its content. -/
def Hides (u : TyUnion) (c : Constant) : Prop :=
  ∃ d s, Ty.optional d s ∈ u.members ∧ c.toTy.matches .flat d = true

end TyUnion

theorem Separate.eq_of_combine? {ms : List Ty} {a b : Ty} (hs : Separate ms) (ha : a ∈ ms)
    (hb : b ∈ ms) (hab : a.combine? b ≠ none) : a = b := by
  have hsymm : Std.Symm fun a b : Ty => a.combine? b = none :=
    ⟨fun _ _ => Ty.combine?_eq_none_comm⟩
  exact Classical.byContradiction fun hne => hab (hs.apart.forall ha hb hne)

theorem Ty.combine?_optional_void (s : Sentinel) (t : Ty) :
    (Ty.optional .void s).combine? t ≠ none := by
  suffices hs : ∀ j, ∃ r, Ty.Combines j (.optional .void s) t r by
    obtain ⟨r, hr⟩ := hs (joinWithin (max (Ty.optional .void s).arrayDepth t.arrayDepth))
    have hsome := (hr.isSome (joinWithin (max (Ty.optional .void s).arrayDepth t.arrayDepth))).1
    rw [Ty.combine?]
    intro hn
    simp [hn] at hsome
  intro j
  cases ho : t.isOptional with
  | true =>
    obtain ⟨d, o, rfl⟩ := Ty.eq_optional ho
    exact ⟨_, .optionals _ _ (.right (Ty.void_matches d))⟩
  | false =>
    cases ht : Sentinel.ofTy? t with
    | some o => exact ⟨_, .sentinelLeft _ _ ht⟩
    | none => exact ⟨_, .contentLeft _ ho ht (.right (Ty.void_matches t))⟩

theorem Sentinel.exists_type (s : Sentinel) : ∃ t ∈ s.types, t ≠ .void := by
  cases s <;> simp [Sentinel.types]

namespace TyUnion

section

variable {u : TyUnion} {f : Falsy}

/-- Unless only content has it, a value is found. -/
theorem exists_isIn (hk : u.Describes .flat f.value) (hh : u.Hides f.value → u.Only f.value) :
    ∃ m ∈ u.members, f.isIn m = true := by
  by_cases hhide : u.Hides f.value
  · have honly := (hh hhide).alternatives
    obtain ⟨d, s, hm, -⟩ := hhide
    obtain ⟨t, ht, htv⟩ := s.exists_type
    refine ⟨_, hm, Falsy.isIn_optional.2 ?_⟩
    rw [← f.toTy_value, ← honly _ hm t (List.mem_cons_of_mem d ht) htv]
    exact ht
  · obtain ⟨m, hm, hkm⟩ := hk
    refine ⟨m, hm, ?_⟩
    cases m with
    | optional d s =>
      have hs := (Constant.matches_optional_iff.1 hkm).resolve_right fun hd => hhide ⟨d, s, hm, hd⟩
      exact Falsy.isIn_optional.2 (f.toTy_value ▸ hs)
    | _ =>
      rw [f.toTy_value] at hkm
      exact hkm

/-- A union with one alternative that is the value has no other value. -/
theorem Plain.only_of_forall_eq {m : Ty} (hu : u.Plain) (hn : u.isMixed = Bool.false)
    (hm : m ∈ u.members) (hone : ∀ t ∈ u.members, t = m)
    (hparts : ∀ p ∈ m.parts, p ≠ .void → p = f.ty) : u.Only f.value := by
  rw [← f.toTy_value] at hparts
  refine ⟨fun c ⟨t, ht, hct⟩ => ?_, fun t ht => hone t ht ▸ hparts⟩
  rw [hone t ht] at hct
  obtain ⟨p, hp, hpd, hcp⟩ := c.exists_data_part (hu.mem m hm) (hu.isMixed_eq_false hm hn) hct
  have hpv : p ≠ .void := by
    rintro rfl
    cases hpd
  rw [hparts p hp hpv, f.toTy_value] at hcp
  rw [Falsy.eq_value_iff]
  exact Falsy.matches_ty_iff.1 hcp

theorem Plain.eq_void_of_remove {m r : Ty} (hu : u.Plain)
    (he : (u.without f).isEmpty = true) (hm : m ∈ u.members) (hr : f.remove m = some r) :
    r = .void := by
  refine eq_void_of_isEmpty_ofList (fun t ht => ?_) he r (List.mem_filterMap.2 ⟨m, hm, hr⟩)
  obtain ⟨x, hx, hxt⟩ := List.mem_filterMap.1 ht
  exact (hu.1.mem x hx).remove hxt

theorem Falsy.eq_ty_of_remove {m : Ty} (hm : m.isMixed = Bool.false)
    (ho : m.isOptional = Bool.false) (hf : f.ty.matches .flat m = true)
    (hvoid : ∀ r, f.remove m = some r → r = .void) : m = f.ty := by
  have hgone : f.remove m = none := by
    rw [Option.eq_none_iff_forall_ne_some]
    intro r hr
    rcases Falsy.remove_eq_some hr with ⟨-, -, hkeep⟩ | ⟨-, -, rfl⟩ | ⟨d, s, rfl, -⟩
    · rw [hkeep hf] at hm
      cases hm
    · cases hvoid _ hr
    · cases ho
  cases m with
  | bool x => cases f <;> rcases x with _ | _ | _ <;>
      simp_all [Falsy.ty, Ty.matches, refines, Falsy.remove]
  | mixed => cases hm
  | optional d s => cases ho
  | _ => cases f <;> simp_all [Falsy.ty, Ty.matches]

theorem Falsy.remove_sentinel {t : Ty} (ht : t.isSentinel = true) (hne : t ≠ f.ty) :
    f.remove t = some t := by
  rcases Ty.isSentinel_iff.1 ht with rfl | rfl <;> cases f <;>
    first | rfl | exact absurd rfl hne

/-- When nothing is left of a union but the value, there was nothing else. -/
theorem Plain.only_of_isEmpty_without (hu : u.Plain) (hn : u.isMixed = Bool.false)
    (hk : u.Describes .flat f.value) (hh : ¬ u.Hides f.value)
    (he : (u.without f).isEmpty = true) : u.Only f.value := by
  have hsep := (wellFormed_iff.1 hu.1).2
  obtain ⟨m, hm, hkm⟩ := hk
  cases ho : m.isOptional with
  | true =>
    obtain ⟨d, s, rfl⟩ := Ty.eq_optional ho
    have hs := (Constant.matches_optional_iff.1 hkm).resolve_right fun hd => hh ⟨d, s, hm, hd⟩
    have hd : d = .void ∧ f.strip s = none := by
      cases hstrip : f.strip s with
      | none => exact ⟨hu.eq_void_of_remove he hm (by simp [Falsy.remove, hstrip]), rfl⟩
      | some s' =>
        have hr := hu.eq_void_of_remove (f := f) (r := d.makeOptional s') he hm
          (by simp [Falsy.remove, hstrip])
        exact absurd hr (Ty.makeOptional_ne_void d s')
    obtain ⟨rfl, hstrip⟩ := hd
    refine hu.only_of_forall_eq hn hm
      (fun t ht => (hsep.eq_of_combine? hm ht (Ty.combine?_optional_void s t)).symm) ?_
    rintro p (_ | ⟨_, hp⟩) hpv
    · exact absurd rfl hpv
    · exact Falsy.eq_ty_of_strip hstrip hp
  | false =>
    rw [f.toTy_value] at hkm
    obtain rfl := Falsy.eq_ty_of_remove (hu.isMixed_eq_false hm hn) ho hkm
      fun r => hu.eq_void_of_remove he hm
    have hfs : f.ty.isSentinel = true := by cases f <;> rfl
    refine hu.only_of_forall_eq hn hm (fun t ht => ?_) fun p hp _ => ?_
    · cases hts : t.isSentinel with
      | false => exact hsep.eq_of_combine? ht hm (Ty.combineWith_sentinel hfs hts)
      | true =>
        refine Classical.byContradiction fun hne => ?_
        rw [hu.eq_void_of_remove he ht (Falsy.remove_sentinel hts hne)] at hts
        cases hts
    · rwa [Ty.parts_eq ho, List.mem_singleton] at hp

theorem describes_flat_iff (h : Hierarchy) {c : Constant} :
    u.Describes .flat c ↔ u.Describes h c := by
  simp only [Describes, c.matches_eq h]

/-- What a test for the value makes of a union is exact, where no content of an optional
type has the value unseen. -/
theorem Plain.exact_iff (hu : u.Plain) (hn : u.isMixed = Bool.false)
    (hk : u.Describes .flat f.value) (h : Hierarchy) :
    ((∀ c, ((f.test.split h u).1.orElse u).Describes h c ↔ c = f.value) ∧
      (((f.test.split h u).2.orElse u).Describes h f.value → u.Only f.value)) ↔
      (u.Hides f.value → u.Only f.value) := by
  rw [f.split_test]
  constructor
  · rintro ⟨-, hno⟩ ⟨d, s, hm, hkd⟩
    obtain ⟨r, hr, hkr⟩ : ∃ r, f.remove (.optional d s) = some r ∧
        f.value.toTy.matches .flat r = true := by
      cases hstrip : f.strip s with
      | none => exact ⟨d, by simp [Falsy.remove, hstrip], hkd⟩
      | some s' =>
        exact ⟨d.makeOptional s', by simp [Falsy.remove, hstrip],
          Ty.matches_makeOptional s' (Ty.isAtom_iff.1 f.value.isAtom_toTy).2 hkd⟩
    refine hno (describes_orElse ((describes_flat_iff h).1 hk) (.inr ?_))
    refine describes_ofList (fun t ht => ?_)
      ⟨r, List.mem_filterMap.2 ⟨_, hm, hr⟩, by rw [f.value.matches_eq, hkr]⟩
    obtain ⟨x, hx, hxt⟩ := List.mem_filterMap.1 ht
    exact Falsy.plain_remove (hu.mem x hx) hxt
  · intro hh
    obtain ⟨m, hm, hfm⟩ := exists_isIn hk hh
    constructor
    · intro c
      have hne : (onlyIf (u.mayBe f) f.ty).isEmpty = Bool.false := by
        rw [mayBe_of_mem hm hfm, onlyIf, if_pos rfl]
        refine (isUnknown_eq_false.1 (isUnknown_of ?_ ?_)).1 <;> cases f <;> simp [Falsy.ty]
      rw [orElse, if_neg (by simp [hne]), describes_onlyIf_iff, Falsy.eq_value_iff]
      exact ⟨And.right, fun hc => ⟨mayBe_of_mem hm hfm, hc⟩⟩
    · intro hd
      by_cases hhide : u.Hides f.value
      · exact hh hhide
      rw [orElse] at hd
      split at hd
      · rename_i he
        exact hu.only_of_isEmpty_without hn hk hhide he
      · obtain ⟨t, ht, r, hr, hkr⟩ := hu.exists_of_describes_without hn hd
        rw [f.value.matches_eq] at hkr
        obtain ⟨d, s, rfl, hkd⟩ := Falsy.hidden_of_remove (hu.isMixed_eq_false ht hn)
          f.toTy_value hr hkr
        exact absurd ⟨d, s, ht, hkd⟩ hhide

end

end TyUnion

/-- A test for null or for `false` leaves exactly the value in one outcome and takes it out
of the other, just when no optional type has the value in its content. -/
theorem Env.narrow_falsy_iff {h : Hierarchy} {e : Env} {name : String} {u : TyUnion}
    {f : TyUnion.Falsy} (hget : e.get? name = some u) (hu : u.Reachable)
    (hf : u.functionFree = true) (hn : u.isMixed = false) (hk : u.Describes .flat f.value) :
    ∃ yes no, (e.narrow h name f.test).yes.get? name = some yes ∧
      (e.narrow h name f.test).no.get? name = some no ∧
      (((∀ c, yes.Describes h c ↔ c = f.value) ∧ (no.Describes h f.value → u.Only f.value)) ↔
        (u.Hides f.value → u.Only f.value)) := by
  refine ⟨(f.test.split h u).1.orElse u, (f.test.split h u).2.orElse u, ?_, ?_, ?_⟩
  · simp [Env.narrow, hget]
  · simp [Env.narrow, hget]
  · exact TyUnion.Plain.exact_iff ⟨hu.wellFormed, hf⟩ hn hk h

/-- A test for `false` of a variable that is a bool or null leaves more than `false` in one
outcome, and `false` in the other. -/
theorem Env.isFalse_keeps_false :
    let x := TyUnion.of (.optional (.bool none) .null)
    let e := Env.empty.set "x" x
    x.Describes .flat (.bool false) ∧
      ∃ yes no, (e.narrow .flat "x" .isFalse).yes.get? "x" = some yes ∧
        (e.narrow .flat "x" .isFalse).no.get? "x" = some no ∧
        ¬ ((∀ c, yes.Describes .flat c ↔ c = .bool false) ∧
          (no.Describes .flat (.bool false) → x.Only (.bool false))) := by
  intro x e
  have hx : x.members = [.optional (.bool none) .null] := TyUnion.members_of (by simp)
  have hr : x.Reachable := .add .empty (.optional (c := .bool none) (.bool none) .null)
  have hmem : Ty.optional (.bool none) .null ∈ x.members := by simp [hx]
  have hhide : x.Hides (.bool false) :=
    ⟨.bool none, .null, hmem, by simp [Constant.toTy, Ty.matches, refines]⟩
  have hdesc : ∀ c : Constant, c.toTy.matches .flat (.optional (.bool none) .null) = true →
      x.Describes .flat c := fun c hc => ⟨_, hmem, hc⟩
  have hfalse : x.Describes .flat (.bool false) :=
    hdesc _ (by simp [Constant.toTy, Ty.matches, refines])
  have hmore : ¬ x.Only (.bool false) := by
    intro ho
    have hnull : Constant.null = .bool false := ho.describes .null (hdesc _ (by
      simp [Constant.toTy, Ty.matches, Sentinel.ofTy?, Sentinel.contains]))
    cases hnull
  have hf : x.functionFree = true := by
    rw [TyUnion.functionFree_iff, hx]
    simp [Ty.functionFree]
  have hn : x.isMixed = false := by
    rw [Bool.eq_false_iff, ne_eq, TyUnion.isMixed_iff, hx]
    simp
  obtain ⟨yes, no, hyes, hno, hexact⟩ :=
    @Env.narrow_falsy_iff .flat e "x" x .false rfl hr hf hn hfalse
  exact ⟨hfalse, yes, no, hyes, hno, fun h => hmore (hexact.1 h hhide)⟩

end PhpCheck
