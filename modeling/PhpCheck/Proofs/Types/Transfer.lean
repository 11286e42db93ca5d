import PhpCheck.Proofs.Types.Preorder

/-!
Where the subtype test carries over.

What may be used as a type may be used as it where more is known of classes
(`TyUnion.compliesWith_mono`), so the test without inheritance is the strictest.  And what
may be used as a type may be used as an equal one, unless there are functions in it
(`TyUnion.compliesWith_of_same`): equal unions name their alternatives in any order.

The first follows the recursion of the test, which goes to parts of both types.  In the
second only the type on the right changes, so an induction over that type is enough.
-/

namespace PhpCheck

/-! ### More known classes -/

/-- What the first hierarchy knows of classes, the second knows as well. -/
structure Hierarchy.Within (h k : Hierarchy) : Prop where
  isSubclass {a b : String} (hab : h.isSubclass a b = true) : k.isSubclass a b = true
  isStringable {a : String} (ha : h.isStringable a = true) : k.isStringable a = true

section

variable {h k : Hierarchy}

theorem paramsMatch_of {ps qs : List Param}
    (hall : ∀ p ∈ ps, ∀ q ∈ qs, ∀ u v, p.ty = some u → q.ty = some v →
      allComply h v.members u.members = true → allComply k v.members u.members = true)
    (hm : paramsMatch h ps qs = true) : paramsMatch k ps qs = true := by
  induction ps generalizing qs with
  | nil => simp [paramsMatch]
  | cons p ps ih =>
    cases qs with
    | nil => simp [paramsMatch]
    | cons q qs =>
      have hrest : paramsMatch h ps qs = true → paramsMatch k ps qs = true :=
        ih fun p hp q hq => hall p (List.mem_cons_of_mem _ hp) q (List.mem_cons_of_mem _ hq)
      have hfirst := hall p List.mem_cons_self q List.mem_cons_self
      obtain ⟨_, ty, _, _, _⟩ := p
      obtain ⟨_, ty', _, _, _⟩ := q
      cases ty <;> cases ty' <;> simp only [paramsMatch, Bool.and_eq_true, Bool.or_eq_true] at hm ⊢
      case some.some u v => exact ⟨hm.1.imp_right (hfirst u v rfl rfl), hrest hm.2⟩
      all_goals exact hrest hm

theorem Signature.matches_of {f g : Signature} (hm : f.matches h g = true)
    (hparams : ∀ p ∈ f.params, ∀ q ∈ g.params, ∀ u v, p.ty = some u → q.ty = some v →
      allComply h v.members u.members = true → allComply k v.members u.members = true)
    (hresult : allComply h f.result.members g.result.members = true →
      allComply k f.result.members g.result.members = true) : f.matches k g = true := by
  unfold Signature.matches at hm ⊢
  simp only [Bool.or_eq_true, Bool.and_eq_true] at hm ⊢
  exact hm.imp_right fun hm => ⟨⟨hm.1.1, paramsMatch_of hparams hm.1.2⟩, hm.2.imp_right hresult⟩

theorem TyUnion.totalSize_members_lt (u : TyUnion) : totalSize u.members < u.size := by
  obtain ⟨members⟩ := u
  rw [TyUnion.size]
  exact Nat.lt_succ_self _

theorem Ty.matches_of_atoms (hk : h.Within k) {a e : Ty} (ha : a.isAtom = true)
    (he : e.isAtom = true)
    (harrays : ∀ x y, a.member? = some x → e.member? = some y → x.membersMatch h y = true →
      x.membersMatch k y = true)
    (hfunctions : ∀ f g, a = .function f → e = .function g → f.matches h g = true →
      f.matches k g = true)
    (hm : a.matches h e = true) : a.matches k e = true := by
  cases a with
  | mixed | optional => cases ha
  | void => exact Ty.void_matches e
  | list x | map x => cases e <;> simp_all [Ty.matches, Ty.isAtom, Ty.member?]
  | function f => cases e <;> simp_all [Ty.matches, Ty.isAtom]
  | object name =>
    cases e with
    | string y =>
      rw [object_matches_string, Bool.and_eq_true] at hm ⊢
      exact ⟨hm.1, hk.isStringable hm.2⟩
    | object y | classOf y =>
      simp only [Ty.matches] at hm ⊢
      exact hk.isSubclass hm
    | function g =>
      simp only [Ty.matches, Bool.and_eq_true] at hm ⊢
      exact ⟨hm.1, hk.isSubclass hm.2⟩
    | mixed | optional => cases he
    | _ => simp [Ty.matches] at hm
  | classOf name =>
    cases e with
    | classOf y =>
      simp only [Ty.matches] at hm ⊢
      exact hk.isSubclass hm
    | mixed | optional => cases he
    | _ => simp [Ty.matches] at hm
  | int x | float x =>
    cases e with
    | float y => cases y <;> simp_all [Ty.matches]
    | mixed | optional => cases he
    | _ => simp_all [Ty.matches]
  | bool | string | null | resource => cases e <;> simp_all [Ty.matches, Ty.isAtom]

mutual

/-- What may be used as a type may be used as it where more is known of classes. -/
theorem Ty.matches_mono (hk : h.Within k) {a e : Ty} (hm : a.matches h e = true) :
    a.matches k e = true := by
  rcases a.mixed_or_optional_or_atom with rfl | hao | hatoma
  · rwa [Ty.mixed_matches] at hm ⊢
  · refine Ty.matches_iff_all_parts.2 fun p hp => ?_
    have := Ty.size_lt_of_mem_parts hao hp
    exact Ty.matches_mono hk (Ty.part_matches hm hp)
  rcases e.mixed_or_optional_or_atom with rfl | heo | hatome
  · exact Ty.matches_mixed a
  · obtain ⟨q, hq, haq⟩ := (Ty.matches_iff_parts hatoma).1 hm
    have := Ty.size_lt_of_mem_parts heo hq
    exact (Ty.matches_iff_parts hatoma).2 ⟨q, hq, Ty.matches_mono hk haq⟩
  refine Ty.matches_of_atoms hk hatoma hatome (fun x y hx hy hxy => ?_) (fun f g hf hg hfg => ?_) hm
  · have := Ty.totalSize_lt_of_member hx
    have := Ty.totalSize_lt_of_member hy
    rw [TyUnion.membersMatch_iff, TyUnion.compliesWith_iff] at hxy ⊢
    exact hxy.imp_right fun hxy => hxy.imp_right fun hxy => hxy.imp_right (allComply_mono hk)
  · have hasize : a.size = f.size + 1 := by rw [hf, Ty.size]
    have hesize : e.size = g.size + 1 := by rw [hg, Ty.size]
    exact Signature.matches_mono hk hfg
termination_by a.size + e.size

theorem Signature.matches_mono (hk : h.Within k) {f g : Signature} (hm : f.matches h g = true) :
    f.matches k g = true := by
  refine Signature.matches_of hm (fun p hp q hq u v hu hv => ?_) ?_
  · have := Signature.param_size_lt hp hu
    have := Signature.param_size_lt hq hv
    have := u.totalSize_members_lt
    have := v.totalSize_members_lt
    exact allComply_mono hk
  · have := f.result_size_lt
    have := g.result_size_lt
    have := f.result.totalSize_members_lt
    have := g.result.totalSize_members_lt
    exact allComply_mono hk
termination_by f.size + g.size

theorem Ty.complies_mono (hk : h.Within k) {t : Ty} {es : List Ty} (ht : t.Complies h es) :
    t.Complies k es := by
  rcases ht with hm | hany | hparts
  · exact .inl hm
  · obtain ⟨e, he, hte⟩ := matchesAny_iff.1 hany
    have := Ty.size_lt_totalSize he
    exact .inr (.inl (matchesAny_iff.2 ⟨e, he, Ty.matches_mono hk hte⟩))
  · cases t with
    | optional c s =>
      obtain ⟨hc, hs⟩ := hparts
      have : totalSize c.alone ≤ c.size + 2 := by cases c <;> simp [Ty.alone, totalSize]
      have := totalSize_sentinel_le s
      have := c.size_pos
      have hsize : (Ty.optional c s).size = c.size + 6 := by rw [Ty.size]
      exact .inr (.inr ⟨allComply_mono hk hc, allComply_mono hk hs⟩)
    | _ => cases hparts
termination_by t.size + totalSize es

theorem allComply_mono (hk : h.Within k) {ts es : List Ty} (hts : allComply h ts es = true) :
    allComply k ts es = true := by
  rw [allComply_iff] at hts ⊢
  intro t ht
  have := Ty.size_lt_totalSize ht
  exact Ty.complies_mono hk (hts t ht)
termination_by totalSize ts + totalSize es

end

theorem TyUnion.compliesWith_mono (hk : h.Within k) {u e : TyUnion}
    (hu : u.compliesWith h e = true) : u.compliesWith k e = true := by
  rw [compliesWith_iff] at hu ⊢
  exact hu.imp_right (allComply_mono hk)

end

/-! ### Equal types -/

/-- All that may be used as the first type may be used as the second. -/
def Ty.Under (h : Hierarchy) (y x : Ty) : Prop :=
  ∀ t : Ty, t.matches h y = true → t.matches h x = true

section

variable {h : Hierarchy}

/-- Optional types may be used as a type if their content and sentinels may. -/
theorem Ty.under_of {y x : Ty}
    (hle : ∀ t : Ty, t.isOptional = false → t.matches h y = true → t.matches h x = true) :
    y.Under h x := by
  intro t ht
  induction t using Ty.induct with
  | optional c s ih =>
    refine Ty.matches_iff_all_parts.2 fun p hp => ?_
    have hpy := Ty.part_matches ht hp
    rcases List.mem_cons.1 hp with rfl | hp
    · exact ih hpy
    · rcases Sentinel.eq_of_mem hp with rfl | rfl <;> exact hle _ rfl hpy
  | leaf t _ ho => exact hle t ho ht
  | map | list | function => exact hle _ rfl ht

/-- What finds its place among some types finds it among others that take as much. -/
theorem Ty.complies_of_under {ys xs : List Ty} (hle : ∀ y ∈ ys, ∃ x ∈ xs, y.Under h x) {t : Ty}
    (ht : t.Complies h ys) : t.Complies h xs := by
  have hany : ∀ t : Ty, matchesAny h t ys = true → matchesAny h t xs = true := by
    intro t hm
    obtain ⟨y, hy, hty⟩ := matchesAny_iff.1 hm
    obtain ⟨x, hx, hyx⟩ := hle y hy
    exact matchesAny_iff.2 ⟨x, hx, hyx t hty⟩
  induction t using Ty.induct with
  | optional c s ih =>
    refine ht.imp_right fun ht => ht.imp (hany _) fun ⟨hc, hs⟩ => ⟨?_, ?_⟩
    · rw [allComply_iff] at hc ⊢
      intro p hp
      have hpc : p = c := by cases c <;> simp_all [Ty.alone]
      exact hpc ▸ ih (hc c (hpc ▸ hp))
    · rw [allComply_iff] at hs ⊢
      intro p hp
      have hp' := hs p hp
      rcases Sentinel.eq_of_mem hp with rfl | rfl <;>
        exact hp'.imp_right fun hp' => hp'.imp_left (hany _)
  | leaf t _ ho =>
    refine ht.imp_right fun ht => ht.imp (hany _) fun hf => ?_
    cases t <;> simp_all [Ty.isOptional]
  | map | list | function => exact ht.imp_right fun ht => ht.imp_left (hany _)

theorem TyUnion.isMixed_of_same {u v : TyUnion} (huv : u.same v = true) (hu : u.isMixed = true) :
    v.isMixed = true := by
  obtain ⟨hlen, hsub⟩ := TyUnion.same_iff.1 huv
  obtain ⟨us⟩ := u
  obtain ⟨vs⟩ := v
  have hus : us = [.mixed] := by
    unfold TyUnion.isMixed at hu
    split at hu <;> simp_all
  subst hus
  obtain ⟨y, hy, hmy⟩ := hsub .mixed List.mem_cons_self
  obtain rfl := (Ty.leaf_same_iff (t := .mixed) rfl rfl (by simp) (by simp)).1 hmy
  obtain ⟨z, rfl⟩ := List.length_eq_one_iff.1 hlen.symm
  obtain rfl := List.mem_singleton.1 hy
  rfl

section

variable {u v w : TyUnion} (huv : u.same v = true)
  (hle : ∀ y ∈ u.members, ∀ x : Ty, y.same x = true → y.Under h x)

include huv hle

theorem TyUnion.compliesWith_of_under (hw : w.compliesWith h u = true) :
    w.compliesWith h v = true := by
  obtain ⟨-, hsub⟩ := TyUnion.same_iff.1 huv
  rw [compliesWith_iff, allComply_iff] at hw ⊢
  refine hw.imp (isMixed_of_same huv) fun hw t ht => ?_
  refine Ty.complies_of_under (fun y hy => ?_) (hw t ht)
  obtain ⟨x, hx, hyx⟩ := hsub y hy
  exact ⟨x, hx, hle y hy x hyx⟩

theorem Ty.array_under {y x : Ty} (hy : y.member? = some u) (hx : x.member? = some v) :
    y.Under h x := by
  refine Ty.under_of fun t hto ht => ?_
  cases t with
  | optional => cases hto
  | list w | map w =>
    rw [Ty.array_matches rfl hy, TyUnion.membersMatch_iff] at ht
    rw [Ty.array_matches rfl hx, TyUnion.membersMatch_iff]
    refine ht.imp_right fun ht => ht.imp (fun hnil => ?_) (TyUnion.compliesWith_of_under huv hle)
    have hlen := (TyUnion.same_iff.1 huv).1
    rw [hnil] at hlen
    exact List.length_eq_zero_iff.1 hlen.symm
  | _ => cases y <;> simp [Ty.member?] at hy <;> simp_all [Ty.matches, Ty.isMixed]

end

theorem Ty.float_under {a b : Option Double} (hab : sameFloat a b = true) :
    (Ty.float a).Under h (.float b) := by
  have hrefines : refinesFloat a b = true := by simp [refinesFloat, hab]
  refine Ty.under_of fun t hto ht => ?_
  cases t with
  | optional => cases hto
  | mixed => simp [Ty.isMixed] at ht
  | float d =>
    simp only [Ty.matches] at ht ⊢
    exact refinesFloat_trans ht hrefines
  | int i =>
    rw [Ty.int_matches_float] at ht ⊢
    exact isNone_of_refinesFloat ht hrefines
  | _ => simp_all [Ty.matches]

theorem Ty.Under.optional {c d : Ty} (hcd : c.Under h d) (s : Sentinel) :
    (Ty.optional c s).Under h (.optional d s) := by
  refine Ty.under_of fun t hto ht => ?_
  rcases t.mixed_or_optional_or_atom with rfl | hao | hatom
  · simp [Ty.isMixed] at ht
  · rw [hto] at hao
    cases hao
  · obtain ⟨q, hq, htq⟩ := (Ty.matches_iff_parts hatom).1 ht
    rw [Ty.matches_iff_parts hatom]
    rcases List.mem_cons.1 hq with rfl | hq
    · exact ⟨d, List.mem_cons_self, hcd t htq⟩
    · exact ⟨q, List.mem_cons_of_mem _ hq, htq⟩

/-- What may be used as a type may be used as an equal one, if there are no functions in it. -/
theorem Ty.under_of_same {y x : Ty} (hy : y.functionFree = true) (hyx : y.same x = true) :
    y.Under h x := by
  induction y using Ty.induct generalizing x with
  | leaf y hm ho hf =>
    by_cases hx : ∃ a, y = .float a
    · obtain ⟨a, rfl⟩ := hx
      obtain ⟨b, rfl, hab⟩ := Ty.float_same_iff.1 hyx
      exact Ty.float_under hab
    · obtain rfl := (Ty.leaf_same_iff hm ho hf fun a ha => hx ⟨a, ha⟩).1 hyx
      exact fun t ht => ht
  | map u ih =>
    obtain ⟨v, rfl, huv⟩ := Ty.map_same_iff.1 hyx
    have hu := TyUnion.functionFree_iff.1 (by simpa [Ty.functionFree] using hy)
    exact Ty.array_under huv (fun p hp _ => ih p hp (hu p hp)) rfl rfl
  | list u ih =>
    obtain ⟨v, rfl, huv⟩ := Ty.list_same_iff.1 hyx
    have hu := TyUnion.functionFree_iff.1 (by simpa [Ty.functionFree] using hy)
    exact Ty.array_under huv (fun p hp _ => ih p hp (hu p hp)) rfl rfl
  | function => simp [Ty.functionFree] at hy
  | optional c s ih =>
    obtain ⟨d, rfl, hcd⟩ := Ty.optional_same_iff.1 hyx
    exact (ih (by simpa [Ty.functionFree] using hy) hcd).optional s

theorem TyUnion.compliesWith_of_same {u v w : TyUnion} (hu : u.functionFree = true)
    (huv : u.same v = true) (hw : w.compliesWith h u = true) : w.compliesWith h v = true :=
  compliesWith_of_under huv (fun y hy _ => Ty.under_of_same (functionFree_iff.1 hu y hy)) hw

end

end PhpCheck
