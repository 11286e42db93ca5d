import PhpCheck.Proofs.Types.WellFormed

/-!
Equality of types is an equivalence.

Equality of unions counts the members and looks each member of one up in the
other, which says nothing of the members of the other by itself.  On well-formed
types it is symmetric all the same: equal types match, members of a union do not,
so no two members of one union are equal to the same member of the other, and as
many members leave none out.  The proof goes by induction over types and carries
the subtype test along with symmetry (`Ty.Alike`).
-/

namespace PhpCheck

/-- A relation that sends different members of `xs` to different members of `ys`
reaches all of `ys` when there are no more of them. -/
theorem exists_of_pairwise_of_length_le {α β : Type} {R : α → β → Prop} {xs : List α} {ys : List β}
    (hl : ys.length ≤ xs.length) (hd : xs.Pairwise fun a b => ∀ y, R a y → ¬ R b y)
    (hx : ∀ x ∈ xs, ∃ y ∈ ys, R x y) : ∀ y ∈ ys, ∃ x ∈ xs, R x y := by
  induction xs generalizing ys with
  | nil =>
    have hnil : ys = [] := List.length_eq_zero_iff.1 (by simpa using hl)
    simp [hnil]
  | cons x xs ih =>
    obtain ⟨hhead, hd⟩ := List.pairwise_cons.1 hd
    obtain ⟨⟨y₀, hy₀, hR⟩, hx⟩ := List.forall_mem_cons.1 hx
    obtain ⟨pre, post, rfl⟩ := List.append_of_mem hy₀
    have hrest : ∀ x ∈ xs, ∃ y ∈ pre ++ post, R x y := by
      intro z hz
      obtain ⟨y, hy, hzy⟩ := hx z hz
      have hne : y ≠ y₀ := fun he => hhead z hz y₀ hR (he ▸ hzy)
      exact ⟨y, by simpa [hne] using hy, hzy⟩
    have hl' : (pre ++ post).length ≤ xs.length := by
      simp only [List.length_append, List.length_cons] at hl ⊢
      omega
    intro y hy
    by_cases he : y = y₀
    · exact ⟨x, List.mem_cons_self, he ▸ hR⟩
    · obtain ⟨z, hz, hzy⟩ := ih hl' hd hrest y (by simpa [he] using hy)
      exact ⟨z, List.mem_cons_of_mem x hz, hzy⟩

theorem length_le_of_pairwise {α β : Type} {R : α → β → Prop} {xs : List α} {ys : List β}
    (hd : xs.Pairwise fun a b => ∀ y, R a y → ¬ R b y) (hx : ∀ x ∈ xs, ∃ y ∈ ys, R x y) :
    xs.length ≤ ys.length := by
  cases xs with
  | nil => exact Nat.zero_le _
  | cons x xs =>
    obtain ⟨hhead, hd⟩ := List.pairwise_cons.1 hd
    obtain ⟨⟨y, hy, hR⟩, hx⟩ := List.forall_mem_cons.1 hx
    rcases Nat.lt_or_ge xs.length ys.length with hlt | hge
    · exact hlt
    · obtain ⟨z, hz, hzy⟩ := exists_of_pairwise_of_length_le hge hd hx y hy
      exact absurd hzy (hhead z hz y hR)

/-! ### Refinements -/

theorem Double.same_comm (a b : Double) : a.same b = b.same a := by
  simp only [Double.same, Bool.beq_comm (a := a.bits), Bool.and_comm]

theorem Double.same_trans {a b c : Double} (hab : a.same b = true) (hbc : b.same c = true) :
    a.same c = true := by
  simp only [Double.same, Bool.and_eq_true, Bool.or_eq_true, Bool.not_eq_true', beq_iff_eq]
    at hab hbc ⊢
  obtain ⟨⟨ha, _⟩, hab⟩ := hab
  obtain ⟨⟨_, hc⟩, hbc⟩ := hbc
  refine ⟨⟨ha, hc⟩, ?_⟩
  rcases hab with hab | ⟨haz, hbz⟩
  · rcases hbc with hbc | ⟨hbz, hcz⟩
    · exact .inl (hab.trans hbc)
    · exact .inr ⟨by rwa [Double.isZero, Double.magnitude, hab], hcz⟩
  · rcases hbc with hbc | ⟨_, hcz⟩
    · exact .inr ⟨haz, by rwa [Double.isZero, Double.magnitude, ← hbc]⟩
    · exact .inr ⟨haz, hcz⟩

theorem sameFloat_comm (x y : Option Double) : sameFloat x y = sameFloat y x := by
  cases x <;> cases y <;> simp [sameFloat, Double.same_comm]

theorem sameFloat_trans {x y z : Option Double} (hxy : sameFloat x y = true)
    (hyz : sameFloat y z = true) : sameFloat x z = true := by
  cases x <;> cases y <;> cases z <;> simp_all [sameFloat]
  exact Double.same_trans hxy hyz

/-! ### Equality, opened -/

section

attribute [local simp] Ty.same TyUnion.same allAmong Signature.same sameParams Param.same
  sameUnion?

theorem allAmong_iff {xs ys : List Ty} :
    allAmong xs ys = true ↔ ∀ x ∈ xs, ∃ y ∈ ys, x.same y = true := by
  induction xs with
  | nil => simp
  | cons x xs ih => simp [ih]

theorem TyUnion.same_iff {u v : TyUnion} :
    u.same v = true ↔ u.members.length = v.members.length ∧
      ∀ x ∈ u.members, ∃ y ∈ v.members, x.same y = true := by
  obtain ⟨xs⟩ := u
  rw [TyUnion.same, Bool.and_eq_true, beq_iff_eq, allAmong_iff]

theorem Signature.same_iff {f g : Signature} :
    f.same g = true ↔ f.name = g.name ∧ sameParams f.params g.params = true ∧
      f.result.same g.result = true ∧ f.declared = g.declared ∧ f.callbacks = g.callbacks ∧
      f.any = g.any := by
  obtain ⟨_, _, _, _, _, _⟩ := f
  simp [and_assoc]

theorem Param.same_iff {p q : Param} :
    p.same q = true ↔ p.name = q.name ∧ sameUnion? p.ty q.ty = true ∧ p.byRef = q.byRef ∧
      p.hasDefault = q.hasDefault ∧ p.variadic = q.variadic := by
  obtain ⟨_, _, _, _, _⟩ := p
  simp [and_assoc]

theorem sameUnion?_iff {x y : Option TyUnion} :
    sameUnion? x y = true ↔
      (x = none ∧ y = none) ∨ ∃ u v, x = some u ∧ y = some v ∧ u.same v = true := by
  cases x <;> cases y <;> simp

theorem Ty.map_same_iff {u : TyUnion} {b : Ty} :
    (Ty.map u).same b = true ↔ ∃ v, b = .map v ∧ u.same v = true := by
  cases b <;> simp

theorem Ty.list_same_iff {u : TyUnion} {b : Ty} :
    (Ty.list u).same b = true ↔ ∃ v, b = .list v ∧ u.same v = true := by
  cases b <;> simp

theorem Ty.function_same_iff {f : Signature} {b : Ty} :
    (Ty.function f).same b = true ↔ ∃ g, b = .function g ∧ f.same g = true := by
  cases b <;> simp

theorem Ty.optional_same_iff {c b : Ty} {s : Sentinel} :
    (Ty.optional c s).same b = true ↔ ∃ d, b = .optional d s ∧ c.same d = true := by
  cases b with
  | optional d t =>
    rw [Ty.same, Bool.and_eq_true, beq_iff_eq]
    constructor
    · rintro ⟨hc, rfl⟩
      exact ⟨d, rfl, hc⟩
    · rintro ⟨d', he, hc⟩
      obtain ⟨rfl, rfl⟩ := Ty.optional.inj he
      exact ⟨hc, rfl⟩
  | _ => simp

theorem Ty.float_same_iff {x : Option Double} {b : Ty} :
    (Ty.float x).same b = true ↔ ∃ y, b = .float y ∧ sameFloat x y = true := by
  cases b <;> simp

/-- A type with nothing inside it equals itself only, unless it is refined to a
floating point number. -/
theorem Ty.leaf_same_iff {t b : Ty} (hm : t.member? = none) (ho : t.isOptional = false)
    (hf : ∀ f, t ≠ .function f) (hx : ∀ x, t ≠ .float x) : t.same b = true ↔ b = t := by
  constructor
  · intro h
    cases t <;> cases b <;> simp_all [Ty.member?, Ty.isOptional]
  · rintro rfl
    cases b <;> simp_all [Ty.member?, Ty.isOptional]

end

/-! ### Transitivity -/

theorem TyUnion.same_trans_of {u v w : TyUnion}
    (ih : ∀ a ∈ u.members, ∀ b c : Ty, a.same b = true → b.same c = true → a.same c = true)
    (huv : u.same v = true) (hvw : v.same w = true) : u.same w = true := by
  rw [TyUnion.same_iff] at huv hvw ⊢
  refine ⟨huv.1.trans hvw.1, fun x hx => ?_⟩
  obtain ⟨y, hy, hxy⟩ := huv.2 x hx
  obtain ⟨z, hz, hyz⟩ := hvw.2 y hy
  exact ⟨z, hz, ih x hx y z hxy hyz⟩

theorem sameParams_trans_of {ps qs rs : List Param}
    (ih : ∀ p ∈ ps, ∀ u, p.ty = some u → ∀ v w : TyUnion, u.same v = true → v.same w = true →
      u.same w = true)
    (hpq : sameParams ps qs = true) (hqr : sameParams qs rs = true) :
    sameParams ps rs = true := by
  induction ps generalizing qs rs with
  | nil => cases qs <;> cases rs <;> simp_all [sameParams]
  | cons p ps ihps =>
    cases qs with
    | nil => simp [sameParams] at hpq
    | cons q qs =>
      cases rs with
      | nil => simp [sameParams] at hqr
      | cons r rs =>
        simp only [sameParams, Bool.and_eq_true, Param.same_iff, sameUnion?_iff] at hpq hqr ⊢
        obtain ⟨ihp, ih⟩ := List.forall_mem_cons.1 ih
        obtain ⟨⟨hn, ht, hr, hd, hv⟩, hpq⟩ := hpq
        obtain ⟨⟨hn', ht', hr', hd', hv'⟩, hqr⟩ := hqr
        refine ⟨⟨hn.trans hn', ?_, hr.trans hr', hd.trans hd', hv.trans hv'⟩, ihps ih hpq hqr⟩
        rcases ht with ⟨hp, hq⟩ | ⟨u, v, hp, hq, huv⟩
        · rcases ht' with ⟨-, hr⟩ | ⟨v', w, hq', -, -⟩
          · exact .inl ⟨hp, hr⟩
          · cases hq.symm.trans hq'
        · rcases ht' with ⟨hq', -⟩ | ⟨v', w, hq', hr, hvw⟩
          · cases hq.symm.trans hq'
          · obtain rfl := Option.some.inj (hq.symm.trans hq')
            exact .inr ⟨u, w, hp, hr, ihp u hp v w huv hvw⟩

theorem Ty.same_trans {a b c : Ty} (hab : a.same b = true) (hbc : b.same c = true) :
    a.same c = true := by
  induction a using Ty.induct generalizing b c with
  | leaf t hm ho hf =>
    by_cases hx : ∃ x, t = .float x
    · obtain ⟨x, rfl⟩ := hx
      obtain ⟨y, rfl, hxy⟩ := Ty.float_same_iff.1 hab
      obtain ⟨z, rfl, hyz⟩ := Ty.float_same_iff.1 hbc
      exact Ty.float_same_iff.2 ⟨z, rfl, sameFloat_trans hxy hyz⟩
    · obtain rfl := (Ty.leaf_same_iff hm ho hf (fun x he => hx ⟨x, he⟩)).1 hab
      exact hbc
  | map u ih =>
    obtain ⟨v, rfl, huv⟩ := Ty.map_same_iff.1 hab
    obtain ⟨w, rfl, hvw⟩ := Ty.map_same_iff.1 hbc
    exact Ty.map_same_iff.2 ⟨w, rfl, TyUnion.same_trans_of (fun a ha _ _ => ih a ha) huv hvw⟩
  | list u ih =>
    obtain ⟨v, rfl, huv⟩ := Ty.list_same_iff.1 hab
    obtain ⟨w, rfl, hvw⟩ := Ty.list_same_iff.1 hbc
    exact Ty.list_same_iff.2 ⟨w, rfl, TyUnion.same_trans_of (fun a ha _ _ => ih a ha) huv hvw⟩
  | function f ihp ihr =>
    obtain ⟨g, rfl, hfg⟩ := Ty.function_same_iff.1 hab
    obtain ⟨k, rfl, hgk⟩ := Ty.function_same_iff.1 hbc
    rw [Signature.same_iff] at hfg hgk
    obtain ⟨hn, hp, hr, hd, hc, ha⟩ := hfg
    obtain ⟨hn', hp', hr', hd', hc', ha'⟩ := hgk
    refine Ty.function_same_iff.2 ⟨k, rfl, Signature.same_iff.2 ⟨hn.trans hn', ?_, ?_,
      hd.trans hd', hc.trans hc', ha.trans ha'⟩⟩
    · exact sameParams_trans_of (fun p hp u hu v w => TyUnion.same_trans_of
        fun a ha _ _ => ihp p hp u hu a ha) hp hp'
    · exact TyUnion.same_trans_of (fun a ha _ _ => ihr a ha) hr hr'
  | optional d s ih =>
    obtain ⟨e, rfl, hde⟩ := Ty.optional_same_iff.1 hab
    obtain ⟨g, rfl, heg⟩ := Ty.optional_same_iff.1 hbc
    exact Ty.optional_same_iff.2 ⟨g, rfl, ih hde heg⟩

theorem TyUnion.same_trans {u v w : TyUnion} (huv : u.same v = true) (hvw : v.same w = true) :
    u.same w = true :=
  same_trans_of (fun _ _ _ _ => Ty.same_trans) huv hvw

/-! ### Reflexivity -/

theorem TyUnion.same_refl_of {u : TyUnion} (ih : ∀ t ∈ u.members, t.same t = true) :
    u.same u = true :=
  TyUnion.same_iff.2 ⟨rfl, fun x hx => ⟨x, hx, ih x hx⟩⟩

theorem sameParams_refl_of {ps : List Param}
    (ih : ∀ p ∈ ps, ∀ u, p.ty = some u → u.same u = true) : sameParams ps ps = true := by
  induction ps with
  | nil => simp [sameParams]
  | cons p ps ihps =>
    obtain ⟨ihp, ih⟩ := List.forall_mem_cons.1 ih
    rw [sameParams, Bool.and_eq_true, Param.same_iff, sameUnion?_iff]
    refine ⟨⟨rfl, ?_, rfl, rfl, rfl⟩, ihps ih⟩
    cases hty : p.ty with
    | none => exact .inl ⟨rfl, rfl⟩
    | some u => exact .inr ⟨u, u, rfl, rfl, ihp u hty⟩

theorem Ty.WellFormed.same_self {t : Ty} (ht : t.WellFormed) : t.same t = true := by
  induction t using Ty.induct with
  | leaf t hm ho hf =>
    by_cases hx : ∃ x, t = .float x
    · obtain ⟨x, rfl⟩ := hx
      cases x with
      | none => simp [Ty.same, sameFloat]
      | some d => simpa [Ty.same, sameFloat, Double.same, Ty.WellFormed] using ht
    · exact (Ty.leaf_same_iff hm ho hf (fun x he => hx ⟨x, he⟩)).2 rfl
  | map u ih =>
    rw [Ty.WellFormed] at ht
    exact Ty.map_same_iff.2 ⟨u, rfl, TyUnion.same_refl_of fun t hm => ih t hm (ht.mem t hm)⟩
  | list u ih =>
    rw [Ty.WellFormed] at ht
    exact Ty.list_same_iff.2 ⟨u, rfl, TyUnion.same_refl_of fun t hm => ih t hm (ht.mem t hm)⟩
  | function f ihp ihr =>
    rw [Ty.WellFormed, Signature.wellFormed_iff] at ht
    refine Ty.function_same_iff.2 ⟨f, rfl, Signature.same_iff.2 ⟨rfl, ?_, ?_, rfl, rfl, rfl⟩⟩
    · exact sameParams_refl_of fun p hp u hu => TyUnion.same_refl_of fun t hm =>
        ihp p hp u hu t hm ((ht.1 p hp u hu).mem t hm)
    · exact TyUnion.same_refl_of fun t hm => ihr t hm (ht.2.mem t hm)
  | optional c s ih =>
    rw [Ty.WellFormed] at ht
    exact Ty.optional_same_iff.2 ⟨c, rfl, ih ht.1⟩

theorem TyUnion.WellFormed.same_self {u : TyUnion} (hu : u.WellFormed) : u.same u = true :=
  same_refl_of fun t ht => (hu.mem t ht).same_self

/-! ### Symmetry -/

/-- What follows from `a.same b` when `a` is well formed. -/
structure Ty.Alike (a b : Ty) : Prop where
  same : b.same a = true
  le : a.matches .flat b = true
  ge : b.matches .flat a = true

/-- Members equal to the same type would be equal to each other, and so match. -/
theorem Separate.pairwise_same {ts : List Ty} (hs : Separate ts)
    (ih : ∀ a ∈ ts, ∀ b, a.same b = true → a.Alike b) :
    ts.Pairwise fun a b => ∀ y, a.same y = true → ¬ b.same y = true := by
  refine hs.apart.imp_of_mem fun {a b} ha hb hn y hay hby => ?_
  have hle := (ih a ha b (Ty.same_trans hay (ih b hb y hby).same)).le
  rw [(Ty.matches_eq_false_of_combine?_eq_none hn).1] at hle
  cases hle

theorem TyUnion.alike_of {u v : TyUnion} (hu : u.WellFormed)
    (ih : ∀ a ∈ u.members, ∀ b, a.same b = true → a.Alike b) (huv : u.same v = true) :
    v.same u = true ∧ allComply .flat u.members v.members = true ∧
      allComply .flat v.members u.members = true := by
  obtain ⟨hlen, hsub⟩ := same_iff.1 huv
  have hd := (wellFormed_iff.1 hu).2.pairwise_same ih
  have hrev := exists_of_pairwise_of_length_le (Nat.le_of_eq hlen.symm) hd hsub
  refine ⟨same_iff.2 ⟨hlen.symm, fun y hy => ?_⟩, allComply_iff.2 fun x hx => ?_,
    allComply_iff.2 fun y hy => ?_⟩
  · obtain ⟨x, hx, hxy⟩ := hrev y hy
    exact ⟨x, hx, (ih x hx y hxy).same⟩
  · obtain ⟨y, hy, hxy⟩ := hsub x hx
    exact .inr (.inl (matchesAny_iff.2 ⟨y, hy, (ih x hx y hxy).le⟩))
  · obtain ⟨x, hx, hxy⟩ := hrev y hy
    exact .inr (.inl (matchesAny_iff.2 ⟨x, hx, (ih x hx y hxy).ge⟩))

theorem TyUnion.membersMatch_of_allComply {h : Hierarchy} {u e : TyUnion}
    (hc : allComply h u.members e.members = true) : u.membersMatch h e = true :=
  membersMatch_iff.2 (.inr (.inr (compliesWith_iff.2 (.inr hc))))

theorem sameParams_alike_of {ps qs : List Param}
    (ih : ∀ p ∈ ps, ∀ u, p.ty = some u → ∀ v : TyUnion, u.same v = true →
      v.same u = true ∧ allComply .flat u.members v.members = true ∧
        allComply .flat v.members u.members = true)
    (hpq : sameParams ps qs = true) :
    sameParams qs ps = true ∧ paramsMatch .flat ps qs = true ∧ paramsMatch .flat qs ps = true ∧
      ps.length = qs.length ∧
      (ps.filter Param.isRequired).length = (qs.filter Param.isRequired).length := by
  induction ps generalizing qs with
  | nil => cases qs <;> simp_all [sameParams, paramsMatch]
  | cons p ps ihps =>
    cases qs with
    | nil => simp [sameParams] at hpq
    | cons q qs =>
      rw [sameParams, Bool.and_eq_true, Param.same_iff, sameUnion?_iff] at hpq
      obtain ⟨ihp, ih⟩ := List.forall_mem_cons.1 ih
      obtain ⟨⟨hn, ht, hr, hd, hv⟩, hpq⟩ := hpq
      obtain ⟨hqp, hle, hge, hlen, hreq⟩ := ihps ih hpq
      have hrequired : p.isRequired = q.isRequired := by
        rw [Param.isRequired, Param.isRequired, hd, hv]
      have hcount : ((p :: ps).filter Param.isRequired).length =
          ((q :: qs).filter Param.isRequired).length := by
        simp only [List.filter_cons, hrequired]
        split <;> simp [hreq]
      rw [sameParams, Bool.and_eq_true, Param.same_iff, sameUnion?_iff]
      obtain ⟨_, pty, _, _, _⟩ := p
      obtain ⟨_, qty, _, _, _⟩ := q
      rcases ht with ⟨hp, hq⟩ | ⟨u, v, hp, hq, huv⟩
      · obtain rfl : pty = none := hp
        obtain rfl : qty = none := hq
        refine ⟨⟨⟨hn.symm, .inl ⟨rfl, rfl⟩, hr.symm, hd.symm, hv.symm⟩, hqp⟩, ?_, ?_,
          by simp [hlen], hcount⟩
        · rw [paramsMatch]
          · exact hle
          · rintro _ _ _ _ _ _ _ _ _ _ h
            cases h
        · rw [paramsMatch]
          · exact hge
          · rintro _ _ _ _ _ _ _ _ _ _ h
            cases h
      · obtain rfl : pty = some u := hp
        obtain rfl : qty = some v := hq
        obtain ⟨hvu, huv', hvu'⟩ := ihp u rfl v huv
        refine ⟨⟨⟨hn.symm, .inr ⟨v, u, rfl, rfl, hvu⟩, hr.symm, hd.symm, hv.symm⟩, hqp⟩, ?_, ?_,
          by simp [hlen], hcount⟩
        · rw [paramsMatch, hvu', hle, Bool.or_true, Bool.true_and]
        · rw [paramsMatch, huv', hge, Bool.or_true, Bool.true_and]

theorem Ty.matches_optional_of_matches {h : Hierarchy} {a c : Ty} {s : Sentinel}
    (ho : a.isOptional = false) (hm : a.isMixed = false) (hc : a.matches h c = true) :
    a.matches h (.optional c s) = true := by
  have ha : a.isAtom = true := by
    cases a <;> simp_all [Ty.isAtom, Ty.isMixed, Ty.isOptional]
  exact (Ty.matches_optional ha).2 (.inr hc)

theorem Sentinel.types_match {h : Hierarchy} {c t : Ty} {s : Sentinel} (ht : t ∈ s.types) :
    t.matches h (.optional c s) = true := by
  have hmem : t.isAtom = true ∧ (Sentinel.ofTy? t).any s.contains = true := by
    cases s <;> simp only [Sentinel.types, List.mem_cons, List.not_mem_nil, or_false] at ht
    · exact ht ▸ ⟨rfl, rfl⟩
    · exact ht ▸ ⟨rfl, rfl⟩
    · rcases ht with rfl | rfl <;> exact ⟨rfl, rfl⟩
  exact (Ty.matches_optional hmem.1).2 (.inl hmem.2)

theorem Ty.Alike.optional {c d : Ty} (hcd : c.Alike d) (hm : c.isMixed = false)
    (ho : c.isOptional = false) (s : Sentinel) : (Ty.optional c s).Alike (.optional d s) := by
  have hd : d.isMixed = false ∧ d.isOptional = false := by
    have hsame := hcd.same
    cases d with
    | mixed =>
      cases c <;> simp_all [Ty.same, Ty.isMixed]
    | optional e s =>
      obtain ⟨_, rfl, -⟩ := Ty.optional_same_iff.1 hsame
      simp [Ty.isOptional] at ho
    | _ => simp [Ty.isMixed, Ty.isOptional]
  refine ⟨Ty.optional_same_iff.2 ⟨c, rfl, hcd.same⟩, ?_, ?_⟩
  · rw [Ty.optional_matches (by simp) (by simp)]
    exact ⟨matches_optional_of_matches ho hm hcd.le, fun t ht => Sentinel.types_match ht⟩
  · rw [Ty.optional_matches (by simp) (by simp)]
    exact ⟨matches_optional_of_matches hd.2 hd.1 hcd.ge, fun t ht => Sentinel.types_match ht⟩

theorem Ty.leaf_matches_self {h : Hierarchy} (hh : ∀ name, h.isSubclass name name = true) {t : Ty}
    (hm : t.member? = none) (ho : t.isOptional = false) (hf : ∀ f, t ≠ .function f)
    (hx : ∀ x, t ≠ .float x) : t.matches h t = true := by
  cases t <;> simp_all [Ty.matches, Ty.member?, Ty.isOptional, refines]

theorem Ty.WellFormed.alike {a b : Ty} (ha : a.WellFormed) (hab : a.same b = true) :
    a.Alike b := by
  induction a using Ty.induct generalizing b with
  | leaf t hm ho hf =>
    by_cases hx : ∃ x, t = .float x
    · obtain ⟨x, rfl⟩ := hx
      obtain ⟨y, rfl, hxy⟩ := Ty.float_same_iff.1 hab
      have hyx : sameFloat y x = true := by rwa [sameFloat_comm]
      exact ⟨Ty.float_same_iff.2 ⟨x, rfl, hyx⟩, by simp [Ty.matches, refinesFloat, hxy],
        by simp [Ty.matches, refinesFloat, hyx]⟩
    · have hx' : ∀ x, t ≠ .float x := fun x he => hx ⟨x, he⟩
      obtain rfl := (Ty.leaf_same_iff hm ho hf hx').1 hab
      have hself := Ty.leaf_matches_self (h := .flat) (by simp [sameName]) hm ho hf hx'
      exact ⟨hab, hself, hself⟩
  | map u ih =>
    rw [Ty.WellFormed] at ha
    obtain ⟨v, rfl, huv⟩ := Ty.map_same_iff.1 hab
    obtain ⟨hvu, hle, hge⟩ := TyUnion.alike_of ha (fun t ht b => ih t ht (ha.mem t ht)) huv
    exact ⟨Ty.map_same_iff.2 ⟨u, rfl, hvu⟩,
      by simp [Ty.matches, TyUnion.membersMatch_of_allComply hle],
      by simp [Ty.matches, TyUnion.membersMatch_of_allComply hge]⟩
  | list u ih =>
    rw [Ty.WellFormed] at ha
    obtain ⟨v, rfl, huv⟩ := Ty.list_same_iff.1 hab
    obtain ⟨hvu, hle, hge⟩ := TyUnion.alike_of ha (fun t ht b => ih t ht (ha.mem t ht)) huv
    exact ⟨Ty.list_same_iff.2 ⟨u, rfl, hvu⟩,
      by simp [Ty.matches, TyUnion.membersMatch_of_allComply hle],
      by simp [Ty.matches, TyUnion.membersMatch_of_allComply hge]⟩
  | function f ihp ihr =>
    rw [Ty.WellFormed, Signature.wellFormed_iff] at ha
    obtain ⟨g, rfl, hfg⟩ := Ty.function_same_iff.1 hab
    obtain ⟨hn, hp, hr, hd, hc, hany⟩ := Signature.same_iff.1 hfg
    obtain ⟨hr', hle, hge⟩ := TyUnion.alike_of ha.2 (fun t ht b => ihr t ht (ha.2.mem t ht)) hr
    obtain ⟨hp', hple, hpge, hlen, hreq⟩ := sameParams_alike_of (fun p hp u hu v huv =>
      TyUnion.alike_of (ha.1 p hp u hu) (fun t ht b => ihp p hp u hu t ht
        ((ha.1 p hp u hu).mem t ht)) huv) hp
    have hfew : ∀ k : Signature, k.requiredCount ≤ k.params.length := fun k =>
      List.length_filter_le _ _
    have hfg' := hfew f
    have hgf' := hfew g
    rw [Signature.requiredCount] at hfg' hgf'
    refine ⟨Ty.function_same_iff.2 ⟨f, rfl, Signature.same_iff.2 ⟨hn.symm, hp', hr', hd.symm,
      hc.symm, hany.symm⟩⟩, ?_, ?_⟩
    · simp [Ty.matches, Signature.matches, Signature.requiredCount, hple, hle, hreq, hgf']
    · simp [Ty.matches, Signature.matches, Signature.requiredCount, hpge, hge, ← hreq, hfg']
  | optional c s ih =>
    rw [Ty.WellFormed] at ha
    obtain ⟨d, rfl, hcd⟩ := Ty.optional_same_iff.1 hab
    exact (ih ha.1 hcd).optional ha.2.1 ha.2.2 s

theorem TyUnion.WellFormed.same_symm {u v : TyUnion} (hu : u.WellFormed) (huv : u.same v = true) :
    v.same u = true :=
  (alike_of hu (fun t ht _ => (hu.mem t ht).alike) huv).1

/-- Equality of unions is equality of the sets of their members. -/
theorem TyUnion.WellFormed.same_iff_forall {u v : TyUnion} (hu : u.WellFormed) (hv : v.WellFormed) :
    u.same v = true ↔ (∀ x ∈ u.members, ∃ y ∈ v.members, x.same y = true) ∧
      ∀ y ∈ v.members, ∃ x ∈ u.members, y.same x = true := by
  constructor
  · intro huv
    exact ⟨(same_iff.1 huv).2, (same_iff.1 (hu.same_symm huv)).2⟩
  · rintro ⟨hle, hge⟩
    have hu' := (wellFormed_iff.1 hu).2.pairwise_same fun t ht _ => (hu.mem t ht).alike
    have hv' := (wellFormed_iff.1 hv).2.pairwise_same fun t ht _ => (hv.mem t ht).alike
    exact same_iff.2 ⟨Nat.le_antisymm (length_le_of_pairwise hu' hle)
      (length_le_of_pairwise hv' hge), hle⟩

/-- A well-formed type may be used as itself. -/
theorem Ty.WellFormed.matches_self {t : Ty} (ht : t.WellFormed) : t.matches .flat t = true :=
  (ht.alike ht.same_self).le

end PhpCheck
