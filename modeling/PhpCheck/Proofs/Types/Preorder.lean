import PhpCheck.Proofs.Types.Arrays

/-!
The subtype test is a preorder, its wildcards apart.

Every type may be used as itself, and so may every union, wherever a class counts as
its own heir.  Using one type as another and that as a third is using the first as the
third, unless there is a wildcard in between: a function takes texts and arrays, an
array with members of no known type takes every array, and a union that is `mixed`
takes all.  Types without these are `Ty.isDefinite`.

Transitivity follows the recursion of the test, which goes from arrays to their member
types and from an optional type to its content and sentinels.  So the three statements
about types, about one type in a union, and about a type whose parts find their places
apart are proved together, by the sum of the sizes.
-/

namespace PhpCheck

/-! ### Reflexivity -/

section

variable {h : Hierarchy}

theorem allComply_refl_of {ts : List Ty} (ih : ∀ t ∈ ts, t.matches h t = true) :
    allComply h ts ts = true :=
  allComply_iff.2 fun t ht => .inr (.inl (matchesAny_iff.2 ⟨t, ht, ih t ht⟩))

theorem paramsMatch_refl_of {ps : List Param}
    (ih : ∀ p ∈ ps, ∀ u, p.ty = some u → allComply h u.members u.members = true) :
    paramsMatch h ps ps = true := by
  induction ps with
  | nil => simp [paramsMatch]
  | cons p ps ihps =>
    obtain ⟨ihp, ih⟩ := List.forall_mem_cons.1 ih
    have hrest := ihps ih
    obtain ⟨_, ty, _, _, _⟩ := p
    cases ty with
    | none => simpa [paramsMatch] using hrest
    | some u => simp [paramsMatch, hrest, ihp u rfl]

theorem Signature.matches_refl_of {f : Signature} (hp : paramsMatch h f.params f.params = true)
    (hr : allComply h f.result.members f.result.members = true) : f.matches h f = true := by
  have hfew : f.requiredCount ≤ f.params.length := List.length_filter_le _ _
  simp [Signature.matches, hp, hr, hfew]

variable (hh : ∀ name, h.isSubclass name name = true)

include hh

theorem Ty.WellFormed.matches_refl {t : Ty} (ht : t.WellFormed) : t.matches h t = true := by
  induction t using Ty.induct with
  | leaf t hm ho hf =>
    by_cases hx : ∃ x, t = .float x
    · obtain ⟨x, rfl⟩ := hx
      cases x with
      | none => simp [Ty.matches, refinesFloat]
      | some d =>
        have hd : d.isNaN = false := by simpa [Ty.WellFormed] using ht
        simp [Ty.matches, refinesFloat, sameFloat, Double.same, hd]
    · exact Ty.leaf_matches_self hh hm ho hf fun x he => hx ⟨x, he⟩
  | map u ih | list u ih =>
    rw [Ty.WellFormed] at ht
    rw [Ty.array_matches rfl rfl]
    exact TyUnion.membersMatch_of_allComply (allComply_refl_of fun t hm => ih t hm (ht.mem t hm))
  | function f ihp ihr =>
    rw [Ty.WellFormed, Signature.wellFormed_iff] at ht
    have hparams := paramsMatch_refl_of fun p hp u hu =>
      allComply_refl_of fun t hm => ihp p hp u hu t hm ((ht.1 p hp u hu).mem t hm)
    have hresult := allComply_refl_of fun t hm => ihr t hm (ht.2.mem t hm)
    rw [Ty.matches]
    exact Signature.matches_refl_of hparams hresult
  | optional c s ih =>
    rw [Ty.WellFormed] at ht
    rw [Ty.optional_matches (by simp) (by simp)]
    exact ⟨Ty.matches_optional_of_matches ht.2.2 ht.2.1 (ih ht.1), fun t hs =>
      Sentinel.types_match hs⟩

theorem TyUnion.WellFormed.compliesWith_refl {u : TyUnion} (hu : u.WellFormed) :
    u.compliesWith h u = true :=
  compliesWith_iff.2 (.inr (allComply_refl_of fun t ht => (hu.mem t ht).matches_refl hh))

end

/-! ### Types without wildcards -/

/-- Whether `mixed` is an alternative of a type. -/
def Ty.admitsMixed : Ty → Bool
  | .mixed => true
  | .optional content _ => content.admitsMixed
  | _ => false

mutual

/-- No function type, and only arrays whose member types are definite. -/
def Ty.isDefinite (t : Ty) : Bool :=
  match t with
  | .function _ => false
  | .map member => member.isDefinite
  | .list member => member.isDefinite
  | .optional content _ => content.isDefinite
  | _ => true
termination_by structural t

/-- There are alternatives, and `mixed` is none of them. -/
def TyUnion.isDefinite (u : TyUnion) : Bool :=
  match u with
  | ⟨members⟩ => !members.isEmpty && allDefinite members
termination_by structural u

def allDefinite (ts : List Ty) : Bool :=
  match ts with
  | [] => true
  | t :: ts => !t.admitsMixed && t.isDefinite && allDefinite ts
termination_by structural ts

end

theorem allDefinite_iff {ts : List Ty} :
    allDefinite ts = true ↔ ∀ t ∈ ts, t.admitsMixed = false ∧ t.isDefinite = true := by
  induction ts with
  | nil => simp [allDefinite]
  | cons t ts ih => simp [allDefinite, ih]

theorem TyUnion.isDefinite_iff {u : TyUnion} :
    u.isDefinite = true ↔
      u.members ≠ [] ∧ ∀ t ∈ u.members, t.admitsMixed = false ∧ t.isDefinite = true := by
  obtain ⟨ts⟩ := u
  rw [TyUnion.isDefinite, Bool.and_eq_true, allDefinite_iff]
  simp

theorem Ty.isDefinite_member {t : Ty} {u : TyUnion} (hu : t.member? = some u) :
    t.isDefinite = u.isDefinite := by
  cases t <;> simp_all [Ty.member?, Ty.isDefinite]

theorem Ty.isDefinite_part {t p : Ty} (ht : t.isDefinite = true) (hp : p ∈ t.parts) :
    p.isDefinite = true := by
  cases t with
  | optional c s =>
    rcases List.mem_cons.1 hp with rfl | hp
    · simpa [Ty.isDefinite] using ht
    · rcases Sentinel.eq_of_mem hp with rfl | rfl <;> rfl
  | _ => exact List.mem_singleton.1 hp ▸ ht

theorem Ty.admitsMixed_part {t p : Ty} (ht : t.admitsMixed = false) (hp : p ∈ t.parts) :
    p.admitsMixed = false := by
  cases t with
  | optional c s =>
    rcases List.mem_cons.1 hp with rfl | hp
    · simpa [Ty.admitsMixed] using ht
    · rcases Sentinel.eq_of_mem hp with rfl | rfl <;> rfl
  | _ => exact List.mem_singleton.1 hp ▸ ht

theorem Ty.ne_function_of_isDefinite {t : Ty} (ht : t.isDefinite = true) (f : Signature) :
    t ≠ .function f := by
  rintro rfl
  simp [Ty.isDefinite] at ht

theorem TyUnion.isMixed_of_isDefinite {u : TyUnion} (hu : u.isDefinite = true) :
    u.isMixed = false := by
  obtain ⟨-, hall⟩ := isDefinite_iff.1 hu
  obtain ⟨ts⟩ := u
  match ts with
  | [] | _ :: _ :: _ => simp [TyUnion.isMixed]
  | [t] =>
    obtain ⟨ht, -⟩ := hall t (by simp)
    cases t <;> simp_all [TyUnion.isMixed, Ty.admitsMixed]

/-- Definite arrays match when their member types comply. -/
theorem TyUnion.membersMatch_of_isDefinite {h : Hierarchy} {u e : TyUnion}
    (hu : u.isDefinite = true) (he : e.isDefinite = true) :
    u.membersMatch h e = true ↔ allComply h u.members e.members = true := by
  rw [membersMatch_iff, compliesWith_iff, isMixed_of_isDefinite he]
  simp [(isDefinite_iff.1 hu).1, (isDefinite_iff.1 he).1]

/-! ### Transitivity -/

theorem Ty.size_lt_of_mem_parts {t p : Ty} (ho : t.isOptional = true) (hp : p ∈ t.parts) :
    p.size < t.size := by
  obtain ⟨c, s, rfl⟩ := eq_optional ho
  rcases List.mem_cons.1 hp with rfl | hp
  · simp [Ty.size]
  · rcases Sentinel.eq_of_mem hp with rfl | rfl <;> simp [Ty.size]

theorem Ty.totalSize_lt_of_member {t : Ty} {u : TyUnion} (hu : t.member? = some u) :
    totalSize u.members < t.size := by
  obtain ⟨ts⟩ := u
  cases t <;> simp [Ty.member?] at hu <;> simp only [hu, Ty.size, TyUnion.size] <;> omega

theorem Ty.mixed_or_optional_or_atom (t : Ty) :
    t = .mixed ∨ t.isOptional = true ∨ t.isAtom = true := by
  cases t <;> simp [Ty.isOptional, Ty.isAtom]

section

variable {h : Hierarchy}

/-- Where there are alternatives, an optional type finds its place as a whole or each of
its parts does. -/
theorem Ty.complies_iff_parts {t : Ty} {es : List Ty} (hes : es ≠ []) :
    t.Complies h es ↔ t.isMixed = true ∨ matchesAny h t es = true ∨
      t.isOptional = true ∧ ∀ p ∈ t.parts, p.Complies h es := by
  have hvoid : Ty.void.Complies h es := by
    obtain ⟨e, he⟩ := List.exists_mem_of_ne_nil es hes
    exact .inr (.inl (matchesAny_iff.2 ⟨e, he, Ty.void_matches e⟩))
  have halone : ∀ c : Ty, allComply h c.alone es = true ↔ c.Complies h es := by
    intro c
    rw [allComply_iff]
    cases c <;> simp [Ty.alone, hvoid]
  cases t with
  | optional c s =>
    rw [Ty.parts, List.forall_mem_cons, ← halone c, ← allComply_iff]
    simp [Ty.Complies, Ty.isOptional]
  | _ => simp [Ty.Complies, Ty.isOptional]

/-- Atoms that are no functions may be used only as atoms of their own sort. -/
theorem Ty.matches_trans_of_atoms (hh : h.Coherent) {a b c : Ty} (ha : a.isAtom = true)
    (hb : b.isAtom = true) (hc : c.isAtom = true) (hda : a.isDefinite = true)
    (hdb : b.isDefinite = true) (hdc : c.isDefinite = true)
    (harrays : ∀ x y z, a.member? = some x → b.member? = some y → c.member? = some z →
      allComply h x.members y.members = true → allComply h y.members z.members = true →
      allComply h x.members z.members = true)
    (hab : a.matches h b = true) (hbc : b.matches h c = true) : a.matches h c = true := by
  have hfb := ne_function_of_isDefinite hdb
  have hfc := ne_function_of_isDefinite hdc
  have hsort : a = .void ∨ a.isScalar = true ∨ a.isArray = true := by
    cases a <;> simp_all [Ty.isAtom, Ty.isDefinite, Ty.isScalar, Ty.isArray]
  rcases hsort with rfl | hs | harr
  · exact Ty.void_matches c
  · have hsb := isScalar_of_matches hs hb hfb hab
    have hsc := isScalar_of_matches hsb hc hfc hbc
    exact scalar_trans hh hs hsb hsc hab hbc
  · have harrb := isArray_of_matches harr hb hfb hab
    obtain ⟨x, hx⟩ := isArray_iff.1 harr
    obtain ⟨y, hy⟩ := isArray_iff.1 harrb
    obtain ⟨z, hz⟩ := isArray_iff.1 (isArray_of_matches harrb hc hfc hbc)
    rw [isDefinite_member hx] at hda
    rw [isDefinite_member hy] at hdb
    rw [isDefinite_member hz] at hdc
    rw [array_matches hx hy, TyUnion.membersMatch_of_isDefinite hda hdb] at hab
    rw [array_matches hy hz, TyUnion.membersMatch_of_isDefinite hdb hdc] at hbc
    rw [array_matches hx hz, TyUnion.membersMatch_of_isDefinite hda hdc]
    exact harrays x y z hx hy hz hab hbc

mutual

/-- A definite type that may be used as another may be used as all that this may be used
as. -/
theorem Ty.matches_trans (hh : h.Coherent) {a b c : Ty} (ha : a.isDefinite = true)
    (hb : b.isDefinite = true) (hc : c.isDefinite = true) (hab : a.matches h b = true)
    (hbc : b.matches h c = true) : a.matches h c = true := by
  -- Optional types are taken apart from left to right, as the test does it.
  rcases a.mixed_or_optional_or_atom with rfl | hao | hatoma
  · cases b <;> simp [Ty.isMixed] at hab
    exact hbc
  · refine Ty.matches_iff_all_parts.2 fun p hp => ?_
    have := Ty.size_lt_of_mem_parts hao hp
    exact Ty.matches_trans hh (Ty.isDefinite_part ha hp) hb hc (Ty.part_matches hab hp) hbc
  rcases b.mixed_or_optional_or_atom with rfl | hbo | hatomb
  · cases c <;> simp [Ty.isMixed] at hbc
    exact Ty.matches_mixed a
  · obtain ⟨q, hq, haq⟩ := (Ty.matches_iff_parts hatoma).1 hab
    have := Ty.size_lt_of_mem_parts hbo hq
    exact Ty.matches_trans hh ha (Ty.isDefinite_part hb hq) hc haq (Ty.part_matches hbc hq)
  rcases c.mixed_or_optional_or_atom with rfl | hco | hatomc
  · exact Ty.matches_mixed a
  · obtain ⟨q, hq, hbq⟩ := (Ty.matches_iff_parts hatomb).1 hbc
    have := Ty.size_lt_of_mem_parts hco hq
    have haq := Ty.matches_trans hh ha hb (Ty.isDefinite_part hc hq) hab hbq
    exact (Ty.matches_iff_parts hatoma).2 ⟨q, hq, haq⟩
  refine Ty.matches_trans_of_atoms hh hatoma hatomb hatomc ha hb hc ?_ hab hbc
  intro x y z hx hy hz hxy hyz
  rw [Ty.isDefinite_member hx] at ha
  rw [Ty.isDefinite_member hy] at hb
  rw [Ty.isDefinite_member hz] at hc
  refine allComply_iff.2 fun t ht => ?_
  have := Ty.size_lt_totalSize ht
  have := Ty.totalSize_lt_of_member hx
  have := Ty.totalSize_lt_of_member hy
  have := Ty.totalSize_lt_of_member hz
  exact Ty.complies_trans hh ((TyUnion.isDefinite_iff.1 ha).2 t ht).2 hb hc
    (allComply_iff.1 hxy t ht) (allComply_iff.1 hyz)
termination_by a.size + b.size + c.size

/-- What may be used as a type finds its place wherever that does. -/
theorem Ty.complies_of_matches (hh : h.Coherent) {t e : Ty} {w : TyUnion}
    (ht : t.isDefinite = true) (he : e.isDefinite = true) (hem : e.admitsMixed = false)
    (hw : w.isDefinite = true) (hte : t.matches h e = true) (hew : e.Complies h w.members) :
    t.Complies h w.members := by
  obtain ⟨hne, hall⟩ := TyUnion.isDefinite_iff.1 hw
  rcases (Ty.complies_iff_parts hne).1 hew with hm | hany | ⟨heo, hparts⟩
  · cases e <;> simp_all [Ty.isMixed, Ty.admitsMixed]
  · obtain ⟨c, hc, hec⟩ := matchesAny_iff.1 hany
    have := Ty.size_lt_totalSize hc
    have htc := Ty.matches_trans hh ht he (hall c hc).2 hte hec
    exact .inr (.inl (matchesAny_iff.2 ⟨c, hc, htc⟩))
  · rcases t.mixed_or_optional_or_atom with rfl | hto | hatom
    · exact .inl rfl
    · refine (Ty.complies_iff_parts hne).2 (.inr (.inr ⟨hto, fun p hp => ?_⟩))
      have := Ty.size_lt_of_mem_parts hto hp
      exact Ty.complies_of_matches hh (Ty.isDefinite_part ht hp) he hem hw
        (Ty.part_matches hte hp) hew
    · obtain ⟨q, hq, htq⟩ := (Ty.matches_iff_parts hatom).1 hte
      have := Ty.size_lt_of_mem_parts heo hq
      exact Ty.complies_of_matches hh ht (Ty.isDefinite_part he hq) (Ty.admitsMixed_part hem hq)
        hw htq (hparts q hq)
termination_by t.size + e.size + totalSize w.members

/-- What finds its place in a union finds its place wherever all members of that do. -/
theorem Ty.complies_trans (hh : h.Coherent) {t : Ty} {v w : TyUnion} (ht : t.isDefinite = true)
    (hv : v.isDefinite = true) (hw : w.isDefinite = true) (htv : t.Complies h v.members)
    (hvw : ∀ e ∈ v.members, e.Complies h w.members) : t.Complies h w.members := by
  obtain ⟨hnev, hall⟩ := TyUnion.isDefinite_iff.1 hv
  obtain ⟨hnew, -⟩ := TyUnion.isDefinite_iff.1 hw
  rcases (Ty.complies_iff_parts hnev).1 htv with hm | hany | ⟨hto, hparts⟩
  · exact .inl hm
  · obtain ⟨e, he, hte⟩ := matchesAny_iff.1 hany
    have := Ty.size_lt_totalSize he
    exact Ty.complies_of_matches hh ht (hall e he).2 (hall e he).1 hw hte (hvw e he)
  · refine (Ty.complies_iff_parts hnew).2 (.inr (.inr ⟨hto, fun p hp => ?_⟩))
    have := Ty.size_lt_of_mem_parts hto hp
    exact Ty.complies_trans hh (Ty.isDefinite_part ht hp) hv hw (hparts p hp) hvw
termination_by t.size + totalSize v.members + totalSize w.members

end

theorem TyUnion.compliesWith_trans (hh : h.Coherent) {u v w : TyUnion} (hu : u.isDefinite = true)
    (hv : v.isDefinite = true) (hw : w.isDefinite = true) (huv : u.compliesWith h v = true)
    (hvw : v.compliesWith h w = true) : u.compliesWith h w = true := by
  rw [compliesWith_iff, isMixed_of_isDefinite hv, allComply_iff] at huv
  rw [compliesWith_iff, isMixed_of_isDefinite hw, allComply_iff] at hvw
  have huv := huv.resolve_left (by simp)
  have hvw := hvw.resolve_left (by simp)
  refine compliesWith_iff.2 (.inr (allComply_iff.2 fun t ht => ?_))
  exact Ty.complies_trans hh ((isDefinite_iff.1 hu).2 t ht).2 hv hw (huv t ht) hvw

end

/-- The subtype test is reflexive where every class is its own heir, and transitive on
definite types where heirs of heirs are heirs and convert to text like them; and so is
compliance of unions. -/
theorem Hierarchy.matches_preorder (h : Hierarchy) :
    ((∀ name, h.isSubclass name name = true) →
      (∀ t : Ty, t.Reachable → t.matches h t = true) ∧
      ∀ u : TyUnion, u.Reachable → u.compliesWith h u = true) ∧
    (h.Coherent →
      (∀ a b c : Ty, a.isDefinite = true → b.isDefinite = true → c.isDefinite = true →
        a.matches h b = true → b.matches h c = true → a.matches h c = true) ∧
      ∀ u v w : TyUnion, u.isDefinite = true → v.isDefinite = true → w.isDefinite = true →
        u.compliesWith h v = true → v.compliesWith h w = true → u.compliesWith h w = true) :=
  ⟨fun hh => ⟨fun _ ht => ht.wellFormed.matches_refl hh,
      fun _ hu => hu.wellFormed.compliesWith_refl hh⟩,
    fun hh => ⟨fun _ _ _ => Ty.matches_trans hh, fun _ _ _ => TyUnion.compliesWith_trans hh⟩⟩

/-- Circles are shapes, and shapes convert to text. -/
def Hierarchy.shapes : Hierarchy where
  isSubclass a b := a == b || (a == "Circle" && b == "Shape")
  isStringable a := a == "Circle" || a == "Shape"

/-- A list of circles or null is an array of shapes, null or `false`, and that a list of
texts, null or `false`. -/
theorem Hierarchy.shapes_preorder :
    let circles := Ty.optional (.list ⟨[.object "Circle"]⟩) .null
    let texts := Ty.optional (.list ⟨[.string none]⟩) .both
    circles.matches .shapes circles = true ∧ circles.matches .shapes texts = true := by
  intro circles texts
  have hself : ∀ name, Hierarchy.shapes.isSubclass name name = true := by
    simp [Hierarchy.shapes]
  have hcoherent : Hierarchy.shapes.Coherent := by
    constructor <;> simp +contextual [Hierarchy.shapes] <;> grind
  have hone : TyUnion.empty.add (.object "Circle") = ⟨[.object "Circle"]⟩ := by
    simp [TyUnion.add, TyUnion.empty, addWith, merge?, pick?, maxMembers]
  have hlist : (Ty.list ⟨[.object "Circle"]⟩).Reachable :=
    .list (hone ▸ .add .empty (.object "Circle"))
  obtain ⟨hrefl, htrans⟩ := Hierarchy.matches_preorder .shapes
  refine ⟨(hrefl hself).1 circles (.optional hlist .null), (htrans hcoherent).1 circles
    (.optional (.map ⟨[.object "Shape"]⟩) .both) texts rfl rfl rfl ?_ ?_⟩
  · simp [circles, Ty.matches, allMatch, Sentinel.types, Sentinel.ofTy?, Sentinel.contains,
      TyUnion.membersMatch, allComply, matchesAny, Hierarchy.shapes]
  · simp [texts, Ty.matches, allMatch, Sentinel.types, Sentinel.ofTy?, Sentinel.contains,
      TyUnion.membersMatch, allComply, matchesAny, Hierarchy.shapes]

end PhpCheck
