import PhpCheck.Proofs.Types.Combining

/-!
Well-formed types and unions.

A union is `Separate` when its members stand side by side for a reason: there are
not too many, none is empty, `mixed` is alone, and no two of them can be merged.
A type is well formed when all unions inside it are separate, no optional type has
`mixed` or another optional type for its content, and no refinement is other than
a number.  Merging, joining and every operation on unions keeps both.
-/

namespace PhpCheck

/-- Members that cannot be made fewer. -/
structure Separate (ts : List Ty) : Prop where
  length_le : ts.length ≤ maxMembers
  void_not_mem : Ty.void ∉ ts
  mixed_alone : Ty.mixed ∈ ts → ts = [.mixed]
  apart : ts.Pairwise fun a b => a.combine? b = none

mutual

def Ty.WellFormed (t : Ty) : Prop :=
  match t with
  | .float (some d) => d.isNaN = false
  | .map member => member.WellFormed
  | .list member => member.WellFormed
  | .function signature => signature.WellFormed
  | .optional content _ =>
    content.WellFormed ∧ content.isMixed = false ∧ content.isOptional = false
  | _ => True
termination_by structural t

def TyUnion.WellFormed (u : TyUnion) : Prop :=
  match u with
  | ⟨members⟩ => allWellFormed members ∧ Separate members
termination_by structural u

def allWellFormed (ts : List Ty) : Prop :=
  match ts with
  | [] => True
  | t :: ts => t.WellFormed ∧ allWellFormed ts
termination_by structural ts

def Signature.WellFormed (f : Signature) : Prop :=
  match f with
  | ⟨_, params, result, _, _, _⟩ => paramsWellFormed params ∧ result.WellFormed
termination_by structural f

def paramsWellFormed (ps : List Param) : Prop :=
  match ps with
  | [] => True
  | p :: ps => p.WellFormed ∧ paramsWellFormed ps
termination_by structural ps

def Param.WellFormed (p : Param) : Prop :=
  match p with
  | ⟨_, ty, _, _, _⟩ => unionWellFormed? ty
termination_by structural p

def unionWellFormed? (u : Option TyUnion) : Prop :=
  match u with
  | none => True
  | some u => u.WellFormed
termination_by structural u

end

section

attribute [local simp] Ty.WellFormed TyUnion.WellFormed allWellFormed Signature.WellFormed
  paramsWellFormed Param.WellFormed unionWellFormed?

theorem allWellFormed_iff {ts : List Ty} : allWellFormed ts ↔ ∀ t ∈ ts, t.WellFormed := by
  induction ts with
  | nil => simp
  | cons t ts ih => simp [ih]

theorem paramsWellFormed_iff {ps : List Param} :
    paramsWellFormed ps ↔ ∀ p ∈ ps, ∀ u, p.ty = some u → u.WellFormed := by
  induction ps with
  | nil => simp
  | cons p ps ih =>
    obtain ⟨_, ty, _, _, _⟩ := p
    cases ty <;> simp [ih]

theorem TyUnion.wellFormed_iff {u : TyUnion} :
    u.WellFormed ↔ (∀ t ∈ u.members, t.WellFormed) ∧ Separate u.members := by
  obtain ⟨ts⟩ := u
  simp [allWellFormed_iff]

theorem TyUnion.WellFormed.mem {u : TyUnion} (hu : u.WellFormed) : ∀ t ∈ u.members, t.WellFormed :=
  (wellFormed_iff.1 hu).1

theorem Signature.wellFormed_iff {f : Signature} :
    f.WellFormed ↔ (∀ p ∈ f.params, ∀ u, p.ty = some u → u.WellFormed) ∧ f.result.WellFormed := by
  obtain ⟨_, ps, _, _, _, _⟩ := f
  simp [paramsWellFormed_iff]

end

theorem Separate.nil : Separate [] := ⟨by decide, by simp, by simp, .nil⟩

theorem Separate.mixed : Separate [.mixed] := ⟨by decide, by simp, by simp, by simp⟩

theorem TyUnion.wellFormed_empty : TyUnion.empty.WellFormed :=
  TyUnion.wellFormed_iff.2 ⟨by simp [TyUnion.empty], Separate.nil⟩

theorem TyUnion.wellFormed_mixed : TyUnion.mixed.WellFormed :=
  TyUnion.wellFormed_iff.2 ⟨by simp [TyUnion.mixed, Ty.WellFormed], Separate.mixed⟩

/-! ### Merging and adding -/

theorem Ty.WellFormed.makeOptional {c : Ty} (hc : c.WellFormed) (s : Sentinel) :
    (c.makeOptional s).WellFormed := by
  cases c <;> simp_all [Ty.makeOptional, Ty.WellFormed, Ty.isMixed, Ty.isOptional]

theorem Ty.wellFormed_callable : Ty.callable.WellFormed := by
  have hm : TyUnion.WellFormed ⟨[.mixed]⟩ := TyUnion.wellFormed_mixed
  simp [Ty.callable, Ty.WellFormed, Signature.wellFormed_iff, Signature.callable, hm]

theorem Ty.WellFormed.member {t : Ty} {u : TyUnion} (ht : t.WellFormed) (hu : t.member? = some u) :
    u.WellFormed := by
  cases t <;> simp_all [Ty.member?, Ty.WellFormed]

theorem mergeClosed_wellFormed {j : TyUnion → TyUnion → TyUnion}
    (hj : ∀ x y : TyUnion, x.WellFormed → y.WellFormed → (j x y).WellFormed) :
    MergeClosed j Ty.WellFormed where
  bool := by simp [Ty.WellFormed]
  int := by simp [Ty.WellFormed]
  float := by simp [Ty.WellFormed]
  string := by simp [Ty.WellFormed]
  callable _ := Ty.wellFormed_callable
  array hx hy ha hb := by
    have hxy := hj _ _ (ha.member hx) (hb.member hy)
    exact ⟨by simpa [Ty.WellFormed] using hxy, by simpa [Ty.WellFormed] using hxy⟩
  content hc := by
    rw [Ty.WellFormed] at hc
    exact hc.1
  makeOptional s hc := hc.makeOptional s

/-- A property that merging keeps is kept by adding a type to some members. -/
theorem addWith_keeps {j : TyUnion → TyUnion → TyUnion} {K : Ty → Prop} (hK : MergeClosed j K)
    (hmixed : K .mixed) {ms : List Ty} {t : Ty} (hl : ms.length ≤ maxMembers)
    (hms : ∀ m ∈ ms, K m) (ht : K t) : ∀ m ∈ addWith (Ty.combineWith j) ms t, K m := by
  have hone : ∀ m ∈ [Ty.mixed], K m := by simpa using hmixed
  refine (addWith_induct (motive := fun ms t res => (∀ m ∈ ms, K m) → K t → ∀ m ∈ res, K m)
    ?_ ?_ ?_ ?_ ?_ ?_ ms t hl).1 hms ht
  · exact fun ms hms _ => hms
  · exact fun ms _ _ => hone
  · exact fun t _ _ => hone
  · intro pre m post t r _ _ _ hr ih hms ht
    have hrest : ∀ x ∈ pre ++ post, K x := fun x hx => hms x (mem_of_mem_rest m hx)
    exact ih hrest ((Ty.combines_of_combineWith hr).keeps hK (hms m (by simp)) ht)
  · intro ms t _ _ _ _ _ hms ht m hm
    rcases List.mem_append.1 hm with hm | hm
    · exact hms m hm
    · rw [List.mem_singleton.1 hm]
      exact ht
  · exact fun ms t _ _ _ _ _ _ _ => hone

theorem Separate.remove {pre post : List Ty} {m : Ty} (hs : Separate (pre ++ m :: post))
    (hne : pre ++ m :: post ≠ [.mixed]) : Separate (pre ++ post) := by
  have hsub : (pre ++ post).Sublist (pre ++ m :: post) :=
    (List.sublist_cons_self m post).append_left pre
  refine ⟨Nat.le_trans hsub.length_le hs.length_le, fun hv => hs.void_not_mem (hsub.mem hv),
    fun hm => absurd (hs.mixed_alone (hsub.mem hm)) hne, hs.apart.sublist hsub⟩

theorem Separate.addWith {j : TyUnion → TyUnion → TyUnion} {ms : List Ty} (hs : Separate ms)
    (t : Ty) : Separate (addWith (Ty.combineWith j) ms t) := by
  refine (addWith_induct (motive := fun ms _ res => Separate ms → Separate res)
    ?_ ?_ ?_ ?_ ?_ ?_ ms t hs.length_le).1 hs
  · exact fun ms hs => hs
  · exact fun ms _ => Separate.mixed
  · exact fun t _ => Separate.mixed
  · exact fun pre m post t r _ _ hne _ ih hs => ih (hs.remove hne)
  · intro ms t hv hx hne hn hlt hs
    refine ⟨?_, ?_, ?_, ?_⟩
    · rw [List.length_append, List.length_singleton]
      exact hlt
    · simpa [hs.void_not_mem] using fun h => hv h.symm
    · intro hm
      rcases List.mem_append.1 hm with hm | hm
      · exact absurd (hs.mixed_alone hm) hne
      · exact absurd (List.mem_singleton.1 hm).symm hx
    · rw [List.pairwise_append]
      refine ⟨hs.apart, List.pairwise_singleton _ _, fun a ha b hb => ?_⟩
      rw [List.mem_singleton.1 hb]
      exact (Ty.combineWith_eq_none_iff j).1 (hn a ha)
  · exact fun ms t _ _ _ _ _ _ => Separate.mixed

theorem wellFormed_addWith {j : TyUnion → TyUnion → TyUnion}
    (hj : ∀ x y : TyUnion, x.WellFormed → y.WellFormed → (j x y).WellFormed) {ms : List Ty} {t : Ty}
    (hms : TyUnion.WellFormed ⟨ms⟩) (ht : t.WellFormed) :
    TyUnion.WellFormed ⟨addWith (Ty.combineWith j) ms t⟩ := by
  obtain ⟨hall, hs⟩ := TyUnion.wellFormed_iff.1 hms
  exact TyUnion.wellFormed_iff.2 ⟨addWith_keeps (mergeClosed_wellFormed hj)
    (by simp [Ty.WellFormed]) hs.length_le hall ht, hs.addWith t⟩

theorem wellFormed_foldl_addWith {j : TyUnion → TyUnion → TyUnion}
    (hj : ∀ x y : TyUnion, x.WellFormed → y.WellFormed → (j x y).WellFormed) {ms ts : List Ty}
    (hms : TyUnion.WellFormed ⟨ms⟩) (hts : ∀ t ∈ ts, t.WellFormed) :
    TyUnion.WellFormed ⟨ts.foldl (addWith (Ty.combineWith j)) ms⟩ := by
  induction ts generalizing ms with
  | nil => exact hms
  | cons t ts ih =>
    obtain ⟨ht, hts⟩ := List.forall_mem_cons.1 hts
    exact ih (wellFormed_addWith hj hms ht) hts

/-- Joining keeps unions well formed, whatever the bound on the nesting of arrays. -/
theorem wellFormed_joinWithin (d : Nat) (x y : TyUnion) (hx : x.WellFormed) (hy : y.WellFormed) :
    (joinWithin d x y).WellFormed := by
  induction d generalizing x y with
  | zero => exact hx
  | succ d ih =>
    obtain ⟨ms⟩ := x
    exact wellFormed_foldl_addWith ih hx hy.mem

theorem TyUnion.WellFormed.add {u : TyUnion} {t : Ty} (hu : u.WellFormed) (ht : t.WellFormed) :
    (u.add t).WellFormed := by
  obtain ⟨ms⟩ := u
  exact wellFormed_addWith (wellFormed_joinWithin _) hu ht

theorem TyUnion.wellFormed_foldl_add {u : TyUnion} {ts : List Ty} (hu : u.WellFormed)
    (hts : ∀ t ∈ ts, t.WellFormed) : (ts.foldl add u).WellFormed := by
  induction ts generalizing u with
  | nil => exact hu
  | cons t ts ih =>
    obtain ⟨ht, hts⟩ := List.forall_mem_cons.1 hts
    exact ih (hu.add ht) hts

theorem TyUnion.wellFormed_ofList {ts : List Ty} (hts : ∀ t ∈ ts, t.WellFormed) :
    (ofList ts).WellFormed :=
  wellFormed_foldl_add wellFormed_empty hts

theorem TyUnion.WellFormed.union {u v : TyUnion} (hu : u.WellFormed) (hv : v.WellFormed) :
    (u.union v).WellFormed :=
  wellFormed_foldl_add hu hv.mem

/-! ### The other operations

Each lists some types and adds them up, so it is enough that the listed types are
well formed. -/

theorem Sentinel.wellFormed_types (s : Sentinel) : ∀ t ∈ s.types, t.WellFormed := by
  cases s <;> simp [Sentinel.types, Ty.WellFormed]

theorem Ty.WellFormed.remove {t r : Ty} {f : TyUnion.Falsy} (ht : t.WellFormed)
    (hr : f.remove t = some r) : r.WellFormed := by
  unfold TyUnion.Falsy.remove at hr
  split at hr
  · cases hr
  · obtain rfl := Option.some.inj hr
    simp [Ty.WellFormed]
  · have hc := (Ty.WellFormed.eq_def _).mp ht
    split at hr
    · obtain rfl := Option.some.inj hr
      exact hc.1.makeOptional _
    · obtain rfl := Option.some.inj hr
      exact hc.1
  · split at hr
    · cases hr
    · obtain rfl := Option.some.inj hr
      exact ht

theorem Ty.WellFormed.widened {t : Ty} (ht : t.WellFormed) : t.widened.WellFormed := by
  cases t <;> simp_all [Ty.widened, Ty.WellFormed]

/-- The true values of a type are the type, or `true`, or those of its content. -/
theorem Ty.truthy?_eq_some {t r : Ty} (hr : t.truthy? = some r) :
    r = t ∨ (t = .bool none ∧ r = .bool (some true)) ∨
      ∃ c s, t = .optional c s ∧ c.truthy? = some r := by
  cases t with
  | mixed | resource | map | list | function | classOf | object =>
    simp_all [Ty.truthy?]
  | void | null => simp [Ty.truthy?] at hr
  | bool x => cases x with
    | none => simp_all [Ty.truthy?]
    | some b => cases b <;> simp_all [Ty.truthy?]
  | int x => cases x <;> simp_all [Ty.truthy?]
  | float x => cases x <;> simp_all [Ty.truthy?]
  | string x => cases x <;> simp_all [Ty.truthy?]
  | optional c s => exact .inr (.inr ⟨c, s, rfl, by simpa [Ty.truthy?] using hr⟩)

theorem Ty.WellFormed.truthy {t r : Ty} (ht : t.WellFormed) (hr : t.truthy? = some r) :
    r.WellFormed := by
  induction t using Ty.induct generalizing r with
  | optional c s ih =>
    rw [Ty.WellFormed] at ht
    exact ih ht.1 (by simpa [Ty.truthy?] using hr)
  | leaf t _ ho _ =>
    rcases truthy?_eq_some hr with rfl | ⟨-, rfl⟩ | ⟨c, s, rfl, -⟩
    · exact ht
    · simp [Ty.WellFormed]
    · simp [Ty.isOptional] at ho
  | map u _ | list u _ | function f _ _ =>
    simp only [Ty.truthy?, Option.some.injEq] at hr
    exact hr ▸ ht

theorem Ty.WellFormed.falsy {t r : Ty} (ht : t.WellFormed) (hr : t.falsy? = some r) :
    r.WellFormed := by
  have hz : Double.zero.isNaN = false := by decide
  unfold Ty.falsy? at hr
  split at hr <;> try split at hr
  all_goals
    cases hr
    all_goals first
      | exact ht
      | simp [Ty.WellFormed, Ty.isMixed, Ty.isOptional, hz]

theorem TyUnion.WellFormed.without {u : TyUnion} (hu : u.WellFormed) (f : Falsy) :
    (u.without f).WellFormed := by
  refine wellFormed_ofList fun t ht => ?_
  obtain ⟨m, hm, hr⟩ := List.mem_filterMap.1 ht
  exact (hu.mem m hm).remove hr

theorem TyUnion.WellFormed.excluding {u : TyUnion} (hu : u.WellFormed) (key : String) :
    (u.excluding key).WellFormed := by
  unfold TyUnion.excluding
  split
  · exact hu.without _
  · split
    · exact hu.without _
    · exact wellFormed_ofList fun t ht => hu.mem t (List.mem_filter.1 ht).1

theorem TyUnion.WellFormed.intersection {u v : TyUnion} (hu : u.WellFormed) (hv : v.WellFormed)
    (h : Hierarchy) : (u.intersection h v).WellFormed := by
  unfold TyUnion.intersection
  split
  · exact hv
  · split
    · exact hu
    · refine wellFormed_ofList fun t ht => ?_
      obtain ⟨a, ha, hab⟩ := List.mem_flatMap.1 ht
      obtain ⟨b, hb, hab⟩ := List.mem_filterMap.1 hab
      split at hab
      · exact Option.some.inj hab ▸ hu.mem a ha
      · split at hab
        · exact Option.some.inj hab ▸ hv.mem b hb
        · cases hab

theorem Ty.WellFormed.remainder {h : Hierarchy} {es : List Ty} {t r : Ty} (ht : t.WellFormed)
    (hr : r ∈ TyUnion.remainder h es t) : r.WellFormed := by
  unfold TyUnion.remainder at hr
  split at hr
  · rename_i c s
    rw [Ty.WellFormed] at ht
    rcases List.mem_append.1 hr with hr | hr
    · split at hr
      · simp at hr
      · rw [List.mem_singleton.1 hr]
        exact ht.1
    · exact s.wellFormed_types r (List.mem_filter.1 hr).1
  · split at hr
    · simp at hr
    · rw [List.mem_singleton.1 hr]
      exact ht

theorem TyUnion.WellFormed.difference {u : TyUnion} (hu : u.WellFormed) (h : Hierarchy)
    (v : TyUnion) : (u.difference h v).WellFormed := by
  refine wellFormed_ofList fun t ht => ?_
  obtain ⟨m, hm, ht⟩ := List.mem_flatMap.1 ht
  exact (hu.mem m hm).remainder ht

theorem TyUnion.WellFormed.withValue {u : TyUnion} (hu : u.WellFormed) {c : Constant}
    (hc : c.toTy.WellFormed) : (u.withValue c).WellFormed := by
  unfold TyUnion.withValue
  split
  · split
    · exact wellFormed_empty.add hc
    · exact hu
  · exact hu

theorem TyUnion.WellFormed.widened {u : TyUnion} (hu : u.WellFormed) : u.widened.WellFormed := by
  refine wellFormed_ofList fun t ht => ?_
  obtain ⟨m, hm, rfl⟩ := List.mem_map.1 ht
  exact (hu.mem m hm).widened

theorem TyUnion.WellFormed.truthy {u : TyUnion} (hu : u.WellFormed) : u.truthy.WellFormed := by
  refine wellFormed_ofList fun t ht => ?_
  obtain ⟨m, hm, hr⟩ := List.mem_filterMap.1 ht
  exact (hu.mem m hm).truthy hr

theorem TyUnion.WellFormed.falsy {u : TyUnion} (hu : u.WellFormed) : u.falsy.WellFormed := by
  refine wellFormed_ofList fun t ht => ?_
  obtain ⟨m, hm, hr⟩ := List.mem_filterMap.1 ht
  exact (hu.mem m hm).falsy hr

end PhpCheck
