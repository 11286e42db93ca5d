import PhpCheck.Proofs.Types.Same

/-!
The unions that the checker can get hold of.

`TyUnion.Reachable` is closed under every operation that makes a union, with
operands and nested unions that are reachable themselves.  All reachable unions
are well formed, which is what keeps equality of unions an equivalence and adding
a union to itself without effect.
-/

namespace PhpCheck

mutual

/-- Types put together by their constructors; `Ty.makeOptional` is the one for
optional types.  No refinement is other than a number. -/
inductive Ty.Reachable : Ty → Prop
  | mixed : Ty.Reachable .mixed
  | void : Ty.Reachable .void
  | bool (x : Option Bool) : Ty.Reachable (.bool x)
  | int (x : Option Int64) : Ty.Reachable (.int x)
  | float {x : Option Double} (hx : ∀ d, x = some d → d.isNaN = false) : Ty.Reachable (.float x)
  | string (x : Option String) : Ty.Reachable (.string x)
  | null : Ty.Reachable .null
  | resource : Ty.Reachable .resource
  | map {u : TyUnion} (hu : TyUnion.Reachable u) : Ty.Reachable (.map u)
  | list {u : TyUnion} (hu : TyUnion.Reachable u) : Ty.Reachable (.list u)
  | function {f : Signature}
      (hp : ∀ p ∈ f.params, ∀ u, p.ty = some u → TyUnion.Reachable u)
      (hr : TyUnion.Reachable f.result) : Ty.Reachable (.function f)
  | classOf (name : String) : Ty.Reachable (.classOf name)
  | object (name : String) : Ty.Reachable (.object name)
  | optional {c : Ty} (hc : Ty.Reachable c) (s : Sentinel) : Ty.Reachable (c.makeOptional s)

/-- Unions made by operations on unions. -/
inductive TyUnion.Reachable : TyUnion → Prop
  | empty : TyUnion.Reachable .empty
  | mixed : TyUnion.Reachable .mixed
  | add {u : TyUnion} {t : Ty} (hu : TyUnion.Reachable u) (ht : Ty.Reachable t) :
      TyUnion.Reachable (u.add t)
  | union {u v : TyUnion} (hu : TyUnion.Reachable u) (hv : TyUnion.Reachable v) :
      TyUnion.Reachable (u.union v)
  | excluding {u : TyUnion} (hu : TyUnion.Reachable u) (key : String) :
      TyUnion.Reachable (u.excluding key)
  | withoutNull {u : TyUnion} (hu : TyUnion.Reachable u) : TyUnion.Reachable u.withoutNull
  | intersection {u v : TyUnion} (hu : TyUnion.Reachable u) (hv : TyUnion.Reachable v)
      (h : Hierarchy) : TyUnion.Reachable (u.intersection h v)
  | difference {u v : TyUnion} (hu : TyUnion.Reachable u) (hv : TyUnion.Reachable v)
      (h : Hierarchy) : TyUnion.Reachable (u.difference h v)
  | withValue {u : TyUnion} (hu : TyUnion.Reachable u) {c : Constant}
      (hc : ∀ d, c = .float d → d.isNaN = false) : TyUnion.Reachable (u.withValue c)
  | widened {u : TyUnion} (hu : TyUnion.Reachable u) : TyUnion.Reachable u.widened
  | truthy {u : TyUnion} (hu : TyUnion.Reachable u) : TyUnion.Reachable u.truthy
  | falsy {u : TyUnion} (hu : TyUnion.Reachable u) : TyUnion.Reachable u.falsy

end

theorem Constant.wellFormed_toTy {c : Constant} (hc : ∀ d, c = .float d → d.isNaN = false) :
    c.toTy.WellFormed := by
  cases c with
  | float d => exact hc d rfl
  | bool b | int i | string s | null => trivial

mutual

theorem Ty.Reachable.wellFormed : ∀ {t : Ty}, t.Reachable → t.WellFormed
  | _, .mixed | _, .void | _, .bool _ | _, .int _ | _, .string _ | _, .null | _, .resource
  | _, .classOf _ | _, .object _ => by simp [Ty.WellFormed]
  | .float none, .float _ => by simp [Ty.WellFormed]
  | .float (some d), .float hx => hx d rfl
  | _, .map hu => by
    rw [Ty.WellFormed]
    exact hu.wellFormed
  | _, .list hu => by
    rw [Ty.WellFormed]
    exact hu.wellFormed
  | _, .function hp hr => by
    rw [Ty.WellFormed, Signature.wellFormed_iff]
    exact ⟨fun p hmem u hu => (hp p hmem u hu).wellFormed, hr.wellFormed⟩
  | _, .optional hc s => hc.wellFormed.makeOptional s

theorem TyUnion.Reachable.wellFormed : ∀ {u : TyUnion}, u.Reachable → u.WellFormed
  | _, .empty => TyUnion.wellFormed_empty
  | _, .mixed => TyUnion.wellFormed_mixed
  | _, .add hu ht => hu.wellFormed.add ht.wellFormed
  | _, .union hu hv => hu.wellFormed.union hv.wellFormed
  | _, .excluding hu key => hu.wellFormed.excluding key
  | _, .withoutNull hu => hu.wellFormed.without .null
  | _, .intersection hu hv h => hu.wellFormed.intersection hv.wellFormed h
  | _, .difference hu _ h => hu.wellFormed.difference h _
  | _, .withValue hu hc => hu.wellFormed.withValue (Constant.wellFormed_toTy hc)
  | _, .widened hu => hu.wellFormed.widened
  | _, .truthy hu => hu.wellFormed.truthy
  | _, .falsy hu => hu.wellFormed.falsy

end

/-! ### Adding what is there already -/

section

variable {j : TyUnion → TyUnion → TyUnion}

theorem addWith_eq_append {ms : List Ty} {t : Ty} (hv : t ≠ .void) (hx : t ≠ .mixed)
    (hms : ms ≠ [.mixed]) (hn : ∀ m ∈ ms, m.combineWith j t = none)
    (hl : ms.length < maxMembers) : addWith (Ty.combineWith j) ms t = ms ++ [t] := by
  have hm : merge? (Ty.combineWith j) ms t = none := by
    rw [Option.eq_none_iff_forall_ne_some]
    rintro ⟨r, others⟩ hm
    obtain ⟨pre, m, post, rfl, -, hr⟩ := merge?_eq_some hm
    rw [hn m (by simp)] at hr
    cases hr
  rw [addWith_apart hv hx hms hm, if_neg]
  rw [List.length_append, List.length_singleton]
  omega

theorem Separate.combine?_eq_none {pre post : List Ty} {m : Ty} (hs : Separate (pre ++ m :: post)) :
    ∀ x ∈ pre ++ post, x.combine? m = none := by
  obtain ⟨-, hpost, hpre⟩ := List.pairwise_append.1 hs.apart
  intro x hx
  rcases List.mem_append.1 hx with hx | hx
  · exact hpre x hx m List.mem_cons_self
  · exact Ty.combine?_eq_none_comm ((List.pairwise_cons.1 hpost).1 x hx)

/-- A member that was taken out goes to the end when it is added again. -/
theorem Separate.addWith_rest {pre post : List Ty} {m : Ty} (hs : Separate (pre ++ m :: post))
    (hne : pre ++ m :: post ≠ [.mixed]) :
    (PhpCheck.addWith (Ty.combineWith j) (pre ++ post) m).Perm (pre ++ m :: post) := by
  have hmem : m ∈ pre ++ m :: post := List.mem_append_right pre List.mem_cons_self
  have hv : m ≠ .void := fun hv => hs.void_not_mem (hv ▸ hmem)
  have hx : m ≠ .mixed := fun hx => hne (hs.mixed_alone (hx ▸ hmem))
  have hrest : ∀ x ∈ pre ++ post, x.combineWith j m = none := fun x hx =>
    (Ty.combineWith_eq_none_iff j).2 (hs.combine?_eq_none x hx)
  have hl : (pre ++ post).length < maxMembers := by
    have hle := hs.length_le
    simp only [List.length_append, List.length_cons] at hle ⊢
    omega
  have hone : pre ++ post ≠ [.mixed] := by
    intro he
    have hmixed : Ty.mixed ∈ pre ++ post := by simp [he]
    exact hne (hs.mixed_alone (mem_of_mem_rest m hmixed))
  rw [addWith_eq_append hv hx hone hrest hl, List.append_assoc]
  exact List.Perm.append_left pre (List.perm_append_singleton m post)

/-- A member that is added again moves to the end: it merges with itself only, and
with nothing after that. -/
theorem Separate.addWith_perm {ms : List Ty} {t : Ty} (hs : Separate ms) (hm : t ∈ ms)
    (ht : t.combineWith j t = some t) : (PhpCheck.addWith (Ty.combineWith j) ms t).Perm ms := by
  refine (addWith_induct (motive := fun ms t res => Separate ms → t ∈ ms →
    t.combineWith j t = some t → res.Perm ms) ?_ ?_ ?_ ?_ ?_ ?_ ms t hs.length_le).1 hs hm ht
  · exact fun ms _ _ _ => .refl ms
  · intro ms hs hm _
    rw [hs.mixed_alone hm]
  · exact fun t _ _ _ => .refl _
  · intro pre m post t r _ _ hne hr _ hs hm ht
    have htm : t = m := by
      refine (eq_or_mem_rest hm).resolve_right fun hin => ?_
      have hapart := (Ty.combineWith_eq_none_iff j).2 (hs.combine?_eq_none t hin)
      rw [Ty.combineWith_eq_none_comm hapart j] at hr
      cases hr
    subst htm
    obtain rfl := Option.some.inj (ht.symm.trans hr)
    exact hs.addWith_rest hne
  · intro ms t _ _ _ hn _ _ hm ht
    rw [hn t hm] at ht
    cases ht
  · intro ms t _ _ _ hn _ _ hm ht
    rw [hn t hm] at ht
    cases ht

end

theorem Ty.combineWith_self {t : Ty} (ht : t.matches .flat t = true)
    (j : TyUnion → TyUnion → TyUnion) : t.combineWith j t = some t := by
  rw [Ty.combineWith.eq_def, if_pos ht]

theorem TyUnion.WellFormed.add_perm {u : TyUnion} {t : Ty} (hu : u.WellFormed)
    (hm : t ∈ u.members) : (u.add t).members.Perm u.members :=
  (wellFormed_iff.1 hu).2.addWith_perm hm (Ty.combineWith_self (hu.mem t hm).matches_self _)

theorem TyUnion.WellFormed.foldl_add_perm {u : TyUnion} {ts : List Ty} (hu : u.WellFormed)
    (hts : ∀ t ∈ ts, t ∈ u.members) : (ts.foldl TyUnion.add u).members.Perm u.members := by
  induction ts generalizing u with
  | nil => exact .refl _
  | cons t ts ih =>
    obtain ⟨hm, hts⟩ := List.forall_mem_cons.1 hts
    have hperm := hu.add_perm hm
    have hnext := ih (hu.add (hu.mem t hm)) fun x hx => hperm.mem_iff.2 (hts x hx)
    exact hnext.trans hperm

theorem TyUnion.WellFormed.same_of_perm {u v : TyUnion} (hu : u.WellFormed)
    (hp : v.members.Perm u.members) : v.same u = true :=
  same_iff.2 ⟨hp.length_eq, fun x hx =>
    ⟨x, hp.mem_iff.1 hx, (hu.mem x (hp.mem_iff.1 hx)).same_self⟩⟩

theorem TyUnion.WellFormed.union_self {u : TyUnion} (hu : u.WellFormed) :
    (u.union u).same u = true :=
  hu.same_of_perm (hu.foldl_add_perm fun _ ht => ht)

/-! ### Adding members up again -/

namespace TyUnion

theorem add_of_separate {pre post : List Ty} {t : Ty} (hs : Separate (pre ++ t :: post)) :
    (⟨pre⟩ : TyUnion).add t = ⟨pre ++ [t]⟩ := by
  have hv : t ≠ .void := by
    rintro rfl
    exact hs.void_not_mem (by simp)
  by_cases hx : t = .mixed
  · subst hx
    have hone : pre ++ .mixed :: post = [.mixed] := hs.mixed_alone (by simp)
    obtain ⟨rfl, -⟩ | ⟨-, hnil⟩ := List.append_eq_singleton_iff.1 hone
    · simp [add, addWith]
    · cases hnil
  · have hpre : pre ≠ [.mixed] := by
      rintro rfl
      have hone := hs.mixed_alone (by simp)
      simp at hone
    have hapart : ∀ m ∈ pre, m.combine? t = none := fun m hm =>
      (List.pairwise_append.1 hs.apart).2.2 m hm t List.mem_cons_self
    have hlength : pre.length < maxMembers := by
      have hle := hs.length_le
      simp only [List.length_append, List.length_cons] at hle
      omega
    exact congrArg mk (addWith_eq_append hv hx hpre
      (fun m hm => (Ty.combineWith_eq_none_iff _).2 (hapart m hm)) hlength)

theorem foldl_add_of_separate {pre post : List Ty} (hs : Separate (pre ++ post)) :
    post.foldl add ⟨pre⟩ = ⟨pre ++ post⟩ := by
  induction post generalizing pre with
  | nil => simp
  | cons t post ih =>
    have hassoc : pre ++ t :: post = pre ++ [t] ++ post := by simp
    rw [List.foldl_cons, add_of_separate hs, hassoc]
    exact ih (hassoc ▸ hs)

/-- The members of a union make it up again when they are added one by one. -/
theorem WellFormed.ofList_members {u : TyUnion} (hu : u.WellFormed) : ofList u.members = u := by
  obtain ⟨members⟩ := u
  have hs : Separate ([] ++ members) := (wellFormed_iff.1 hu).2
  exact foldl_add_of_separate hs

theorem WellFormed.empty_union {u : TyUnion} (hu : u.WellFormed) : empty.union u = u :=
  hu.ofList_members

end TyUnion

/-! ### What holds of all reachable unions -/

/-- Members that cannot be merged neither match nor are equal. -/
theorem TyUnion.WellFormed.pairwise_distinct {u : TyUnion} (hu : u.WellFormed) :
    u.members.Pairwise fun a b => a.combine? b = none ∧ a.matches .flat b = false ∧
      b.matches .flat a = false ∧ a.same b = false ∧ b.same a = false := by
  refine (wellFormed_iff.1 hu).2.apart.imp_of_mem fun {a b} ha hb hn => ?_
  obtain ⟨hab, hba⟩ := Ty.matches_eq_false_of_combine?_eq_none hn
  refine ⟨hn, hab, hba, ?_, ?_⟩
  · rw [Bool.eq_false_iff]
    intro he
    rw [((hu.mem a ha).alike he).le] at hab
    cases hab
  · rw [Bool.eq_false_iff]
    intro he
    rw [((hu.mem b hb).alike he).le] at hba
    cases hba

/-- Reachable unions have at most eight members, of which no two can be merged; their
equality is equality of sets of members, it is an equivalence, and joining a union
with itself changes nothing. -/
theorem TyUnion.Reachable.representation {u v w : TyUnion} (hu : u.Reachable) (hv : v.Reachable) :
    (u.members.length ≤ 8 ∧ Ty.void ∉ u.members ∧ (Ty.mixed ∈ u.members → u.members = [.mixed]) ∧
      u.members.Pairwise fun a b => a.combine? b = none ∧ a.matches .flat b = false ∧
        b.matches .flat a = false ∧ a.same b = false ∧ b.same a = false) ∧
    (u.same v = true ↔ (∀ x ∈ u.members, ∃ y ∈ v.members, x.same y = true) ∧
      ∀ y ∈ v.members, ∃ x ∈ u.members, y.same x = true) ∧
    u.same u = true ∧ (u.same v = true → v.same u = true) ∧
    (u.same v = true → v.same w = true → u.same w = true) ∧
    (u.union u).same u = true := by
  have hu := hu.wellFormed
  have hs := (wellFormed_iff.1 hu).2
  refine ⟨⟨hs.length_le, hs.void_not_mem, hs.mixed_alone, hu.pairwise_distinct⟩,
    hu.same_iff_forall hv.wellFormed, hu.same_self, hu.same_symm, same_trans, hu.union_self⟩

/-- A list of whole numbers, or null, or an instance of a class, and the same with
the class first. -/
theorem TyUnion.reachable_nullable_list :
    let list := Ty.list (TyUnion.empty.add (.int none))
    let u := ((TyUnion.empty.add .null).add list).add (.object "A")
    let v := ((TyUnion.empty.add (.object "A")).add list).add .null
    u.Reachable ∧ v.Reachable ∧ (u.union u).same u = true ∧
      (u.same v = true ↔ (∀ x ∈ u.members, ∃ y ∈ v.members, x.same y = true) ∧
        ∀ y ∈ v.members, ∃ x ∈ u.members, y.same x = true) := by
  intro list u v
  have hlist : list.Reachable := .list (.add .empty (.int none))
  have hu : u.Reachable := .add (.add (.add .empty .null) hlist) (.object "A")
  have hv : v.Reachable := .add (.add (.add .empty (.object "A")) hlist) .null
  obtain ⟨-, hset, -, -, -, hself⟩ := TyUnion.Reachable.representation (w := u) hu hv
  exact ⟨hu, hv, hself, hset⟩

end PhpCheck
