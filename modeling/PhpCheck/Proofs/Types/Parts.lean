import PhpCheck.Proofs.Types.Same

/-!
Optional types taken apart.

A value of an optional type is a value of its content or one of its sentinels, and
the test whether a union complies with another looks at these parts one by one.
The main statement is `Ty.Combines.covers`: when two types are merged, every part
of either may be used as the result.
-/

namespace PhpCheck

/-- The alternatives that a type stands for. -/
def Ty.parts : Ty → List Ty
  | .optional c s => c :: s.types
  | t => [t]

theorem Ty.eq_optional {t : Ty} (ho : t.isOptional = true) : ∃ c s, t = .optional c s := by
  cases t <;> first | exact ⟨_, _, rfl⟩ | cases ho

theorem Ty.parts_eq {t : Ty} (ho : t.isOptional = false) : t.parts = [t] := by
  cases t <;> simp_all [Ty.parts, Ty.isOptional]

theorem Sentinel.eq_of_mem {t : Ty} {s : Sentinel} (ht : t ∈ s.types) :
    t = .bool (some Bool.false) ∨ t = .null := by
  cases s <;> simp [Sentinel.types] at ht
  · exact .inl ht
  · exact .inr ht
  · exact ht

theorem Sentinel.isAtom_of_mem {t : Ty} {s : Sentinel} (ht : t ∈ s.types) : t.isAtom = true := by
  rcases eq_of_mem ht with rfl | rfl <;> rfl

section

variable {h : Hierarchy}

theorem Ty.wellFormed_optional {c : Ty} {s : Sentinel} :
    (Ty.optional c s).WellFormed ↔
      c.WellFormed ∧ c.isMixed = false ∧ c.isOptional = false := by
  rw [Ty.WellFormed]

theorem Ty.isAtom_iff {t : Ty} : t.isAtom = true ↔ t.isMixed = false ∧ t.isOptional = false := by
  cases t <;> simp [Ty.isAtom, Ty.isMixed, Ty.isOptional]

theorem Ty.WellFormed.part {t p : Ty} (ht : t.WellFormed) (hp : p ∈ t.parts) : p.WellFormed := by
  cases t with
  | optional c s =>
    rcases List.mem_cons.1 hp with rfl | hp
    · exact (Ty.wellFormed_optional.1 ht).1
    · exact s.wellFormed_types p hp
  | _ => exact List.mem_singleton.1 hp ▸ ht

theorem Ty.WellFormed.isOptional_part {t p : Ty} (ht : t.WellFormed) (hp : p ∈ t.parts) :
    p.isOptional = false := by
  cases t with
  | optional c s =>
    rcases List.mem_cons.1 hp with rfl | hp
    · exact (Ty.wellFormed_optional.1 ht).2.2
    · exact (Ty.isAtom_iff.1 (Sentinel.isAtom_of_mem hp)).2
  | _ => exact List.mem_singleton.1 hp ▸ rfl

theorem Ty.WellFormed.isAtom_part {t p : Ty} (ht : t.WellFormed) (hm : t.isMixed = false)
    (hp : p ∈ t.parts) : p.isAtom = true := by
  cases t with
  | optional c s =>
    rcases List.mem_cons.1 hp with rfl | hp
    · exact Ty.isAtom_iff.2 (Ty.wellFormed_optional.1 ht).2
    · exact Sentinel.isAtom_of_mem hp
  | mixed => simp [Ty.isMixed] at hm
  | _ => exact List.mem_singleton.1 hp ▸ rfl

/-! ### Matching by parts -/

theorem Sentinel.any_contains_iff {a : Ty} {s : Sentinel} :
    (Sentinel.ofTy? a).any s.contains = true ↔ a ∈ s.types := by
  constructor
  · intro hs
    obtain ⟨o, ho, hc⟩ := (Option.any_eq_true _ _).1 hs
    rcases Sentinel.ofTy?_eq_some ho with ⟨rfl, rfl⟩ | ⟨rfl, rfl⟩ <;> cases s <;>
      simp_all [Sentinel.contains, Sentinel.types]
  · intro ht
    cases s <;> simp [Sentinel.types] at ht
    · exact ht ▸ rfl
    · exact ht ▸ rfl
    · rcases ht with rfl | rfl <;> rfl

/-- A sentinel takes nothing but itself. -/
theorem Sentinel.matches_type {a t : Ty} {s : Sentinel} (ha : a.isAtom = true) (ht : t ∈ s.types)
    (hat : a.matches h t = true) : a = .void ∨ a = t := by
  rcases eq_of_mem ht with rfl | rfl <;> cases a <;> simp_all [Ty.matches, Ty.isAtom, refines]

theorem Ty.matches_atom_self {a : Ty} {s : Sentinel} (ha : a ∈ s.types) :
    a.matches h a = true := by
  rcases Sentinel.eq_of_mem ha with rfl | rfl <;> simp [Ty.matches, refines]

/-- An atom may be used as a type when it may be used as a part of it. -/
theorem Ty.matches_iff_parts {a e : Ty} (ha : a.isAtom = true) :
    a.matches h e = true ↔ ∃ q ∈ e.parts, a.matches h q = true := by
  cases e with
  | optional c s =>
    rw [Ty.matches_optional ha, Sentinel.any_contains_iff]
    constructor
    · rintro (hs | hc)
      · exact ⟨a, List.mem_cons_of_mem c hs, Ty.matches_atom_self hs⟩
      · exact ⟨c, List.mem_cons_self, hc⟩
    · rintro ⟨q, hq, haq⟩
      rcases List.mem_cons.1 hq with rfl | hq
      · exact .inr haq
      · rcases Sentinel.matches_type ha hq haq with rfl | rfl
        · exact .inr (Ty.void_matches c)
        · exact .inl hq
  | _ => simp [Ty.parts]

/-- Where a type may be used, each of its parts may be. -/
theorem Ty.part_matches {b e p : Ty} (hbe : b.matches h e = true) (hp : p ∈ b.parts) :
    p.matches h e = true := by
  cases b with
  | optional c s =>
    by_cases hm : e = .mixed
    · rw [hm]
      exact Ty.matches_mixed p
    · by_cases hv : e = .void
      · rw [hv, Ty.matches_void] at hbe
        cases hbe
      · obtain ⟨hc, hs⟩ := (Ty.optional_matches hm hv).1 hbe
        rcases List.mem_cons.1 hp with rfl | hp
        · exact hc
        · exact hs p hp
  | _ => exact List.mem_singleton.1 hp ▸ hbe

/-- A type may be used as another when each of its parts may be. -/
theorem Ty.matches_iff_all_parts {b e : Ty} :
    b.matches h e = true ↔ ∀ p ∈ b.parts, p.matches h e = true := by
  refine ⟨fun hbe p hp => Ty.part_matches hbe hp, fun hparts => ?_⟩
  cases b with
  | optional c s =>
    obtain ⟨hc, hs⟩ := List.forall_mem_cons.1 hparts
    cases e with
    | mixed => exact Ty.matches_mixed _
    | void =>
      -- A sentinel is not empty.
      cases s <;> simp [Sentinel.types] at hs
    | _ => exact (Ty.optional_matches (by simp) (by simp)).2 ⟨hc, hs⟩
  | _ => exact hparts _ List.mem_cons_self

theorem Sentinel.types_subset_union {t : Ty} {s : Sentinel} (o : Sentinel) (ht : t ∈ s.types) :
    t ∈ (s.union o).types ∧ t ∈ (o.union s).types := by
  cases s <;> cases o <;> simp_all [Sentinel.union, Sentinel.types]

theorem Sentinel.mem_types_union {t : Ty} {s o : Sentinel} (ht : t ∈ (s.union o).types) :
    t ∈ s.types ∨ t ∈ o.types := by
  cases s <;> cases o <;> simp [Sentinel.union, Sentinel.types] at ht ⊢
  all_goals first
    | exact ht
    | exact ht.symm
    | exact .inl ht
    | exact .inr ht

theorem Ty.matches_makeOptional {p c : Ty} (s : Sentinel) (ho : p.isOptional = false)
    (hpc : p.matches h c = true) : p.matches h (c.makeOptional s) = true := by
  by_cases hm : p.isMixed = true
  · cases p <;> simp [Ty.isMixed] at hm
    cases c <;> simp_all [Ty.isMixed, Ty.makeOptional]
  · have ha : p.isAtom = true := Ty.isAtom_iff.2 ⟨by simpa using hm, ho⟩
    cases c with
    | optional d o =>
      rw [Ty.makeOptional, Ty.matches_optional ha, Sentinel.any_contains_iff]
      rw [Ty.matches_optional ha, Sentinel.any_contains_iff] at hpc
      exact hpc.imp_left fun hs => (Sentinel.types_subset_union s hs).1
    | mixed => exact Ty.matches_mixed p
    | _ => exact (Ty.matches_optional ha).2 (.inr hpc)

theorem Sentinel.matches_makeOptional {t : Ty} {s : Sentinel} (c : Ty) (ht : t ∈ s.types) :
    t.matches h (c.makeOptional s) = true := by
  have ha := Sentinel.isAtom_of_mem ht
  cases c with
  | optional d o =>
    rw [Ty.makeOptional, Ty.matches_optional ha, Sentinel.any_contains_iff]
    exact .inl (Sentinel.types_subset_union o ht).2
  | mixed => exact Ty.matches_mixed t
  | _ => exact (Ty.matches_optional ha).2 (.inl (Sentinel.any_contains_iff.2 ht))

end

theorem Ty.WellFormed.part_matches {t p : Ty} (ht : t.WellFormed) (hp : p ∈ t.parts) :
    p.matches .flat t = true :=
  Ty.part_matches ht.matches_self hp

/-! ### Merging contents -/

/-- A type less its sentinels. -/
def Ty.core : Ty → Ty
  | .optional c _ => c
  | t => t

theorem Ty.core_eq {t : Ty} (ho : t.isOptional = false) : t.core = t := by
  cases t <;> first | rfl | cases ho

/-- Types can be merged when what they are less their sentinels can. -/
theorem Ty.combine?_ne_none_of_core {a b : Ty}
    (ha : a.core.isOptional = false ∧ Sentinel.ofTy? a.core = none)
    (hb : b.core.isOptional = false ∧ Sentinel.ofTy? b.core = none)
    (hab : ∀ j, ∃ r, Ty.Combines j a.core b.core r)
    (hba : ∀ j, ∃ r, Ty.Combines j b.core a.core r) : a.combine? b ≠ none := by
  suffices hs : ∀ j, ∃ r, Ty.Combines j a b r by
    obtain ⟨r, hr⟩ := hs (joinWithin (max a.arrayDepth b.arrayDepth))
    have hsome := (hr.isSome (joinWithin (max a.arrayDepth b.arrayDepth))).1
    rw [Ty.combine?]
    intro hn
    simp [hn] at hsome
  intro j
  obtain ⟨r, hr⟩ := hab j
  obtain ⟨r', hr'⟩ := hba j
  cases hao : a.isOptional with
  | true =>
    obtain ⟨c, s, rfl⟩ := Ty.eq_optional hao
    cases hbo : b.isOptional with
    | true =>
      obtain ⟨d, o, rfl⟩ := Ty.eq_optional hbo
      exact ⟨_, .optionals _ _ hr⟩
    | false =>
      rw [Ty.core_eq hbo] at hb hr
      exact ⟨_, .contentLeft _ hb.1 hb.2 hr⟩
  | false =>
    rw [Ty.core_eq hao] at ha hr hr'
    cases hbo : b.isOptional with
    | true =>
      obtain ⟨d, o, rfl⟩ := Ty.eq_optional hbo
      exact ⟨_, .contentRight _ ha.1 ha.2 hr'⟩
    | false =>
      rw [Ty.core_eq hbo] at hr
      exact ⟨_, hr⟩

/-! ### Merging covers both types -/

theorem Sentinel.parts_of_ofTy? {t p : Ty} {o : Sentinel} (ht : Sentinel.ofTy? t = some o)
    (hp : p ∈ t.parts) : p ∈ o.types := by
  rcases Sentinel.ofTy?_eq_some ht with ⟨rfl, rfl⟩ | ⟨rfl, rfl⟩ <;>
    simpa [Sentinel.types, Ty.parts] using hp

/-- Arrays are compared by their member types, whichever sort they are of. -/
theorem Ty.array_matches {h : Hierarchy} {a b : Ty} {x y : TyUnion} (ha : a.member? = some x)
    (hb : b.member? = some y) : a.matches h b = x.membersMatch h y := by
  cases a <;> simp only [Ty.member?, reduceCtorEq, Option.some.injEq] at ha <;> subst ha <;>
    cases b <;> simp only [Ty.member?, reduceCtorEq, Option.some.injEq] at hb <;> subst hb <;>
    simp [Ty.matches]

theorem Ty.eq_of_mem_parts_array {a p : Ty} {x : TyUnion} (ha : a.member? = some x)
    (hp : p ∈ a.parts) : p.isArray = true ∧ p = a := by
  cases a <;> simp_all [Ty.member?, Ty.parts, Ty.isArray]

theorem Sentinel.covers_promote {t u p : Ty} {o : Sentinel} (ht : t.WellFormed)
    (hu : Sentinel.ofTy? u = some o) (hp : p ∈ t.parts ∨ p ∈ u.parts) :
    p.matches .flat (t.makeOptional o) = true := by
  rcases hp with hp | hp
  · exact Ty.matches_makeOptional o (ht.isOptional_part hp) (ht.part_matches hp)
  · exact Sentinel.matches_makeOptional t (Sentinel.parts_of_ofTy? hu hp)

theorem Sentinel.covers_absorb {c t p : Ty} {s o : Sentinel} (hc : (Ty.optional c s).WellFormed)
    (ht : Sentinel.ofTy? t = some o) (hp : p ∈ (Ty.optional c s).parts ∨ p ∈ t.parts) :
    p.matches .flat (c.makeOptional (s.union o)) = true := by
  obtain ⟨hc, -, hoc⟩ := Ty.wellFormed_optional.1 hc
  rcases hp with hp | hp
  · rcases List.mem_cons.1 hp with rfl | hp
    · exact Ty.matches_makeOptional _ hoc hc.matches_self
    · exact Sentinel.matches_makeOptional c (Sentinel.types_subset_union o hp).1
  · have hp := Sentinel.parts_of_ofTy? ht hp
    exact Sentinel.matches_makeOptional c (Sentinel.types_subset_union s hp).2

/-- The join of member types covers the member types of both arrays. -/
def JoinCovers (j : TyUnion → TyUnion → TyUnion) (K : Ty → Prop) : Prop :=
  ∀ {a b : Ty} {x y : TyUnion}, K a → K b → a.member? = some x → b.member? = some y →
    x.membersMatch .flat (j x y) = true ∧ y.membersMatch .flat (j x y) = true

/-- When two types are merged, each part of either may be used as the result.  For
parts other than arrays it does not matter how member types are joined. -/
theorem Ty.Combines.covers {j : TyUnion → TyUnion → TyUnion} {K : Ty → Prop}
    (hw : ∀ t, K t → t.WellFormed) (hcont : ∀ c s, K (.optional c s) → K c) {a b r p : Ty}
    (hr : Ty.Combines j a b r) (hj : p.isArray = true → JoinCovers j K) (ha : K a) (hb : K b)
    (hp : p ∈ a.parts ∨ p ∈ b.parts) : p.matches .flat r = true := by
  have hcontent : ∀ c s, K (.optional c s) → c.isOptional = false ∧ c.parts = [c] :=
    fun c s hc => by
      have ho := (Ty.wellFormed_optional.1 (hw _ hc)).2.2
      exact ⟨ho, Ty.parts_eq ho⟩
  induction hr with
  | left hm =>
    rcases hp with hp | hp
    · exact (hw _ ha).part_matches hp
    · exact Ty.part_matches hm hp
  | right hm =>
    rcases hp with hp | hp
    · exact Ty.part_matches hm hp
    · exact (hw _ hb).part_matches hp
  | bool hx hy => rcases hp with hp | hp <;> simp_all [Ty.parts, Ty.matches, refines]
  | int x y => rcases hp with hp | hp <;> simp_all [Ty.parts, Ty.matches, refines]
  | float hx hy =>
    rename_i a b
    rcases hp with hp | hp
    · cases a <;> simp_all [Ty.isNumeric, Ty.parts, Ty.matches, refinesFloat]
    · cases b <;> simp_all [Ty.isNumeric, Ty.parts, Ty.matches, refinesFloat]
  | string x y => rcases hp with hp | hp <;> simp_all [Ty.parts, Ty.matches, refines]
  | list x y =>
    rcases hp with hp | hp
    · obtain rfl := List.mem_singleton.1 hp
      exact (Ty.array_matches rfl rfl).trans (hj rfl ha hb rfl rfl).1
    · obtain rfl := List.mem_singleton.1 hp
      exact (Ty.array_matches rfl rfl).trans (hj rfl ha hb rfl rfl).2
  | map hx hy =>
    rename_i a b x y
    rcases hp with hp | hp
    · obtain ⟨harr, rfl⟩ := Ty.eq_of_mem_parts_array hx hp
      exact (Ty.array_matches hx rfl).trans (hj harr ha hb hx hy).1
    · obtain ⟨harr, rfl⟩ := Ty.eq_of_mem_parts_array hy hp
      exact (Ty.array_matches hy rfl).trans (hj harr ha hb hx hy).2
  | function f g =>
    rcases hp with hp | hp <;>
      simp_all [Ty.parts, Ty.callable, Ty.matches, Signature.matches, Signature.callable]
  | optionals s t hc ih =>
    obtain ⟨hox, hx⟩ := hcontent _ _ ha
    obtain ⟨hoy, hy⟩ := hcontent _ _ hb
    have ih := ih (hcont _ _ ha) (hcont _ _ hb)
    rw [hx, hy, List.mem_singleton, List.mem_singleton] at ih
    rcases hp with hp | hp
    · rcases List.mem_cons.1 hp with rfl | hp
      · exact Ty.matches_makeOptional _ hox (ih (.inl rfl))
      · exact Sentinel.matches_makeOptional _ (Sentinel.types_subset_union t hp).1
    · rcases List.mem_cons.1 hp with rfl | hp
      · exact Ty.matches_makeOptional _ hoy (ih (.inr rfl))
      · exact Sentinel.matches_makeOptional _ (Sentinel.types_subset_union s hp).2
  | sentinelLeft c s ht => exact Sentinel.covers_absorb (hw _ ha) ht hp
  | sentinelRight c s ht => exact Sentinel.covers_absorb (hw _ hb) ht hp.symm
  | contentLeft s ho ht hc ih =>
    obtain ⟨hoc, hx⟩ := hcontent _ _ ha
    have ih := ih (hcont _ _ ha) hb
    rw [hx, Ty.parts_eq ho, List.mem_singleton, List.mem_singleton] at ih
    rw [Ty.parts_eq ho] at hp
    rcases hp with hp | hp
    · rcases List.mem_cons.1 hp with rfl | hp
      · exact Ty.matches_makeOptional _ hoc (ih (.inl rfl))
      · exact Sentinel.matches_makeOptional _ hp
    · obtain rfl := List.mem_singleton.1 hp
      exact Ty.matches_makeOptional _ ho (ih (.inr rfl))
  | contentRight s ho ht hc ih =>
    obtain ⟨hoc, hx⟩ := hcontent _ _ hb
    have ih := ih (hcont _ _ hb) ha
    rw [hx, Ty.parts_eq ho, List.mem_singleton, List.mem_singleton] at ih
    rw [Ty.parts_eq ho] at hp
    rcases hp with hp | hp
    · obtain rfl := List.mem_singleton.1 hp
      exact Ty.matches_makeOptional _ ho (ih (.inr rfl))
    · rcases List.mem_cons.1 hp with rfl | hp
      · exact Ty.matches_makeOptional _ hoc (ih (.inl rfl))
      · exact Sentinel.matches_makeOptional _ hp
  | promoteLeft _ hs => exact Sentinel.covers_promote (hw _ ha) hs hp
  | promoteRight _ hs => exact Sentinel.covers_promote (hw _ hb) hs hp.symm

end PhpCheck
