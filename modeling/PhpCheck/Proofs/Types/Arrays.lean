import PhpCheck.Proofs.Types.Reachable
import PhpCheck.Proofs.Types.Steady

/-!
Arrays in a union.

Where there are no functions, adding a type does not lose arrays either, and not
because the subtype test is transitive on them.  Two arrays always merge, so a
union has at most one.  Once it has merged with an array that is added, all other
merging leaves it as it is (`kept_of_added`, `kept_of_member`).
-/

namespace PhpCheck

/-! ### Arrays -/

/-- An array, or an optional one. -/
def Ty.holdsArray : Ty → Bool
  | .optional c _ => c.isArray
  | t => t.isArray

theorem Ty.holdsArray_of_part {t p : Ty} (hp : p ∈ t.parts) (harr : p.isArray = true) :
    t.holdsArray = true := by
  cases t with
  | optional c s =>
    rcases List.mem_cons.1 hp with rfl | hp
    · exact harr
    · rcases Sentinel.eq_of_mem hp with rfl | rfl <;> simp [Ty.isArray] at harr
  | _ =>
    rw [List.mem_singleton.1 hp] at harr
    exact harr

theorem Ty.isArray_iff {t : Ty} : t.isArray = true ↔ ∃ x, t.member? = some x := by
  cases t <;> simp [Ty.isArray, Ty.member?]

theorem Ty.isArray_of_matches {h : Hierarchy} {p q : Ty} (hp : p.isArray = true)
    (hq : q.isAtom = true) (hf : ∀ f, q ≠ .function f) (hpq : p.matches h q = true) :
    q.isArray = true := by
  cases p <;> simp only [Ty.isArray, Bool.false_eq_true] at hp <;>
    cases q <;> simp_all [Ty.isArray, Ty.isAtom, Ty.matches]

theorem Ty.holdsArray_eq (t : Ty) : t.holdsArray = t.core.isArray := by
  cases t <;> rfl

/-- Two arrays can always be merged. -/
theorem Ty.combine?_ne_none {a b : Ty} (ha : a.holdsArray = true) (hb : b.holdsArray = true) :
    a.combine? b ≠ none := by
  rw [holdsArray_eq] at ha hb
  have hcore : ∀ {t : Ty}, t.isArray = true → t.isOptional = false ∧ Sentinel.ofTy? t = none := by
    intro t ht
    cases t <;> simp_all [Ty.isArray, Ty.isOptional, Sentinel.ofTy?]
  obtain ⟨x, hx⟩ := isArray_iff.1 ha
  obtain ⟨y, hy⟩ := isArray_iff.1 hb
  exact combine?_ne_none_of_core (hcore ha) (hcore hb) (fun j => ⟨_, .map hx hy⟩)
    fun j => ⟨_, .map hy hx⟩

theorem Ty.holdsArray_makeOptional (c : Ty) (s : Sentinel) :
    (c.makeOptional s).holdsArray = c.holdsArray := by
  cases c <;> rfl

theorem Ty.mem_parts_makeOptional {c p : Ty} (s : Sentinel) (hp : p ∈ c.parts) :
    p ∈ (c.makeOptional s).parts := by
  cases c with
  | optional d o =>
    rcases List.mem_cons.1 hp with rfl | hp
    · exact List.mem_cons_self
    · exact List.mem_cons_of_mem d (Sentinel.types_subset_union s hp).1
  | mixed => exact hp
  | _ => exact List.mem_cons.2 (.inl (List.mem_singleton.1 hp))

theorem Ty.holdsArray_of_member? {t : Ty} {u : TyUnion} (ht : t.member? = some u) :
    t.holdsArray = true := by
  cases t <;> first | rfl | cases ht

theorem Ty.holdsArray_of_isNumeric {t : Ty} (ht : t.isNumeric = true) : t.holdsArray = false := by
  cases t <;> first | rfl | cases ht

section

variable {j : TyUnion → TyUnion → TyUnion}

/-- Merging makes no arrays. -/
theorem Ty.Combines.holdsArray_eq_false {a b r : Ty} (hr : Ty.Combines j a b r)
    (ha : a.holdsArray = false) (hb : b.holdsArray = false) (hwa : a.WellFormed)
    (hwb : b.WellFormed) : r.holdsArray = false := by
  have hcontent : ∀ c s, (Ty.optional c s).WellFormed → (Ty.optional c s).holdsArray = false →
      c.WellFormed ∧ c.holdsArray = false := by
    intro c s hc harr
    obtain ⟨hc, -, ho⟩ := Ty.wellFormed_optional.1 hc
    refine ⟨hc, ?_⟩
    cases c <;> simp_all [Ty.holdsArray, Ty.isOptional]
  induction hr with
  | left hm => exact ha
  | right hm => exact hb
  | bool hx hy | int x y | string x y | function f g | float hx hy => rfl
  | list x y => simp [Ty.holdsArray, Ty.isArray] at ha
  | map hx hy =>
    rw [Ty.holdsArray_of_member? hx] at ha
    cases ha
  | optionals s t hc ih =>
    obtain ⟨hwx, hx⟩ := hcontent _ _ hwa ha
    obtain ⟨hwy, hy⟩ := hcontent _ _ hwb hb
    rw [Ty.holdsArray_makeOptional]
    exact ih hx hy hwx hwy
  | sentinelLeft c s ht =>
    rw [Ty.holdsArray_makeOptional]
    exact (hcontent _ _ hwa ha).2
  | sentinelRight c s ht =>
    rw [Ty.holdsArray_makeOptional]
    exact (hcontent _ _ hwb hb).2
  | contentLeft s ho ht hc ih =>
    obtain ⟨hwx, hx⟩ := hcontent _ _ hwa ha
    rw [Ty.holdsArray_makeOptional]
    exact ih hx hb hwx hwb
  | contentRight s ho ht hc ih =>
    obtain ⟨hwx, hx⟩ := hcontent _ _ hwb hb
    rw [Ty.holdsArray_makeOptional]
    exact ih hx ha hwx hwa
  | promoteLeft hp hs => rwa [Ty.holdsArray_makeOptional]
  | promoteRight hp hs => rwa [Ty.holdsArray_makeOptional]

/-- A type without functions or arrays takes no array. -/
theorem Ty.Plain.not_matches_array {b p : Ty} (hb : b.Plain) (hm : b.isMixed = false)
    (harr : b.holdsArray = false) (hp : p.isArray = true) : p.matches .flat b = false := by
  rw [Bool.eq_false_iff]
  intro hpb
  have hpa : p.isAtom = true := by
    cases p <;> simp_all [Ty.isArray, Ty.isAtom]
  obtain ⟨q, hq, hpq⟩ := (Ty.matches_iff_parts hpa).1 hpb
  have hqarr := Ty.isArray_of_matches hp (hb.1.isAtom_part hm hq)
    (Ty.ne_function (Ty.functionFree_part hb.2 hq)) hpq
  rw [Ty.holdsArray_of_part hq hqarr] at harr
  cases harr

theorem Ty.Plain.content {c : Ty} {s : Sentinel} (hc : (Ty.optional c s).Plain) : c.Plain :=
  ⟨(Ty.wellFormed_optional.1 hc.1).1, by simpa [Ty.functionFree] using hc.2⟩

theorem Ty.Plain.optional {c : Ty} {s : Sentinel} (hc : (Ty.optional c s).Plain) :
    c.isMixed = false ∧ c.parts = [c] ∧ (Ty.optional c s).holdsArray = c.holdsArray := by
  obtain ⟨-, hm, ho⟩ := Ty.wellFormed_optional.1 hc.1
  refine ⟨hm, Ty.parts_eq ho, ?_⟩
  cases c <;> simp_all [Ty.holdsArray, Ty.isOptional]

theorem Ty.not_mem_parts {t p : Ty} (hp : p.isArray = true) (ht : t.holdsArray = false) :
    p ∉ t.parts := by
  intro hmem
  rw [holdsArray_of_part hmem hp] at ht
  cases ht

theorem Sentinel.holdsArray_of_ofTy? {t : Ty} {o : Sentinel} (ht : Sentinel.ofTy? t = some o) :
    t.holdsArray = Bool.false := by
  rcases Sentinel.ofTy?_eq_some ht with ⟨rfl, rfl⟩ | ⟨rfl, rfl⟩ <;> rfl

/-- The array part of an optional type is its content. -/
theorem Ty.Plain.mem_content {c p : Ty} {s : Sentinel} (hc : (Ty.optional c s).Plain)
    (hp : p.isArray = true) (hmem : p ∈ (Ty.optional c s).parts) : p ∈ c.parts := by
  rcases List.mem_cons.1 hmem with rfl | hmem
  · rw [hc.optional.2.1]
    exact List.mem_singleton_self _
  · exact absurd (Ty.holdsArray_of_part (t := .optional .null s) (List.mem_cons_of_mem _ hmem) hp)
      (by simp [Ty.holdsArray, Ty.isArray])

/-- Merging with a type that has no array leaves an array as it is. -/
theorem Ty.Combines.keeps_array {a b r p : Ty} (hr : Ty.Combines j a b r) (hp : p.isArray = true)
    (ha : a.Plain) (hb : b.Plain) (hma : a.isMixed = false) (hmb : b.isMixed = false) :
    (p ∈ a.parts → b.holdsArray = false → p ∈ r.parts) ∧
      (p ∈ b.parts → a.holdsArray = false → p ∈ r.parts) := by
  have hno : ∀ {t : Ty}, t.holdsArray = false → p ∉ t.parts := fun ht => Ty.not_mem_parts hp ht
  induction hr with
  | left hm =>
    refine ⟨fun hmem _ => hmem, fun hmem harr => ?_⟩
    have hpa := Ty.part_matches hm hmem
    rw [ha.not_matches_array hma harr hp] at hpa
    cases hpa
  | right hm =>
    refine ⟨fun hmem harr => ?_, fun hmem _ => hmem⟩
    have hpb := Ty.part_matches hm hmem
    rw [hb.not_matches_array hmb harr hp] at hpb
    cases hpb
  | bool hx hy | int x y | string x y =>
    exact ⟨fun hmem _ => absurd hmem (hno rfl), fun hmem _ => absurd hmem (hno rfl)⟩
  | float hx hy =>
    exact ⟨fun hmem _ => absurd hmem (hno (Ty.holdsArray_of_isNumeric hx)),
      fun hmem _ => absurd hmem (hno (Ty.holdsArray_of_isNumeric hy))⟩
  | list x y => simp [Ty.holdsArray, Ty.isArray]
  | map hx hy =>
    simp [Ty.holdsArray_of_member? hx, Ty.holdsArray_of_member? hy]
  | function f g => exact absurd rfl (Ty.ne_function ha.2 f)
  | optionals s t hc ih =>
    obtain ⟨ihx, ihy⟩ := ih ha.content hb.content ha.optional.1 hb.optional.1
    rw [ha.optional.2.2, hb.optional.2.2]
    exact ⟨fun hmem harr => Ty.mem_parts_makeOptional _ (ihx (ha.mem_content hp hmem) harr),
      fun hmem harr => Ty.mem_parts_makeOptional _ (ihy (hb.mem_content hp hmem) harr)⟩
  | sentinelLeft c s ht =>
    exact ⟨fun hmem _ => Ty.mem_parts_makeOptional _ (ha.mem_content hp hmem),
      fun hmem _ => absurd hmem (hno (Sentinel.holdsArray_of_ofTy? ht))⟩
  | sentinelRight c s ht =>
    exact ⟨fun hmem _ => absurd hmem (hno (Sentinel.holdsArray_of_ofTy? ht)),
      fun hmem _ => Ty.mem_parts_makeOptional _ (hb.mem_content hp hmem)⟩
  | contentLeft s ho ht hc ih =>
    obtain ⟨ihx, iht⟩ := ih ha.content hb ha.optional.1 hmb
    rw [ha.optional.2.2]
    exact ⟨fun hmem harr => Ty.mem_parts_makeOptional _ (ihx (ha.mem_content hp hmem) harr),
      fun hmem harr => Ty.mem_parts_makeOptional _ (iht hmem harr)⟩
  | contentRight s ho ht hc ih =>
    obtain ⟨ihx, iht⟩ := ih hb.content ha hb.optional.1 hma
    rw [hb.optional.2.2]
    exact ⟨fun hmem harr => Ty.mem_parts_makeOptional _ (iht hmem harr),
      fun hmem harr => Ty.mem_parts_makeOptional _ (ihx (hb.mem_content hp hmem) harr)⟩
  | promoteLeft _ hs =>
    exact ⟨fun hmem _ => Ty.mem_parts_makeOptional _ hmem,
      fun hmem _ => absurd hmem (hno (Sentinel.holdsArray_of_ofTy? hs))⟩
  | promoteRight _ hs =>
    exact ⟨fun hmem _ => absurd hmem (hno (Sentinel.holdsArray_of_ofTy? hs)),
      fun hmem _ => Ty.mem_parts_makeOptional _ hmem⟩

end

/-! ### Adding a type -/

section

variable {j : TyUnion → TyUnion → TyUnion} {K : Ty → Prop}

/-- An array is still a part of some member, unless all distinctions are gone. -/
def Kept (q : Ty) (ms : List Ty) : Prop := ms = [.mixed] ∨ ∃ m ∈ ms, q ∈ m.parts

theorem Kept.covers {p q : Ty} {ms : List Ty} (hk : Kept q ms) (hp : p.isAtom = true)
    (hpq : p.matches .flat q = true) : ∃ e ∈ ms, p.matches .flat e = true := by
  rcases hk with rfl | ⟨m, hm, hq⟩
  · exact ⟨.mixed, List.mem_singleton_self _, Ty.matches_mixed p⟩
  · exact ⟨m, hm, (Ty.matches_iff_parts hp).2 ⟨q, hq, hpq⟩⟩

theorem Separate.isMixed_eq_false {ms : List Ty} {m : Ty} (hs : Separate ms) (hne : ms ≠ [.mixed])
    (hm : m ∈ ms) : m.isMixed = false := by
  cases m with
  | mixed => exact absurd (hs.mixed_alone hm) hne
  | _ => rfl

theorem Ty.isMixed_eq_false {t : Ty} (ht : t ≠ .mixed) : t.isMixed = false := by
  cases t <;> simp_all [Ty.isMixed]

/-- A union has one array at most. -/
theorem Separate.holdsArray_eq_false {pre post : List Ty} {m : Ty}
    (hs : Separate (pre ++ m :: post)) (hm : m.holdsArray = true) :
    ∀ x ∈ pre ++ post, x.holdsArray = false := by
  intro x hx
  rw [Bool.eq_false_iff]
  intro harr
  exact Ty.combine?_ne_none harr hm (hs.combine?_eq_none x hx)

/-- An array that is added to a union without arrays stays as it is. -/
theorem kept_of_added (hK : ∀ t, K t → t.Plain) (hj : MergeClosed j K) {ms : List Ty} {t q : Ty}
    (hs : Separate ms) (hms : ∀ m ∈ ms, K m ∧ m.holdsArray = false) (ht : K t)
    (hq : q.isArray = true) (hqt : q ∈ t.parts) : Kept q (addWith (Ty.combineWith j) ms t) := by
  refine (addWith_induct (motive := fun ms t res => Separate ms →
    (∀ m ∈ ms, K m ∧ m.holdsArray = false) → K t → q ∈ t.parts → Kept q res)
    ?_ ?_ ?_ ?_ ?_ ?_ ms t hs.length_le).1 hs hms ht hqt
  · exact fun ms _ _ _ hqt => absurd hqt (Ty.not_mem_parts hq rfl)
  · exact fun ms _ _ _ _ => .inl rfl
  · exact fun t _ _ _ _ => .inl rfl
  · intro pre m post t r _ hx hne hr ih hs hms ht hqt
    have hr := Ty.combines_of_combineWith hr
    obtain ⟨hm, harr⟩ := hms m (by simp)
    have hmm := hs.isMixed_eq_false hne (List.mem_append_right pre List.mem_cons_self)
    have hkeep := (hr.keeps_array hq (hK m hm) (hK t ht) hmm (Ty.isMixed_eq_false hx)).2
    exact ih (hs.remove hne) (fun x hx => hms x (mem_of_mem_rest m hx)) (hr.keeps hj hm ht)
      (hkeep hqt harr)
  · exact fun ms t _ _ _ _ _ _ _ _ hqt =>
      .inr ⟨t, List.mem_append_right ms (List.mem_singleton_self t), hqt⟩
  · exact fun ms t _ _ _ _ _ _ _ _ _ => .inl rfl

/-- An array of a union stays as it is when what is added has none. -/
theorem kept_of_member (hK : ∀ t, K t → t.Plain) (hj : MergeClosed j K) {ms : List Ty} {t q : Ty}
    (hs : Separate ms) (hms : ∀ m ∈ ms, K m) (ht : K t) (hta : t.holdsArray = false)
    (hq : q.isArray = true) (hqm : ∃ m ∈ ms, q ∈ m.parts) :
    Kept q (addWith (Ty.combineWith j) ms t) := by
  refine (addWith_induct (motive := fun ms t res => Separate ms → (∀ m ∈ ms, K m) → K t →
    t.holdsArray = false → (∃ m ∈ ms, q ∈ m.parts) → Kept q res)
    ?_ ?_ ?_ ?_ ?_ ?_ ms t hs.length_le).1 hs hms ht hta hqm
  · exact fun ms _ _ _ _ hqm => .inr hqm
  · exact fun ms _ _ _ _ _ => .inl rfl
  · exact fun t _ _ _ _ _ => .inl rfl
  · intro pre m post t r _ hx hne hr ih hs hms ht hta hqm
    have hr := Ty.combines_of_combineWith hr
    have hm := hms m (by simp)
    have hrest : ∀ x ∈ pre ++ post, K x := fun x hx => hms x (mem_of_mem_rest m hx)
    have hmm := hs.isMixed_eq_false hne (List.mem_append_right pre List.mem_cons_self)
    have hkr := hr.keeps hj hm ht
    by_cases hma : m.holdsArray = true
    · -- The array is in `m`, and what is left has none.
      have hfree := hs.holdsArray_eq_false hma
      have hqm : q ∈ m.parts := by
        obtain ⟨m', hm', hqm'⟩ := hqm
        rcases eq_or_mem_rest hm' with rfl | hin
        · exact hqm'
        · exact absurd hqm' (Ty.not_mem_parts hq (hfree m' hin))
      have hkeep := (hr.keeps_array hq (hK m hm) (hK t ht) hmm (Ty.isMixed_eq_false hx)).1
      exact kept_of_added hK hj (hs.remove hne) (fun x hx => ⟨hrest x hx, hfree x hx⟩) hkr hq
        (hkeep hqm hta)
    · have hma : m.holdsArray = false := by simpa using hma
      refine ih (hs.remove hne) hrest hkr
        (hr.holdsArray_eq_false hma hta (hK m hm).1 (hK t ht).1) ?_
      obtain ⟨m', hm', hqm'⟩ := hqm
      refine ⟨m', (eq_or_mem_rest hm').resolve_left ?_, hqm'⟩
      rintro rfl
      exact Ty.not_mem_parts hq hma hqm'
  · intro ms t _ _ _ _ _ _ _ _ _ hqm
    obtain ⟨m, hm, hqm⟩ := hqm
    exact .inr ⟨m, List.mem_append_left [t] hm, hqm⟩
  · exact fun ms t _ _ _ _ _ _ _ _ _ _ => .inl rfl

/-- When a type is added, arrays on either side end up in one that accepts them and
that stays as it is. -/
theorem exists_kept (hK : ∀ t, K t → t.Plain) (hj : MergeClosed j K) (hcov : JoinCovers j K)
    {ms : List Ty} {t p : Ty} (hs : Separate ms) (hms : ∀ m ∈ ms, K m) (ht : K t)
    (hp : p.isArray = true) (hmem : p ∈ t.parts ∨ ∃ m ∈ ms, p ∈ m.parts) :
    ∃ q, q.isArray = true ∧ p.matches .flat q = true ∧
      Kept q (addWith (Ty.combineWith j) ms t) := by
  have hpa : p.isAtom = true := by
    cases p <;> simp_all [Ty.isArray, Ty.isAtom]
  have hself : p.matches .flat p = true := by
    rcases hmem with hpt | ⟨m, hm, hpm⟩
    · exact ((hK t ht).1.part hpt).matches_self
    · exact ((hK m (hms m hm)).1.part hpm).matches_self
  have hone : ∃ q, q.isArray = true ∧ p.matches .flat q = true ∧ Kept q [.mixed] :=
    ⟨p, hp, hself, .inl rfl⟩
  refine (addWith_induct (motive := fun ms t res => Separate ms → (∀ m ∈ ms, K m) → K t →
    (p ∈ t.parts ∨ ∃ m ∈ ms, p ∈ m.parts) →
    ∃ q, q.isArray = true ∧ p.matches .flat q = true ∧ Kept q res)
    ?_ ?_ ?_ ?_ ?_ ?_ ms t hs.length_le).1 hs hms ht hmem
  · intro ms _ hms _ hmem
    obtain ⟨m, hm, hpm⟩ := hmem.resolve_left (Ty.not_mem_parts hp rfl)
    exact ⟨p, hp, hself, .inr ⟨m, hm, hpm⟩⟩
  · exact fun ms _ _ _ _ => hone
  · exact fun t _ _ _ _ => hone
  · intro pre m post t r _ hx hne hr ih hs hms ht hmem
    have hr := Ty.combines_of_combineWith hr
    have hm := hms m (by simp)
    have hrest : ∀ x ∈ pre ++ post, K x := fun x hx => hms x (mem_of_mem_rest m hx)
    have hmm := hs.isMixed_eq_false hne (List.mem_append_right pre List.mem_cons_self)
    have hkr := hr.keeps hj hm ht
    by_cases hma : m.holdsArray = true
    · have hfree := hs.holdsArray_eq_false hma
      -- The array is in one of the types that merge, and what is left has none.
      have hmem : p ∈ m.parts ∨ p ∈ t.parts := by
        rcases hmem with hpt | ⟨m', hm', hpm'⟩
        · exact .inr hpt
        · rcases eq_or_mem_rest hm' with rfl | hin
          · exact .inl hpm'
          · exact absurd hpm' (Ty.not_mem_parts hp (hfree m' hin))
      have hpr : p.matches .flat r = true :=
        hr.covers (fun t ht => (hK t ht).1) (fun c s => hj.content) (fun _ => hcov) hm ht hmem
      obtain ⟨q, hq, hpq⟩ := (Ty.matches_iff_parts hpa).1 hpr
      by_cases hrm : r = .mixed
      · rw [hrm, addWith]
        exact hone
      · have hqarr := Ty.isArray_of_matches hp
          ((hK r hkr).1.isAtom_part (Ty.isMixed_eq_false hrm) hq)
          (Ty.ne_function (Ty.functionFree_part (hK r hkr).2 hq)) hpq
        exact ⟨q, hqarr, hpq, kept_of_added hK hj (hs.remove hne)
          (fun x hx => ⟨hrest x hx, hfree x hx⟩) hkr hqarr hq⟩
    · have hma : m.holdsArray = false := by simpa using hma
      refine ih (hs.remove hne) hrest hkr ?_
      rcases hmem with hpt | ⟨m', hm', hpm'⟩
      · exact .inl ((hr.keeps_array hp (hK m hm) (hK t ht) hmm (Ty.isMixed_eq_false hx)).2 hpt hma)
      · refine .inr ⟨m', (eq_or_mem_rest hm').resolve_left ?_, hpm'⟩
        rintro rfl
        exact Ty.not_mem_parts hp hma hpm'
  · intro ms t _ _ _ _ _ _ _ _ hmem
    refine ⟨p, hp, hself, .inr ?_⟩
    rcases hmem with hpt | ⟨m, hm, hpm⟩
    · exact ⟨t, List.mem_append_right ms (List.mem_singleton_self t), hpt⟩
    · exact ⟨m, List.mem_append_left [t] hm, hpm⟩
  · exact fun ms t _ _ _ _ _ _ _ _ _ => hone

end

end PhpCheck
