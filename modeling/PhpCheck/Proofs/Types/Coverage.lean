import PhpCheck.Proofs.Types.Arrays

/-!
What a union accepts after types are added to it.

`Grows` says what one addition keeps: scalars and arrays that were accepted are
accepted afterwards, and an array is not touched again by what has none.  From it
follows what a sequence of additions keeps, hence that joining member types of
arrays covers both sides, hence that adding a type to a union does, as long as there
are no functions.  A union with functions may lose texts, arrays and instances of
`Closure`, but nothing else.
-/

namespace PhpCheck

/-! ### One addition after the other -/

/-- What the members `ms'` have of members `ms` and an added type `t`. -/
structure Grows (ms : List Ty) (t : Ty) (ms' : List Ty) : Prop where
  scalar {p : Ty} (hp : p.isScalar = true)
    (hc : p.matches .flat t = true ∨ ∃ m ∈ ms, p.matches .flat m = true) :
    ∃ e ∈ ms', p.matches .flat e = true
  array {p : Ty} (hp : p.isArray = true) (hself : p.matches .flat p = true)
    (hmem : p ∈ t.parts ∨ Kept p ms) :
    ∃ q, q.isArray = true ∧ p.matches .flat q = true ∧ Kept q ms'
  kept {q : Ty} (hq : q.isArray = true) (ht : t.holdsArray = false) (hk : Kept q ms) : Kept q ms'

section

variable {f : List Ty → Ty → List Ty} {I : List Ty → Prop} {K : Ty → Prop}

/-- What each addition keeps accepting, all of them together do. -/
theorem accepted_foldl {ms ts : List Ty} {p : Ty}
    (hf : ∀ ms t, I ms → K t → I (f ms t) ∧
      ((p.matches .flat t = true ∨ ∃ m ∈ ms, p.matches .flat m = true) →
        ∃ e ∈ f ms t, p.matches .flat e = true))
    (hI : I ms) (hts : ∀ t ∈ ts, K t) (hc : ∃ m ∈ ms ++ ts, p.matches .flat m = true) :
    ∃ e ∈ ts.foldl f ms, p.matches .flat e = true := by
  induction ts generalizing ms with
  | nil => simpa using hc
  | cons t ts ih =>
    obtain ⟨ht, hts⟩ := List.forall_mem_cons.1 hts
    obtain ⟨hI', hstep⟩ := hf ms t hI ht
    refine ih hI' hts ?_
    obtain ⟨m, hm, hpm⟩ := hc
    rcases eq_or_mem_rest hm with rfl | hm
    · obtain ⟨e, he, hpe⟩ := hstep (.inl hpm)
      exact ⟨e, List.mem_append_left ts he, hpe⟩
    · rcases List.mem_append.1 hm with hm | hm
      · obtain ⟨e, he, hpe⟩ := hstep (.inr ⟨m, hm, hpm⟩)
        exact ⟨e, List.mem_append_left ts he, hpe⟩
      · exact ⟨m, List.mem_append_right _ hm, hpm⟩

variable (hf : ∀ ms t, I ms → K t → Grows ms t (f ms t) ∧ I (f ms t))

include hf

theorem kept_foldl {ms ts : List Ty} {q : Ty} (hq : q.isArray = true) (hI : I ms)
    (hts : ∀ t ∈ ts, K t ∧ t.holdsArray = false) (hk : Kept q ms) : Kept q (ts.foldl f ms) := by
  induction ts generalizing ms with
  | nil => exact hk
  | cons t ts ih =>
    obtain ⟨⟨ht, harr⟩, hts⟩ := List.forall_mem_cons.1 hts
    obtain ⟨hg, hI'⟩ := hf ms t hI ht
    exact ih hI' hts (hg.kept hq harr hk)

/-- At most one of the added types has an array.  Up to it, an array stays as it is;
with it, it merges; after it, the outcome stays as it is. -/
theorem array_foldl {ms ts : List Ty} {p : Ty} (hp : p.isArray = true)
    (hself : p.matches .flat p = true) (hI : I ms) (hts : ∀ t ∈ ts, K t)
    (hap : ts.Pairwise fun a b => a.combine? b = none)
    (hmem : Kept p ms ∨ ∃ t ∈ ts, p ∈ t.parts) :
    ∃ e ∈ ts.foldl f ms, p.matches .flat e = true := by
  have hpa : p.isAtom = true := by
    cases p <;> simp_all [Ty.isArray, Ty.isAtom]
  induction ts generalizing ms with
  | nil =>
    rcases hmem with hk | ⟨t, ht, -⟩
    · exact hk.covers hpa hself
    · simp at ht
  | cons t ts ih =>
    obtain ⟨ht, hts⟩ := List.forall_mem_cons.1 hts
    obtain ⟨hapt, hap⟩ := List.pairwise_cons.1 hap
    obtain ⟨hg, hI'⟩ := hf ms t hI ht
    by_cases harr : t.holdsArray = true
    · have hfree : ∀ x ∈ ts, K x ∧ x.holdsArray = false := by
        intro x hx
        refine ⟨hts x hx, ?_⟩
        rw [Bool.eq_false_iff]
        intro hxa
        exact Ty.combine?_ne_none harr hxa (hapt x hx)
      have hin : p ∈ t.parts ∨ Kept p ms := by
        rcases hmem with hk | ⟨x, hx, hpx⟩
        · exact .inr hk
        · rcases List.mem_cons.1 hx with rfl | hx
          · exact .inl hpx
          · exact absurd hpx (Ty.not_mem_parts hp (hfree x hx).2)
      obtain ⟨q, hq, hpq, hk⟩ := hg.array hp hself hin
      exact (kept_foldl hf hq hI' hfree hk).covers hpa hpq
    · have harr : t.holdsArray = false := by simpa using harr
      refine ih hI' hts hap ?_
      rcases hmem with hk | ⟨x, hx, hpx⟩
      · exact .inl (hg.kept hp harr hk)
      · rcases List.mem_cons.1 hx with rfl | hx
        · exact absurd hpx (Ty.not_mem_parts hp harr)
        · exact .inr ⟨x, hx, hpx⟩

end

/-! ### Types without functions, nested to some depth -/

/-- Types without functions whose arrays are nested at most `d` deep. -/
def Ty.PlainWithin (d : Nat) (t : Ty) : Prop := t.Plain ∧ t.arrayDepth ≤ d

def TyUnion.PlainWithin (d : Nat) (u : TyUnion) : Prop :=
  u.WellFormed ∧ ∀ t ∈ u.members, t.PlainWithin d

theorem maxArrayDepth_le_iff {ts : List Ty} {d : Nat} :
    maxArrayDepth ts ≤ d ↔ ∀ t ∈ ts, t.arrayDepth ≤ d := by
  induction ts with
  | nil => simp [maxArrayDepth]
  | cons t ts ih => rw [maxArrayDepth, Nat.max_le, ih, List.forall_mem_cons]

theorem TyUnion.arrayDepth_le_iff {u : TyUnion} {d : Nat} :
    u.arrayDepth ≤ d ↔ ∀ t ∈ u.members, t.arrayDepth ≤ d := by
  obtain ⟨ts⟩ := u
  rw [TyUnion.arrayDepth, maxArrayDepth_le_iff]

theorem TyUnion.plainWithin_iff {u : TyUnion} {d : Nat} :
    u.PlainWithin d ↔ u.WellFormed ∧ u.functionFree = true ∧ u.arrayDepth ≤ d := by
  rw [TyUnion.PlainWithin, functionFree_iff, arrayDepth_le_iff]
  constructor
  · rintro ⟨hw, hts⟩
    exact ⟨hw, fun t ht => (hts t ht).1.2, fun t ht => (hts t ht).2⟩
  · rintro ⟨hw, hf, hd⟩
    exact ⟨hw, fun t ht => ⟨⟨hw.mem t ht, hf t ht⟩, hd t ht⟩⟩

/-- An array is plain when its member types are, and they are nested less deep. -/
theorem Ty.plainWithin_array_iff {a : Ty} {x : TyUnion} {d : Nat} (ha : a.member? = some x) :
    a.PlainWithin d ↔ ∃ e, d = e + 1 ∧ x.PlainWithin e := by
  have hopen : a.PlainWithin d ↔ x.WellFormed ∧ x.functionFree = true ∧ x.arrayDepth + 1 ≤ d := by
    cases a <;> simp_all [Ty.member?, Ty.PlainWithin, Ty.Plain, Ty.WellFormed, Ty.functionFree,
      Ty.arrayDepth, and_assoc]
  rw [hopen]
  constructor
  · rintro ⟨hw, hf, hd⟩
    refine ⟨d - 1, by omega, TyUnion.plainWithin_iff.2 ⟨hw, hf, by omega⟩⟩
  · rintro ⟨e, rfl, hx⟩
    obtain ⟨hw, hf, hd⟩ := TyUnion.plainWithin_iff.1 hx
    exact ⟨hw, hf, by omega⟩

theorem Ty.hereditary_plainWithin (d : Nat) : Hereditary (Ty.PlainWithin d) where
  wellFormed ht := ht.1.1
  part {t p} ht hp := by
    refine ⟨⟨ht.1.1.part hp, functionFree_part ht.1.2 hp⟩, ?_⟩
    have hd := ht.2
    cases t with
    | optional c s =>
      rcases List.mem_cons.1 hp with rfl | hp
      · exact hd
      · cases s <;> simp [Sentinel.types] at hp
        · simp [hp, Ty.arrayDepth]
        · simp [hp, Ty.arrayDepth]
        · rcases hp with rfl | rfl <;> simp [Ty.arrayDepth]
    | _ => exact List.mem_singleton.1 hp ▸ hd
  mixed := ⟨⟨trivial, rfl⟩, Nat.zero_le d⟩

theorem Ty.PlainWithin.makeOptional {c : Ty} {d : Nat} (hc : c.PlainWithin d) (s : Sentinel) :
    (c.makeOptional s).PlainWithin d := by
  refine ⟨⟨hc.1.1.makeOptional s, ?_⟩, ?_⟩
  · have hf := hc.1.2
    cases c <;> simp_all [Ty.makeOptional, Ty.functionFree]
  · have hd := hc.2
    cases c <;> simp_all [Ty.makeOptional, Ty.arrayDepth]

theorem mergeClosed_plainWithin {j : TyUnion → TyUnion → TyUnion} {d : Nat}
    (hj : ∀ e x y, x.PlainWithin e → y.PlainWithin e → (j x y).PlainWithin e) :
    MergeClosed j (Ty.PlainWithin d) where
  bool := ⟨⟨trivial, rfl⟩, Nat.zero_le d⟩
  int := ⟨⟨trivial, rfl⟩, Nat.zero_le d⟩
  float := ⟨⟨trivial, rfl⟩, Nat.zero_le d⟩
  string := ⟨⟨trivial, rfl⟩, Nat.zero_le d⟩
  callable hf := absurd rfl (Ty.ne_function hf.1.2 _)
  array ha hb hka hkb := by
    obtain ⟨e, rfl, hx⟩ := (Ty.plainWithin_array_iff ha).1 hka
    obtain ⟨e', he, hy⟩ := (Ty.plainWithin_array_iff hb).1 hkb
    obtain rfl : e = e' := by omega
    have hxy := hj e _ _ hx hy
    exact ⟨(Ty.plainWithin_array_iff rfl).2 ⟨e, rfl, hxy⟩,
      (Ty.plainWithin_array_iff rfl).2 ⟨e, rfl, hxy⟩⟩
  content hc := (Ty.hereditary_plainWithin d).part hc List.mem_cons_self
  makeOptional s hc := hc.makeOptional s

section

variable {j : TyUnion → TyUnion → TyUnion} {d : Nat}
  (hj : ∀ e x y, x.PlainWithin e → y.PlainWithin e → (j x y).PlainWithin e)

include hj

theorem plainWithin_addWith {ms : List Ty} {t : Ty} (hms : TyUnion.PlainWithin d ⟨ms⟩)
    (ht : t.PlainWithin d) : TyUnion.PlainWithin d ⟨addWith (Ty.combineWith j) ms t⟩ := by
  have hs := (TyUnion.wellFormed_iff.1 hms.1).2
  have hall := addWith_keeps (mergeClosed_plainWithin hj) (Ty.hereditary_plainWithin d).mixed
    hs.length_le hms.2 ht
  exact ⟨TyUnion.wellFormed_iff.2 ⟨fun m hm => (hall m hm).1.1, hs.addWith t⟩, hall⟩

theorem plainWithin_foldl_addWith {ms ts : List Ty} (hms : TyUnion.PlainWithin d ⟨ms⟩)
    (hts : ∀ t ∈ ts, t.PlainWithin d) :
    TyUnion.PlainWithin d ⟨ts.foldl (addWith (Ty.combineWith j)) ms⟩ := by
  induction ts generalizing ms with
  | nil => exact hms
  | cons t ts ih =>
    obtain ⟨ht, hts⟩ := List.forall_mem_cons.1 hts
    exact ih (plainWithin_addWith hj hms ht) hts

end

theorem plainWithin_joinWithin (n d : Nat) (x y : TyUnion) (hx : x.PlainWithin d)
    (hy : y.PlainWithin d) : (joinWithin n x y).PlainWithin d := by
  induction n generalizing d x y with
  | zero => exact hx
  | succ n ih =>
    obtain ⟨ms⟩ := x
    exact plainWithin_foldl_addWith ih hx hy.2

/-! ### The join covers both sides -/

theorem grows_addWith {j : TyUnion → TyUnion → TyUnion} {d : Nat}
    (hj : ∀ e x y, x.PlainWithin e → y.PlainWithin e → (j x y).PlainWithin e)
    (hcov : JoinCovers j (Ty.PlainWithin d)) {ms : List Ty} {t : Ty}
    (hms : TyUnion.PlainWithin d ⟨ms⟩) (ht : t.PlainWithin d) :
    Grows ms t (addWith (Ty.combineWith j) ms t) := by
  have hs := (TyUnion.wellFormed_iff.1 hms.1).2
  have hclosed := mergeClosed_plainWithin (d := d) hj
  have hplain : ∀ t : Ty, t.PlainWithin d → t.Plain := fun t ht => ht.1
  refine ⟨fun {p} hp hc => ?_, fun {p} hp hself hmem => ?_, fun {q} hq harr hk => ?_⟩
  · exact ((Ty.steady_of_isScalar hp).mono hplain).addWith (Ty.hereditary_plainWithin d) hclosed
      hs.length_le hms.2 ht hc
  · rcases hmem with hpt | rfl | hmem
    · exact exists_kept hplain hclosed hcov hs hms.2 ht hp (.inl hpt)
    · rw [addWith_taken]
      exact ⟨p, hp, hself, .inl rfl⟩
    · exact exists_kept hplain hclosed hcov hs hms.2 ht hp (.inr hmem)
  · rcases hk with rfl | hk
    · rw [addWith_taken]
      exact .inl rfl
    · exact kept_of_member hplain hclosed hs hms.2 ht harr hq hk

theorem Ty.Plain.isScalar_or_isArray {t p : Ty} (ht : t.Plain) (hm : t.isMixed = false)
    (hp : p ∈ t.parts) (hv : p ≠ .void) : p.isScalar = true ∨ p.isArray = true := by
  have ha := ht.1.isAtom_part hm hp
  have hf := Ty.functionFree_part ht.2 hp
  cases p <;> simp_all [Ty.isAtom, Ty.functionFree, Ty.isScalar, Ty.isArray]

/-- A type finds its place among some types when each of its parts does. -/
theorem Ty.complies_of_parts {t : Ty} {es : List Ty} (ht : t.WellFormed) (hv : t ≠ .void)
    (hp : ∀ p ∈ t.parts, p ≠ .void → ∃ e ∈ es, p.matches .flat e = true) : t.Complies .flat es := by
  cases t with
  | void => exact absurd rfl hv
  | mixed => exact .inl rfl
  | optional c s =>
    refine .inr (.inr ⟨?_, ?_⟩)
    · rw [allComply_iff]
      intro x hx
      have hxc : x = c ∧ c ≠ .void := by
        cases c <;> simp_all [Ty.alone]
      rw [hxc.1]
      exact .inr (.inl (matchesAny_iff.2 (hp c List.mem_cons_self hxc.2)))
    · rw [allComply_iff]
      intro x hx
      have hxv : x ≠ .void := by
        rintro rfl
        cases s <;> simp [Sentinel.types] at hx
      exact .inr (.inl (matchesAny_iff.2 (hp x (List.mem_cons_of_mem c hx) hxv)))
  | _ => exact .inr (.inl (matchesAny_iff.2 (hp _ (List.mem_singleton_self _) hv)))

section

variable {f : List Ty → Ty → List Ty} {I : List Ty → Prop} {K : Ty → Prop}
  (hf : ∀ ms t, I ms → K t → Grows ms t (f ms t) ∧ I (f ms t)) (hK : ∀ t, K t → t.Plain)

include hf hK

/-- After some additions, all members there were and all types added are covered. -/
theorem complies_foldl {ms ts : List Ty} (hI : I ms) (hms : ∀ m ∈ ms, K m) (hs : Separate ms)
    (hts : ∀ t ∈ ts, K t) (hst : Separate ts) :
    allComply .flat ms (ts.foldl f ms) = true ∧ allComply .flat ts (ts.foldl f ms) = true := by
  suffices hall : ∀ t ∈ ms ++ ts, t.Complies .flat (ts.foldl f ms) by
    exact ⟨allComply_iff.2 fun t ht => hall t (List.mem_append_left ts ht),
      allComply_iff.2 fun t ht => hall t (List.mem_append_right ms ht)⟩
  intro t ht
  have htp : t.Plain := hK t ((List.mem_append.1 ht).elim (hms t) (hts t))
  have htv : t ≠ .void := by
    rintro rfl
    exact (List.mem_append.1 ht).elim hs.void_not_mem hst.void_not_mem
  by_cases hm : t.isMixed = true
  · exact .inl hm
  refine Ty.complies_of_parts htp.1 htv fun p hp hv => ?_
  rcases htp.isScalar_or_isArray (by simpa using hm) hp hv with hps | hpa
  · exact accepted_foldl (fun ms t hI ht => ⟨(hf ms t hI ht).2, (hf ms t hI ht).1.scalar hps⟩)
      hI hts ⟨t, ht, htp.1.part_matches hp⟩
  · refine array_foldl hf hpa (htp.1.part hp).matches_self hI hts hst.apart ?_
    rcases List.mem_append.1 ht with ht | ht
    · exact .inl (.inr ⟨t, ht, hp⟩)
    · exact .inr ⟨t, ht, hp⟩

end

/-- The join of member types covers those of all arrays that are not nested deeper
than it is made for. -/
theorem joinCovers_joinWithin {n d : Nat} (hd : d ≤ n) :
    JoinCovers (joinWithin n) (Ty.PlainWithin d) := by
  induction n generalizing d with
  | zero =>
    intro a b x y ha _ hx _
    obtain ⟨e, rfl, -⟩ := (Ty.plainWithin_array_iff hx).1 ha
    omega
  | succ n ih =>
    intro a b x y ha hb hx hy
    obtain ⟨e, rfl, hx⟩ := (Ty.plainWithin_array_iff hx).1 ha
    obtain ⟨e', he, hy⟩ := (Ty.plainWithin_array_iff hy).1 hb
    obtain rfl : e = e' := by omega
    have hstep : ∀ (ms : List Ty) (t : Ty), TyUnion.PlainWithin e ⟨ms⟩ → t.PlainWithin e →
        Grows ms t (addWith (Ty.combineWith (joinWithin n)) ms t) ∧
          TyUnion.PlainWithin e ⟨addWith (Ty.combineWith (joinWithin n)) ms t⟩ :=
      fun ms t hms ht =>
        ⟨grows_addWith (plainWithin_joinWithin n) (ih (by omega)) hms ht,
          plainWithin_addWith (plainWithin_joinWithin n) hms ht⟩
    obtain ⟨xs⟩ := x
    obtain ⟨hleft, hright⟩ := complies_foldl hstep (fun t ht => ht.1) hx hx.2
      (TyUnion.wellFormed_iff.1 hx.1).2 hy.2 (TyUnion.wellFormed_iff.1 hy.1).2
    exact ⟨TyUnion.membersMatch_of_allComply hleft, TyUnion.membersMatch_of_allComply hright⟩

/-! ### Adding to a union -/

/-- Well-formed unions without functions. -/
def TyUnion.Plain (u : TyUnion) : Prop := u.WellFormed ∧ u.functionFree = true

theorem TyUnion.Plain.mem {u : TyUnion} (hu : u.Plain) : ∀ t ∈ u.members, t.Plain :=
  fun t ht => ⟨hu.1.mem t ht, functionFree_iff.1 hu.2 t ht⟩

theorem TyUnion.Plain.grows_add {u : TyUnion} {t : Ty} (hu : u.Plain) (ht : t.Plain) :
    Grows u.members t (u.add t).members ∧ (u.add t).Plain := by
  obtain ⟨ms⟩ := u
  have hms : TyUnion.PlainWithin (max (TyUnion.arrayDepth ⟨ms⟩) t.arrayDepth) ⟨ms⟩ :=
    plainWithin_iff.2 ⟨hu.1, hu.2, Nat.le_max_left _ _⟩
  have htd : t.PlainWithin (max (TyUnion.arrayDepth ⟨ms⟩) t.arrayDepth) :=
    ⟨ht, Nat.le_max_right _ _⟩
  refine ⟨grows_addWith (plainWithin_joinWithin _) (joinCovers_joinWithin (Nat.le_refl _)) hms htd,
    ?_⟩
  obtain ⟨hw, hf, -⟩ := plainWithin_iff.1 (plainWithin_addWith (plainWithin_joinWithin
    (max (TyUnion.arrayDepth ⟨ms⟩) t.arrayDepth)) hms htd)
  exact ⟨hw, hf⟩

/-- Adding to a union, on the lists of members. -/
def addMember (ms : List Ty) (t : Ty) : List Ty := (TyUnion.add ⟨ms⟩ t).members

theorem TyUnion.members_foldl_add (u : TyUnion) (ts : List Ty) :
    (ts.foldl TyUnion.add u).members = ts.foldl addMember u.members := by
  induction ts generalizing u with
  | nil => rfl
  | cons t ts ih =>
    obtain ⟨ms⟩ := u
    exact ih _

theorem TyUnion.eta (u : TyUnion) : (⟨u.members⟩ : TyUnion) = u := by
  cases u
  rfl

theorem wellFormed_addMember {ms : List Ty} {t : Ty} (hms : TyUnion.WellFormed ⟨ms⟩)
    (ht : t.WellFormed) : TyUnion.WellFormed ⟨addMember ms t⟩ := by
  rw [addMember, TyUnion.eta]
  exact hms.add ht

theorem grows_addMember (ms : List Ty) (t : Ty) (hms : TyUnion.Plain ⟨ms⟩) (ht : t.Plain) :
    Grows ms t (addMember ms t) ∧ TyUnion.Plain ⟨addMember ms t⟩ := by
  obtain ⟨hg, hp⟩ := hms.grows_add ht
  rw [addMember, TyUnion.eta]
  exact ⟨hg, hp⟩

theorem TyUnion.Plain.union {u v : TyUnion} (hu : u.Plain) (hv : v.Plain) : (u.union v).Plain :=
  List.foldlRecOn v.members TyUnion.add hu fun _ hw t ht => (hw.grows_add (hv.mem t ht)).2

/-- Unions without functions comply with their join. -/
theorem TyUnion.Plain.complies_union {u v : TyUnion} (hu : u.Plain) (hv : v.Plain) :
    u.compliesWith .flat (u.union v) = true ∧ v.compliesWith .flat (u.union v) = true := by
  obtain ⟨ms⟩ := u
  obtain ⟨hleft, hright⟩ := complies_foldl grows_addMember (fun t ht => ht) hu hu.mem
    (wellFormed_iff.1 hu.1).2 hv.mem (wellFormed_iff.1 hv.1).2
  rw [compliesWith_iff, compliesWith_iff, TyUnion.union, members_foldl_add]
  exact ⟨.inr hleft, .inr hright⟩

theorem TyUnion.members_of {t : Ty} (hv : t ≠ .void) : (of t).members = [t] := by
  by_cases hx : t = .mixed
  · rw [hx, of, add, addWith]
  · exact addWith_eq_append hv hx (by simp [empty]) (by simp [empty]) (by decide)

theorem TyUnion.union_of (u : TyUnion) (t : Ty) : u.union (of t) = u.add t := by
  by_cases hv : t = .void
  · obtain ⟨ms⟩ := u
    rw [hv, of, add, add, addWith, addWith]
    rfl
  · rw [union, members_of hv]
    rfl

theorem TyUnion.plain_of {t : Ty} (ht : t.Plain) : (of t).Plain := by
  refine ⟨wellFormed_empty.add ht.1, functionFree_iff.2 ?_⟩
  by_cases hv : t = .void
  · rw [hv, of, add, addWith]
    simp [empty]
  · rw [members_of hv]
    simpa using ht.2

/-! ### Unions with functions -/

theorem Ty.hereditary_wellFormed : Hereditary Ty.WellFormed :=
  ⟨fun ht => ht, fun ht hp => ht.part hp, trivial⟩

/-- Scalars that no function accepts stay accepted whatever is added. -/
theorem TyUnion.WellFormed.fixed_add {u : TyUnion} {t p : Ty} (hu : u.WellFormed)
    (ht : t.WellFormed) (hp : p.isFixed = true)
    (hc : p.matches .flat t = true ∨ ∃ m ∈ u.members, p.matches .flat m = true) :
    ∃ e ∈ (u.add t).members, p.matches .flat e = true :=
  (Ty.steady_of_isFixed hp).addWith Ty.hereditary_wellFormed
    (mergeClosed_wellFormed (wellFormed_joinWithin _)) (wellFormed_iff.1 hu).2.length_le hu.mem
    ht hc

theorem TyUnion.WellFormed.fixed_union {u v : TyUnion} {p : Ty} (hu : u.WellFormed)
    (hv : v.WellFormed) (hp : p.isFixed = true)
    (hc : ∃ m ∈ u.members ++ v.members, p.matches .flat m = true) :
    ∃ e ∈ (u.union v).members, p.matches .flat e = true := by
  obtain ⟨ms⟩ := u
  rw [TyUnion.union, members_foldl_add]
  refine accepted_foldl (I := fun ms => TyUnion.WellFormed ⟨ms⟩) (fun ms t hms ht => ?_)
    hu hv.mem hc
  exact ⟨wellFormed_addMember hms ht, fixed_add hms ht hp⟩

/-- Adding a type loses no alternative but texts, arrays, functions and instances of
`Closure`, and none at all where there are no functions.  So does joining. -/
theorem TyUnion.Reachable.covered_add {u v : TyUnion} {t : Ty} (hu : u.Reachable) (hv : v.Reachable)
    (ht : t.Reachable) :
    (∀ p : Ty, p.isFixed = true →
      ((p.matches .flat t = true ∨ ∃ m ∈ u.members, p.matches .flat m = true) →
        ∃ e ∈ (u.add t).members, p.matches .flat e = true) ∧
      ((∃ m ∈ u.members ++ v.members, p.matches .flat m = true) →
        ∃ e ∈ (u.union v).members, p.matches .flat e = true)) ∧
    (u.functionFree = true → t.functionFree = true →
      u.compliesWith .flat (u.add t) = true ∧ (of t).compliesWith .flat (u.add t) = true) ∧
    (u.functionFree = true → v.functionFree = true →
      u.compliesWith .flat (u.union v) = true ∧ v.compliesWith .flat (u.union v) = true) := by
  have hu := hu.wellFormed
  have hv := hv.wellFormed
  have ht := ht.wellFormed
  refine ⟨fun p hp => ⟨hu.fixed_add ht hp, hu.fixed_union hv hp⟩, fun huf htf => ?_,
    fun huf hvf => TyUnion.Plain.complies_union ⟨hu, huf⟩ ⟨hv, hvf⟩⟩
  rw [← union_of]
  exact TyUnion.Plain.complies_union ⟨hu, huf⟩ (plain_of ⟨ht, htf⟩)

/-- A list of whole numbers or nothing, to which a list of texts is added. -/
theorem TyUnion.covered_add_list :
    let u := (TyUnion.empty.add .null).add (.list (.of (.int none)))
    let t := Ty.list (.of (.string none))
    u.Reachable ∧ t.Reachable ∧ u.functionFree = true ∧ t.functionFree = true ∧
      u.compliesWith .flat (u.add t) = true ∧ (of t).compliesWith .flat (u.add t) = true ∧
      ∃ e ∈ (u.add t).members, Ty.null.matches .flat e = true := by
  intro u t
  have hplain : ∀ x : Ty, x.isScalar = true → x.WellFormed → (Ty.list (.of x)).Plain := by
    intro x hx hw
    have hof : (of x).Plain := plain_of ⟨hw, by cases x <;> simp_all [Ty.isScalar, Ty.functionFree]⟩
    rw [Ty.Plain, Ty.WellFormed, Ty.functionFree]
    exact hof
  have ht : t.Reachable := .list (.add .empty (.string none))
  have hu : u.Reachable := .add (.add .empty .null) (.list (.add .empty (.int none)))
  have htf : t.functionFree = true := (hplain (.string none) rfl trivial).2
  have hnull : (of .null).Plain := plain_of ⟨trivial, rfl⟩
  have huf : u.functionFree = true := (hnull.grows_add (hplain (.int none) rfl trivial)).2.2
  obtain ⟨hfixed, hadd, -⟩ := TyUnion.Reachable.covered_add hu hu ht
  have hin : ∃ m ∈ u.members, Ty.null.matches .flat m = true := by
    refine hnull.1.fixed_add (hplain (.int none) rfl trivial).1 rfl (.inr ⟨.null, ?_⟩)
    rw [members_of (by simp)]
    simp [Ty.matches]
  exact ⟨hu, ht, huf, htf, (hadd huf htf).1, (hadd huf htf).2, (hfixed .null rfl).1 (.inr hin)⟩

theorem TyUnion.text_or_closure :
    (TyUnion.empty.add (.string none)).add (.object "Closure") =
      ⟨[.string none, .object "Closure"]⟩ := by
  have htext : TyUnion.empty.add (.string none) = ⟨[.string none]⟩ := by
    rw [add, empty, addWith_eq_append] <;> simp [maxMembers]
  rw [htext, add, addWith_eq_append (by simp) (by simp) (by simp)]
  · rfl
  · intro m hm
    rw [List.mem_singleton.1 hm]
    simp [Ty.combineWith, Ty.matches, Ty.promote?, Ty.isPromotable, Sentinel.ofTy?]
  · decide

theorem Ty.merge?_text_callable (j : TyUnion → TyUnion → TyUnion) :
    merge? (combineWith j) [.string none, .object "Closure"] .callable =
      some (.callable, [.object "Closure"]) := by
  have htext : ((Ty.string none).key == Ty.callable.key) = false := by decide
  have hobject : ((Ty.object "Closure").key == Ty.callable.key) = false := by decide +kernel
  have hmerged : (Ty.string none).combineWith j .callable = some .callable := by
    simp [combineWith, Ty.matches, callable, Signature.callable]
  simp [merge?, pick?, htext, hobject, hmerged]

theorem Ty.merge?_closure_callable (j : TyUnion → TyUnion → TyUnion) :
    merge? (combineWith j) [.object "Closure"] .callable = some (.object "Closure", []) := by
  have hobject : ((Ty.object "Closure").key == Ty.callable.key) = false := by decide +kernel
  have hmerged : (Ty.object "Closure").combineWith j .callable = some (.object "Closure") := by
    simp [combineWith, Ty.matches, callable, Signature.callable, sameName]
  simp [merge?, pick?, hobject, hmerged]

theorem TyUnion.text_or_closure_add_callable :
    ((TyUnion.empty.add (.string none)).add (.object "Closure")).add .callable =
      ⟨[.object "Closure"]⟩ := by
  have hvoid : Ty.callable ≠ .void := by simp [Ty.callable]
  have hmixed : Ty.callable ≠ .mixed := by simp [Ty.callable]
  rw [text_or_closure, add,
    addWith_merge hvoid hmixed (by simp) (Ty.merge?_text_callable _),
    addWith_merge hvoid hmixed (by simp) (Ty.merge?_closure_callable _),
    addWith_eq_append (by simp) (by simp) (by simp) (by simp) (by decide)]
  rfl

theorem Ty.reachable_callable : Ty.callable.Reachable :=
  .function (by simp [Signature.callable]) .mixed

/-- An untyped function takes a text along into an instance of `Closure`, which does
not accept it. -/
theorem TyUnion.text_lost_in_closure :
    let u := (TyUnion.empty.add (.string none)).add (.object "Closure")
    u.Reachable ∧ Ty.callable.Reachable ∧ Ty.callable ≠ .void ∧
      u.compliesWith .flat (u.add .callable) = false := by
  intro u
  refine ⟨.add (.add .empty (.string none)) (.object "Closure"), Ty.reachable_callable,
    by simp [Ty.callable], ?_⟩
  rw [text_or_closure_add_callable, show u = _ from text_or_closure]
  simp [compliesWith, isMixed, allComply, matchesAny, Ty.isMixed, Ty.matches]

end PhpCheck
