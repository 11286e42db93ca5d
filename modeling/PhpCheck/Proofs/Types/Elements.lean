import PhpCheck.Check.Element
import PhpCheck.Proofs.Types.Capacity
import PhpCheck.Proofs.Types.Described

/-!
Reading an element after one was written.

A union of arrays is one array (`TyUnion.WellFormed.exists_array`), and so it is after a write.
What was written can be read, whatever was known of the elements before.  What could be read
before can still be read, as long as something was known of the elements: a read takes an array
of unknown members for one with members of any type, but a write joins the new type to none, and
the array seems to have no other elements afterwards (`TyUnion.element_withElement`).
-/

namespace PhpCheck

namespace TyUnion

theorem WellFormed.union_eq_ofList {u v : TyUnion} (hu : u.WellFormed) :
    u.union v = ofList (u.members ++ v.members) := by
  have hfold : ofList (u.members ++ v.members) = v.members.foldl TyUnion.add
    (ofList u.members) := by
    rw [ofList, List.foldl_append]
    rfl
  rw [hfold, hu.ofList_members, TyUnion.union]

theorem eq_empty_iff {u : TyUnion} : u = empty ↔ u.isEmpty = true := by
  obtain ⟨ms⟩ := u
  simp [empty, isEmpty]

/-- A join describes what either side describes. -/
theorem Plain.describes_union {h : Hierarchy} {u v : TyUnion} {c : Constant} (hu : u.Plain)
    (hv : v.Plain) (hc : u.Describes h c ∨ v.Describes h c) : (u.union v).Describes h c := by
  rw [hu.1.union_eq_ofList]
  refine describes_ofList (List.forall_mem_append.2 ⟨hu.mem, hv.mem⟩) ?_
  rcases hc with ⟨t, ht, hct⟩ | ⟨t, ht, hct⟩
  · exact ⟨t, List.mem_append_left _ ht, hct⟩
  · exact ⟨t, List.mem_append_right _ ht, hct⟩

theorem WellFormed.union_ne_empty {u v : TyUnion} (hu : u.WellFormed) (hv : v.WellFormed)
    (hne : v.isEmpty = false) : (u.union v).isEmpty = false := by
  rw [Bool.eq_false_iff]
  intro hempty
  rw [hu.union_eq_ofList] at hempty
  have hvoid := eq_void_of_isEmpty_ofList
    (List.forall_mem_append.2 ⟨hu.mem, hv.mem⟩) hempty
  obtain ⟨t, ht⟩ := List.exists_mem_of_ne_nil v.members (by simpa [isEmpty] using hne)
  exact (wellFormed_iff.1 hv).2.void_not_mem
    (hvoid t (List.mem_append_right _ ht) ▸ ht)

/-! ### Widening -/

theorem plain_ofList {ts : List Ty} (hts : ∀ t ∈ ts, t.Plain) : (ofList ts).Plain :=
  List.foldlRecOn ts add plain_empty fun _ hu t ht => (hu.grows_add (hts t ht)).2

theorem Plain.widened {u : TyUnion} (hu : u.Plain) : u.widened.Plain := by
  refine plain_ofList fun t ht => ?_
  obtain ⟨m, hm, rfl⟩ := List.mem_map.1 ht
  refine ⟨(hu.mem m hm).1.widened, ?_⟩
  have hfree := (hu.mem m hm).2
  cases m <;> simp_all [Ty.widened, Ty.functionFree]

theorem WellFormed.widened_ne_empty {u : TyUnion} (hu : u.WellFormed) (hne : u.isEmpty = false) :
    u.widened.isEmpty = false := by
  rw [Bool.eq_false_iff]
  intro hempty
  have hwidened : ∀ t ∈ u.members.map Ty.widened, t.WellFormed := fun t ht => by
    obtain ⟨m, hm, rfl⟩ := List.mem_map.1 ht
    exact (hu.mem m hm).widened
  obtain ⟨t, ht⟩ := List.exists_mem_of_ne_nil u.members (by simpa [isEmpty] using hne)
  have hvoid := eq_void_of_isEmpty_ofList hwidened hempty _ (List.mem_map_of_mem ht)
  have htvoid : t = .void := by
    cases t <;> simp_all [Ty.widened]
  exact (wellFormed_iff.1 hu).2.void_not_mem (htvoid ▸ ht)

/-! ### Arrays -/

/-- A union of arrays is one array. -/
theorem WellFormed.exists_array {u : TyUnion} (hu : u.WellFormed) (hne : u.isEmpty = false)
    (harray : ∀ t ∈ u.members, t.isArray = true) :
    ∃ t x, u.members = [t] ∧ t.member? = some x := by
  obtain ⟨ms⟩ := u
  cases ms with
  | nil => simp [isEmpty] at hne
  | cons t ms =>
    obtain ⟨ht, hms⟩ := List.forall_mem_cons.1 harray
    obtain ⟨x, hx⟩ := Ty.isArray_iff.1 ht
    have hfree := @Separate.holdsArray_eq_false [] ms t (wellFormed_iff.1 hu).2
      (Ty.holdsArray_of_member? hx)
    cases ms with
    | nil => exact ⟨t, x, rfl, hx⟩
    | cons s ms =>
      obtain ⟨y, hy⟩ := Ty.isArray_iff.1 (hms s List.mem_cons_self)
      have hs := hfree s (by simp)
      rw [Ty.holdsArray_of_member? hy] at hs
      cases hs

/-- What is read of an array: the members, or anything where nothing is known of them. -/
theorem element_of_array {u : TyUnion} {t : Ty} {x : TyUnion} (hu : u.members = [t])
    (ht : t.member? = some x) (hx : x.WellFormed) :
    u.element = if x.isEmpty then mixed else x := by
  have hadd : addElement empty t = if x.isEmpty then empty.add .mixed else empty.union x := by
    cases t <;> simp only [Ty.member?, reduceCtorEq, Option.some.injEq] at ht <;>
      rw [← ht, addElement]
  rw [element, hu, List.foldl_cons, List.foldl_nil, hadd, hx.empty_union]
  by_cases hempty : x.isEmpty = true
  · rw [if_pos hempty, if_pos hempty]
    simp [add, empty, addWith, isEmpty, mixed]
  · rw [if_neg hempty, if_neg hempty]

/-- An array stays one when an element is written, with the new type among its members. -/
theorem withElement_of_array {u value : TyUnion} {t : Ty} {x : TyUnion} (key : Option TyUnion)
    (hu : u.members = [t]) (ht : t.member? = some x) :
    ∃ s, (withElement (some u) key value).members = [s] ∧
      s.member? = some (x.union value.widened) := by
  obtain ⟨s, hs, hmember⟩ : ∃ s, writeElement (key.any isTextKey) value.widened t = s ∧
      s.member? = some (x.union value.widened) := by
    cases t <;> simp only [Ty.member?, reduceCtorEq, Option.some.injEq] at ht <;>
      subst ht <;> rw [exists_eq_left', writeElement]
    · rfl
    · split <;> rfl
  have hvoid : s ≠ .void := by
    rintro rfl
    cases hmember
  have hof : empty.add s = ⟨[s]⟩ := by
    rw [← eta (empty.add s)]
    exact congrArg TyUnion.mk (members_of hvoid)
  refine ⟨s, ?_, hmember⟩
  rw [withElement, Option.getD_some, hu, List.foldl_cons, List.foldl_nil, hs, hof]
  rfl

/-! ### Writing and reading -/

/-- After an element was written to an array, a read may give what was written.  It may also give
all that a read could give before, exactly when something was known of the elements or what was
written may have any value. -/
theorem element_withElement {u value : TyUnion} (key : Option TyUnion) (hu : u.Reachable)
    (hfree : u.functionFree = true) (hne : u.isEmpty = false)
    (harray : ∀ t ∈ u.members, t.isArray = true) (hvalue : value.Reachable)
    (hvalueFree : value.functionFree = true) (hvalueNe : value.isEmpty = false) :
    (∀ c, value.widened.Describes .flat c →
      (withElement (some u) key value).element.Describes .flat c) ∧
    ((∀ c, u.element.Describes .flat c →
        (withElement (some u) key value).element.Describes .flat c) ↔
      (∀ t ∈ u.members, t.member? ≠ some empty) ∨ ∀ c, value.widened.Describes .flat c) := by
  obtain ⟨t, x, hmembers, ht⟩ := hu.wellFormed.exists_array hne harray
  have hplain : t.Plain := Plain.mem ⟨hu.wellFormed, hfree⟩ t (by simp [hmembers])
  have hx : x.Plain := by
    cases t <;> simp_all [Ty.member?, Ty.Plain, Plain, Ty.WellFormed, Ty.functionFree]
  have hw : value.widened.Plain := Plain.widened ⟨hvalue.wellFormed, hvalueFree⟩
  have hwNe := hvalue.wellFormed.widened_ne_empty hvalueNe
  obtain ⟨s, hwritten, hs⟩ := @withElement_of_array _ value _ _ key hmembers ht
  have hnew : (withElement (some u) key value).element = x.union value.widened := by
    rw [element_of_array hwritten hs (hx.union hw).1, if_neg]
    simp [hx.1.union_ne_empty hw.1 hwNe]
  rw [hnew, element_of_array hmembers ht hx.1]
  refine ⟨fun c hc => hx.describes_union hw (.inr hc), ?_⟩
  have hunknown : (∀ t ∈ u.members, t.member? ≠ some empty) ↔ x.isEmpty = false := by
    rw [hmembers, List.forall_mem_singleton, ht, ← Bool.not_eq_true, ← eq_empty_iff]
    simp
  rw [hunknown]
  cases hempty : x.isEmpty with
  | true =>
    obtain rfl := eq_empty_iff.2 hempty
    have hall : ∀ c, mixed.Describes .flat c := fun c => describes_of_isMixed c rfl
    simp [hw.1.empty_union, hall]
  | false =>
    refine iff_of_true (fun c hc => hx.describes_union hw (.inl ?_)) (.inl rfl)
    simpa [hempty] using hc

/-- After a number was written to an array of unknown members, only numbers are read. -/
theorem element_withElement_array :
    (∀ c, (of (.int (some 1))).widened.Describes .flat c →
      (withElement (some (of .array)) none (of (.int (some 1)))).element.Describes .flat c) ∧
    ¬ ∀ c, (of .array).element.Describes .flat c →
      (withElement (some (of .array)) none (of (.int (some 1)))).element.Describes .flat c := by
  have hmembers : (of .array).members = [.array] := members_of (by simp [Ty.array])
  have hwidened : (of (.int (some 1))).widened.members = [.int none] := by
    have hof : (of (.int (some 1))).members = [.int (some 1)] := members_of (by simp)
    rw [TyUnion.widened, hof]
    exact members_of (t := .int none) (by simp)
  obtain ⟨hwritten, hread⟩ := @element_withElement (of .array) (of (.int (some 1))) none
    (.add .empty (.map .empty)) (by rw [functionFree_iff, hmembers]; decide)
    (by rw [isEmpty, hmembers]; rfl) (by rw [hmembers]; decide) (.add .empty (.int _))
    (by rw [functionFree_iff, members_of (by simp)]; decide)
    (by rw [isEmpty, members_of (by simp)]; rfl)
  refine ⟨hwritten, fun hall => ?_⟩
  rcases hread.1 hall with hknown | hany
  · exact hknown .array (by simp [hmembers]) rfl
  · obtain ⟨t, ht, hnull⟩ := hany .null
    rw [hwidened, List.mem_singleton] at ht
    rw [ht] at hnull
    simp [Constant.toTy, Ty.matches] at hnull

end TyUnion

end PhpCheck
