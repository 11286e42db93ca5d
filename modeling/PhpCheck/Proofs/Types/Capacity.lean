import Mathlib.Data.List.Perm.Subperm
import PhpCheck.Proofs.Types.Filtering

/-!
How many alternatives there can be.

A union gives up on definite its alternatives apart when there are more than
`maxMembers`.  An operation that takes pieces of the members never makes it give up,
though it can list more pieces than that: what is left of an optional type is its
content and its sentinels.  A sentinel is taken up by every other type, so that only
pieces other than sentinels count (`TyUnion.isMixed_ofList`).  Nor does adding types
ever make a union empty (`TyUnion.eq_void_of_isEmpty_ofList`).
-/

namespace PhpCheck

section

variable {j : TyUnion → TyUnion → TyUnion}

/-! ### Sentinels -/

/-- Whether a type is one of the two sentinels. -/
def Ty.isSentinel (t : Ty) : Bool := (Sentinel.ofTy? t).isSome

theorem Ty.isSentinel_iff {t : Ty} :
    t.isSentinel = true ↔ t = .bool (some Bool.false) ∨ t = .null := by
  constructor
  · intro ht
    obtain ⟨o, ho⟩ := Option.isSome_iff_exists.1 ht
    exact (Sentinel.ofTy?_eq_some ho).imp And.left And.left
  · rintro (rfl | rfl) <;> rfl

/-- Every type but the other sentinel takes up a sentinel. -/
theorem Ty.combineWith_sentinel {s t : Ty} (hs : s.isSentinel = true)
    (ht : t.isSentinel = false) : t.combineWith j s ≠ none := by
  intro hn
  have hapart := matches_eq_false_of_combine?_eq_none ((combineWith_eq_none_iff j).1 hn)
  rcases isSentinel_iff.1 hs with rfl | rfl
  · cases t with
    | bool x => rcases x with _ | _ | _ <;> simp_all [Ty.isSentinel, Sentinel.ofTy?, Ty.combineWith]
    | _ => simp_all [Ty.combineWith, Ty.absorb, Ty.promote?, Ty.isPromotable, Ty.isSentinel,
        Sentinel.ofTy?]
  · cases t with
    | bool x => rcases x with _ | _ | _ <;> simp_all [Ty.isSentinel, Sentinel.ofTy?,
        Ty.combineWith, Ty.promote?, Ty.isPromotable]
    | _ => simp_all [Ty.combineWith, Ty.absorb, Ty.promote?, Ty.isPromotable, Ty.isSentinel,
        Sentinel.ofTy?]

theorem Ty.isSentinel_of_combineWith {s t r : Ty} (hs : s.isSentinel = true)
    (ht : t.isSentinel = true) (hr : s.combineWith j t = some r) : r.isSentinel = true := by
  rcases isSentinel_iff.1 hs with rfl | rfl <;> rcases isSentinel_iff.1 ht with rfl | rfl <;>
    simp_all [Ty.combineWith, Ty.matches, refines, Ty.promote?, Ty.isPromotable, isSentinel_iff]

theorem Separate.length_le_two {ms : List Ty} (hs : Separate ms)
    (hall : ∀ m ∈ ms, m.isSentinel = true) : ms.length ≤ 2 := by
  have hnodup : ms.Nodup := by
    refine hs.apart.imp_of_mem fun {a b} ha _ hab => ?_
    rintro rfl
    have hself := (Ty.matches_eq_false_of_combine?_eq_none hab).1
    rcases Ty.isSentinel_iff.1 (hall a ha) with rfl | rfl <;> simp [Ty.matches, refines] at hself
  have hsub : ms ⊆ [.bool (some Bool.false), .null] := by
    intro m hm
    simpa using Ty.isSentinel_iff.1 (hall m hm)
  exact (hnodup.subperm hsub).length_le

/-! ### Adding one type -/

/-- A type of which merging makes no `mixed`. -/
def Ty.Definite (t : Ty) : Prop := t.WellFormed ∧ t.isMixed = false

theorem mergeClosed_definite
    (hj : ∀ x y : TyUnion, x.WellFormed → y.WellFormed → (j x y).WellFormed) :
    MergeClosed j Ty.Definite where
  bool := ⟨(mergeClosed_wellFormed hj).bool, rfl⟩
  int := ⟨(mergeClosed_wellFormed hj).int, rfl⟩
  float := ⟨(mergeClosed_wellFormed hj).float, rfl⟩
  string := ⟨(mergeClosed_wellFormed hj).string, rfl⟩
  callable _ := ⟨Ty.wellFormed_callable, rfl⟩
  array ha hb hka hkb :=
    have hw := (mergeClosed_wellFormed hj).array ha hb hka.1 hkb.1
    ⟨⟨hw.1, rfl⟩, ⟨hw.2, rfl⟩⟩
  content hc := ⟨hc.1.content, (Ty.wellFormed_optional.1 hc.1).2.1⟩
  makeOptional s hc := by
    rename_i c
    refine ⟨hc.1.makeOptional s, ?_⟩
    have hm := hc.2
    cases c <;> simp_all [Ty.makeOptional, Ty.isMixed]

/-- Where there is room, or where the type merges with a member, all alternatives are
told apart still, and merging makes them no more. -/
theorem addWith_definite (hK : MergeClosed j Ty.Definite) {ms : List Ty} {t : Ty}
    (hl : ms.length ≤ maxMembers) (hms : ∀ m ∈ ms, m.Definite) (ht : t.Definite)
    (hroom : ms.length < maxMembers ∨ ∃ m ∈ ms, m.combineWith j t ≠ none) :
    (∀ m ∈ addWith (Ty.combineWith j) ms t, m.Definite) ∧
      (addWith (Ty.combineWith j) ms t).length ≤ ms.length + 1 ∧
      ((∃ m ∈ ms, m.combineWith j t ≠ none) →
        (addWith (Ty.combineWith j) ms t).length ≤ ms.length) := by
  have hnone : ∀ m ∈ [Ty.mixed], ¬ m.Definite := by
    intro m hm ht
    rw [List.mem_singleton.1 hm] at ht
    cases ht.2
  refine (addWith_induct (motive := fun ms t res => ms.length ≤ maxMembers →
    (∀ m ∈ ms, m.Definite) → t.Definite →
    (ms.length < maxMembers ∨ ∃ m ∈ ms, m.combineWith j t ≠ none) →
    (∀ m ∈ res, m.Definite) ∧ res.length ≤ ms.length + 1 ∧
      ((∃ m ∈ ms, m.combineWith j t ≠ none) → res.length ≤ ms.length))
    ?_ ?_ ?_ ?_ ?_ ?_ ms t hl).1 hl hms ht hroom
  · exact fun ms _ hms _ _ => ⟨hms, Nat.le_add_right _ 1, fun _ => Nat.le_refl _⟩
  · exact fun ms _ _ ht _ => absurd ht (hnone _ (List.mem_singleton_self _))
  · exact fun t _ hms _ _ => absurd (hms _ (List.mem_singleton_self _))
      (hnone _ (List.mem_singleton_self _))
  · intro pre m post t r _ _ _ hr ih hl hms ht _
    have hlen : (pre ++ m :: post).length = (pre ++ post).length + 1 := by
      simp only [List.length_append, List.length_cons]
      omega
    obtain ⟨hres, hle, -⟩ := ih (by omega) (fun x hx => hms x (mem_of_mem_rest m hx))
      ((Ty.combines_of_combineWith hr).keeps hK (hms m (by simp)) ht) (.inl (by omega))
    exact ⟨hres, by omega, fun _ => by omega⟩
  · intro ms t _ _ _ hn hlt _ hms ht _
    refine ⟨fun m hm => ?_, by simp, fun ⟨m, hm, hc⟩ => absurd (hn m hm) hc⟩
    rcases List.mem_append.1 hm with hm | hm
    · exact hms m hm
    · rw [List.mem_singleton.1 hm]
      exact ht
  · rintro ms t _ _ _ hn hle _ _ _ (hlt | ⟨m, hm, hc⟩)
    · omega
    · exact absurd (hn m hm) hc

/-- Sentinels stay sentinels until another type takes them up, all of them. -/
theorem addWith_sentinels {ms : List Ty} {t : Ty} (hl : ms.length ≤ 2)
    (hms : ∀ m ∈ ms, m.isSentinel = true) :
    (∀ m ∈ addWith (Ty.combineWith j) ms t, m.isSentinel = true) ∨
      t.isSentinel = false ∧ (addWith (Ty.combineWith j) ms t).length ≤ 1 := by
  have hmax : 2 < maxMembers := by decide
  refine (addWith_induct (motive := fun ms t res => ms.length ≤ 2 →
    (∀ m ∈ ms, m.isSentinel = true) →
    (∀ m ∈ res, m.isSentinel = true) ∨ t.isSentinel = false ∧ res.length ≤ 1)
    ?_ ?_ ?_ ?_ ?_ ?_ ms t (by omega)).1 hl hms
  · exact fun ms _ hms => .inl hms
  · exact fun ms _ _ => .inr ⟨rfl, Nat.le_refl 1⟩
  · exact fun t _ hms => absurd (hms _ (List.mem_singleton_self _)) (by decide)
  · intro pre m post t r _ _ _ hr ih hl hms
    have hlen : (pre ++ m :: post).length = (pre ++ post).length + 1 := by
      simp only [List.length_append, List.length_cons]
      omega
    refine (ih (by omega) fun x hx => hms x (mem_of_mem_rest m hx)).imp_right ?_
    rintro ⟨hrs, hle⟩
    refine ⟨?_, hle⟩
    rw [Bool.eq_false_iff, ne_eq]
    intro ht
    rw [Ty.isSentinel_of_combineWith (hms m (by simp)) ht hr] at hrs
    cases hrs
  · intro ms t _ _ _ hn _ _ hms
    cases ht : t.isSentinel with
    | true =>
      refine .inl fun m hm => ?_
      rcases List.mem_append.1 hm with hm | hm
      · exact hms m hm
      · rw [List.mem_singleton.1 hm, ht]
    | false =>
      cases ms with
      | nil => exact .inr ⟨rfl, Nat.le_refl 1⟩
      | cons m ms =>
        have hm : m ∈ m :: ms := List.mem_cons_self
        exact absurd (Ty.combineWith_eq_none_comm (hn m hm) j)
          (Ty.combineWith_sentinel (hms m hm) ht)
  · intro ms t _ _ _ _ hle hl _
    omega

end

/-! ### Adding many -/

/-- Members of which none is `mixed`.  They are no more than `k` that are not sentinels,
unless all of them are. -/
structure Roomy (k : Nat) (ms : List Ty) : Prop where
  separate : Separate ms
  definite : ∀ m ∈ ms, m.Definite
  length_le : ms.length ≤ k ∨ ∀ m ∈ ms, m.isSentinel = true

theorem Roomy.nil : Roomy 0 [] := ⟨Separate.nil, by simp, .inl (Nat.le_refl 0)⟩

theorem Roomy.addMember {k : Nat} {ms : List Ty} {t : Ty} (hms : Roomy k ms) (ht : t.Definite)
    (hk : k + [t].countP (!·.isSentinel) ≤ maxMembers) :
    Roomy (k + [t].countP (!·.isSentinel)) (addMember ms t) := by
  have hmax : 2 < maxMembers := by decide
  have hK := mergeClosed_definite
    (wellFormed_joinWithin (max (TyUnion.arrayDepth ⟨ms⟩) t.arrayDepth))
  have hadd := addWith_definite hK hms.separate.length_le hms.definite ht
  by_cases hall : ∀ m ∈ ms, m.isSentinel = true
  · have hl := hms.separate.length_le_two hall
    refine ⟨hms.separate.addWith t, (hadd (.inl (by omega))).1, ?_⟩
    rcases addWith_sentinels hl hall with h | ⟨hts, hle⟩
    · exact .inr h
    · refine .inl (Nat.le_trans hle ?_)
      simp [hts]
  · have hl := hms.length_le.resolve_right hall
    obtain ⟨m, hm, hmt⟩ : ∃ m ∈ ms, m.isSentinel = false := by simpa using hall
    cases hts : t.isSentinel with
    | true =>
      have hmeets : ∃ m ∈ ms, m.combineWith
          (joinWithin (max (TyUnion.arrayDepth ⟨ms⟩) t.arrayDepth)) t ≠ none :=
        ⟨m, hm, Ty.combineWith_sentinel hts hmt⟩
      obtain ⟨hres, -, hle⟩ := hadd (.inr hmeets)
      refine ⟨hms.separate.addWith t, hres, .inl (Nat.le_trans (hle hmeets) ?_)⟩
      simpa [hts] using hl
    | false =>
      have hone : [t].countP (!·.isSentinel) = 1 := by simp [hts]
      rw [hone] at hk ⊢
      obtain ⟨hres, hle, -⟩ := hadd (.inl (by omega))
      exact ⟨hms.separate.addWith t, hres, .inl (by
        show (addWith _ ms t).length ≤ k + 1
        omega)⟩

theorem Roomy.foldl {k : Nat} {ms ts : List Ty} (hms : Roomy k ms) (hts : ∀ t ∈ ts, t.Definite)
    (hk : k + ts.countP (!·.isSentinel) ≤ maxMembers) :
    Roomy (k + ts.countP (!·.isSentinel)) (ts.foldl PhpCheck.addMember ms) := by
  induction ts generalizing k ms with
  | nil => exact hms
  | cons t ts ih =>
    obtain ⟨ht, hts⟩ := List.forall_mem_cons.1 hts
    rw [← List.singleton_append, List.countP_append, ← Nat.add_assoc] at hk ⊢
    exact ih (hms.addMember ht (by omega)) hts hk

theorem TyUnion.isMixed_ofList {ts : List Ty} (hts : ∀ t ∈ ts, t.Definite)
    (hcount : ts.countP (!·.isSentinel) ≤ maxMembers) : (ofList ts).isMixed = false := by
  have hroomy := Roomy.nil.foldl hts (by simpa using hcount)
  rw [← members_ofList] at hroomy
  rw [Bool.eq_false_iff, ne_eq, isMixed_iff]
  intro hm
  have hd := hroomy.definite .mixed (by simp [hm])
  cases hd.2

/-- Taking pieces of the members of a union, one piece of each and sentinels, never
makes it give up. -/
theorem TyUnion.WellFormed.isMixed_ofList_flatMap {u : TyUnion} {g : Ty → List Ty}
    (hu : u.WellFormed) (hg : ∀ m ∈ u.members, ∀ r ∈ g m, r.Definite)
    (hone : ∀ m ∈ u.members, (g m).countP (!·.isSentinel) ≤ 1) :
    (ofList (u.members.flatMap g)).isMixed = false := by
  have hcount : ∀ ts : List Ty, (∀ t ∈ ts, (g t).countP (!·.isSentinel) ≤ 1) →
      (ts.flatMap g).countP (!·.isSentinel) ≤ ts.length := by
    intro ts hts
    induction ts with
    | nil => exact Nat.le_refl 0
    | cons t ts ih =>
      obtain ⟨ht, hts⟩ := List.forall_mem_cons.1 hts
      have hrest := ih hts
      rw [List.flatMap_cons, List.countP_append, List.length_cons]
      omega
  refine isMixed_ofList (fun r hr => ?_) (Nat.le_trans (hcount _ hone)
    (wellFormed_iff.1 hu).2.length_le)
  obtain ⟨m, hm, hr⟩ := List.mem_flatMap.1 hr
  exact hg m hm r hr

theorem countP_toList_le {p : Ty → Bool} (o : Option Ty) : o.toList.countP p ≤ 1 := by
  refine Nat.le_trans List.countP_le_length ?_
  cases o <;> simp

/-- Only the content of what is left of an optional type is no sentinel. -/
theorem countP_remainder_le {h : Hierarchy} {es : List Ty} {t : Ty} :
    (TyUnion.remainder h es t).countP (!·.isSentinel) ≤ 1 := by
  rw [remainder_eq]
  refine Nat.le_trans List.filter_sublist.countP_le ?_
  cases ho : t.isOptional with
  | false => exact Ty.parts_eq ho ▸ List.countP_le_length
  | true =>
    obtain ⟨c, s, rfl⟩ := Ty.eq_optional ho
    have hs : s.types.countP (!·.isSentinel) = 0 := by cases s <;> rfl
    rw [Ty.parts, ← List.singleton_append, List.countP_append, hs]
    exact List.countP_le_length

/-! ### None at all -/

theorem Ty.makeOptional_ne_void (c : Ty) (s : Sentinel) : c.makeOptional s ≠ .void := by
  cases c <;> simp [Ty.makeOptional]

theorem Ty.Combines.ne_void {j : TyUnion → TyUnion → TyUnion} {a b r : Ty}
    (hr : Ty.Combines j a b r) (hb : b ≠ .void) : r ≠ .void := by
  cases hr with
  | left hm =>
    rintro rfl
    rw [Ty.matches_void] at hm
    cases b <;> simp_all
  | right hm => exact hb
  | bool | int | float | string | list | map | function => simp [Ty.callable]
  | _ => exact Ty.makeOptional_ne_void _ _

theorem addWith_ne_nil {j : TyUnion → TyUnion → TyUnion} {ms : List Ty} {t : Ty}
    (hl : ms.length ≤ maxMembers) (hne : ms ≠ [] ∨ t ≠ .void) :
    addWith (Ty.combineWith j) ms t ≠ [] := by
  refine (addWith_induct (motive := fun ms t res => ms ≠ [] ∨ t ≠ .void → res ≠ [])
    ?_ ?_ ?_ ?_ ?_ ?_ ms t hl).1 hne
  · exact fun ms hne => hne.resolve_right fun hv => hv rfl
  · exact fun ms _ => List.cons_ne_nil _ _
  · exact fun t _ => List.cons_ne_nil _ _
  · intro pre m post t r hv _ _ hr ih _
    exact ih (.inr ((Ty.combines_of_combineWith hr).ne_void hv))
  · exact fun ms t _ _ _ _ _ _ => by simp
  · exact fun ms t _ _ _ _ _ _ => List.cons_ne_nil _ _

theorem TyUnion.eq_void_of_isEmpty_ofList {ts : List Ty} (hts : ∀ t ∈ ts, t.WellFormed)
    (he : (ofList ts).isEmpty = true) : ∀ t ∈ ts, t = .void := by
  have hfold : ∀ (ts ms : List Ty), (∀ t ∈ ts, t.WellFormed) → TyUnion.WellFormed ⟨ms⟩ →
      ts.foldl addMember ms = [] → ms = [] ∧ ∀ t ∈ ts, t = .void := by
    intro ts
    induction ts with
    | nil => exact fun ms _ _ hnil => ⟨hnil, by simp⟩
    | cons t ts ih =>
      intro ms hts hms hnil
      obtain ⟨ht, hts⟩ := List.forall_mem_cons.1 hts
      obtain ⟨hstep, hrest⟩ := ih (addMember ms t) hts (hms.add ht) hnil
      have hboth : ¬ (ms ≠ [] ∨ t ≠ .void) := fun hne =>
        addWith_ne_nil (wellFormed_iff.1 hms).2.length_le hne hstep
      simp only [ne_eq, not_or, Classical.not_not] at hboth
      exact ⟨hboth.1, List.forall_mem_cons.2 ⟨hboth.2, hrest⟩⟩
  rw [isEmpty, List.isEmpty_iff, members_ofList] at he
  exact (hfold ts [] hts wellFormed_empty he).2

end PhpCheck
