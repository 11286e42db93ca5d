import PhpCheck.Proofs.Types.Matching

/-!
Merging two types, and adding a type to a union, as relations.

`Ty.Combines` lists once all the ways in which two types become one, and
`addWith_induct` all that adding a type can do.  What holds of unions is proved
along these two lists and never by opening the functions.  The first use is that
whether two types can be merged depends neither on their order nor on how member
types of arrays are joined.
-/

namespace PhpCheck

section

variable {j : TyUnion → TyUnion → TyUnion}

/-! ### Merging two types -/

/-- The ways in which two types are merged into one, where `j` joins the member
types of arrays. -/
inductive Ty.Combines (j : TyUnion → TyUnion → TyUnion) : Ty → Ty → Ty → Prop
  | left {a b : Ty} (hm : b.matches .flat a = true) : Combines j a b a
  | right {a b : Ty} (hm : a.matches .flat b = true) : Combines j a b b
  | bool {x y : Option Bool} (hx : refines x y = false) (hy : refines y x = false) :
      Combines j (.bool x) (.bool y) (.bool none)
  | int (x y : Option Int64) : Combines j (.int x) (.int y) (.int none)
  | float {a b : Ty} (ha : a.isNumeric = true) (hb : b.isNumeric = true) :
      Combines j a b (.float none)
  | string (x y : Option String) : Combines j (.string x) (.string y) (.string none)
  | list (x y : TyUnion) : Combines j (.list x) (.list y) (.list (j x y))
  | map {a b : Ty} {x y : TyUnion} (ha : a.member? = some x) (hb : b.member? = some y) :
      Combines j a b (.map (j x y))
  | function (f g : Signature) : Combines j (.function f) (.function g) .callable
  | optionals {x y c : Ty} (s t : Sentinel) (hc : Combines j x y c) :
      Combines j (.optional x s) (.optional y t) (c.makeOptional (s.union t))
  | sentinelLeft {t : Ty} {o : Sentinel} (c : Ty) (s : Sentinel) (ht : Sentinel.ofTy? t = some o) :
      Combines j (.optional c s) t (c.makeOptional (s.union o))
  | sentinelRight {t : Ty} {o : Sentinel} (c : Ty) (s : Sentinel) (ht : Sentinel.ofTy? t = some o) :
      Combines j t (.optional c s) (c.makeOptional (s.union o))
  | contentLeft {c t r : Ty} (s : Sentinel) (ho : t.isOptional = false)
      (ht : Sentinel.ofTy? t = none) (hc : Combines j c t r) :
      Combines j (.optional c s) t (r.makeOptional s)
  | contentRight {c t r : Ty} (s : Sentinel) (ho : t.isOptional = false)
      (ht : Sentinel.ofTy? t = none) (hc : Combines j c t r) :
      Combines j t (.optional c s) (r.makeOptional s)
  | promoteLeft {t s : Ty} {o : Sentinel} (hp : t.isPromotable s = true)
      (hs : Sentinel.ofTy? s = some o) :
      Combines j t s (t.makeOptional o)
  | promoteRight {t s : Ty} {o : Sentinel} (hp : t.isPromotable s = true)
      (hs : Sentinel.ofTy? s = some o) :
      Combines j s t (t.makeOptional o)

theorem Ty.absorb_eq_some {c t r : Ty} {s : Sentinel} (hr : c.absorb j s t = some r) :
    (∃ o, Sentinel.ofTy? t = some o ∧ r = c.makeOptional (s.union o)) ∨
      ∃ r', Sentinel.ofTy? t = none ∧ c.combineWith j t = some r' ∧ r = r'.makeOptional s := by
  rw [Ty.absorb] at hr
  split at hr
  · rename_i o ho
    exact .inl ⟨o, ho, by simpa using hr.symm⟩
  · rename_i ho
    obtain ⟨r', h', rfl⟩ := Option.map_eq_some_iff.1 hr
    exact .inr ⟨r', ho, h', rfl⟩

theorem Ty.promote?_eq_some {t s r : Ty} (hr : t.promote? s = some r) :
    t.isPromotable s = true ∧ ∃ o, Sentinel.ofTy? s = some o ∧ r = t.makeOptional o := by
  rw [Ty.promote?] at hr
  split at hr
  · rename_i hp
    obtain ⟨o, ho, rfl⟩ := Option.map_eq_some_iff.1 hr
    exact ⟨hp, o, ho, rfl⟩
  · cases hr

theorem Ty.combines_of_combineWith {a b r : Ty} (hr : a.combineWith j b = some r) :
    Ty.Combines j a b r := by
  induction hn : a.size + b.size using Nat.strongRecOn generalizing a b r with
  | ind n ih =>
    subst hn
    rw [Ty.combineWith.eq_def] at hr
    split at hr
    · rename_i hm
      obtain rfl := Option.some.inj hr
      exact .left hm
    rename_i hba
    split at hr
    · rename_i hm
      obtain rfl := Option.some.inj hr
      exact .right hm
    rename_i hab
    split at hr
    case _ =>
      obtain rfl := Option.some.inj hr
      exact .bool (by simpa [Ty.matches] using hab) (by simpa [Ty.matches] using hba)
    case _ => obtain rfl := Option.some.inj hr; exact .int _ _
    case _ => obtain rfl := Option.some.inj hr; exact .float rfl rfl
    case _ => obtain rfl := Option.some.inj hr; exact .float rfl rfl
    case _ => obtain rfl := Option.some.inj hr; exact .float rfl rfl
    case _ => obtain rfl := Option.some.inj hr; exact .string _ _
    case _ => obtain rfl := Option.some.inj hr; exact .list _ _
    case _ => obtain rfl := Option.some.inj hr; exact .map rfl rfl
    case _ => obtain rfl := Option.some.inj hr; exact .map rfl rfl
    case _ => obtain rfl := Option.some.inj hr; exact .map rfl rfl
    case _ => obtain rfl := Option.some.inj hr; exact .function _ _
    case _ x s y t hx hy =>
      obtain ⟨c, hc, rfl⟩ := Option.map_eq_some_iff.1 hr
      exact .optionals _ _ (ih _ (by simp only [Ty.size]; omega) hc rfl)
    case _ c s hb =>
      rcases absorb_eq_some hr with ⟨o, ho, rfl⟩ | ⟨r', ht, hr', rfl⟩
      · exact .sentinelLeft _ _ ho
      · refine .contentLeft _ ?_ ht (ih _ (by simp only [Ty.size]; omega) hr' rfl)
        cases b <;> simp_all [Ty.isOptional]
    case _ c s ha =>
      rcases absorb_eq_some hr with ⟨o, ho, rfl⟩ | ⟨r', ht, hr', rfl⟩
      · exact .sentinelRight _ _ ho
      · refine .contentRight _ ?_ ht (ih _ (by simp only [Ty.size]; omega) hr' rfl)
        cases a <;> simp_all [Ty.isOptional]
    case _ =>
      rcases Option.or_eq_some_iff.1 hr with hp | ⟨-, hp⟩
      · obtain ⟨ht, o, ho, rfl⟩ := promote?_eq_some hp
        exact .promoteLeft ht ho
      · obtain ⟨ht, o, ho, rfl⟩ := promote?_eq_some hp
        exact .promoteRight ht ho

theorem Sentinel.ofTy?_eq_some {t : Ty} {o : Sentinel} (ht : Sentinel.ofTy? t = some o) :
    (t = .bool (some Bool.false) ∧ o = .false) ∨ (t = .null ∧ o = .null) := by
  unfold Sentinel.ofTy? at ht
  split at ht <;> simp_all

/-- Where one type matches the other, they combine. -/
theorem Ty.isSome_combineWith_of_apart {a b : Ty}
    (hs : a.matches .flat b = false → b.matches .flat a = false →
      (a.combineWith j b).isSome = true) : (a.combineWith j b).isSome = true := by
  by_cases h₁ : b.matches .flat a = true
  · rw [Ty.combineWith.eq_def, if_pos h₁]; rfl
  · by_cases h₂ : a.matches .flat b = true
    · rw [Ty.combineWith.eq_def, if_neg h₁, if_pos h₂]; rfl
    · exact hs (by simpa using h₂) (by simpa using h₁)

/-- Types that can be merged can be merged in either order, however member types
are joined. -/
theorem Ty.Combines.isSome {a b r : Ty} (hr : Ty.Combines j a b r)
    (j' : TyUnion → TyUnion → TyUnion) :
    (a.combineWith j' b).isSome = true ∧ (b.combineWith j' a).isSome = true := by
  suffices hs : a.matches .flat b = false → b.matches .flat a = false →
      (a.combineWith j' b).isSome = true ∧ (b.combineWith j' a).isSome = true from
    ⟨isSome_combineWith_of_apart fun h₁ h₂ => (hs h₁ h₂).1,
      isSome_combineWith_of_apart fun h₁ h₂ => (hs h₂ h₁).2⟩
  intro h₁ h₂
  induction hr with
  | left hm => simp_all
  | right hm => simp_all
  | bool hx hy => simp [Ty.combineWith, h₁, h₂]
  | int x y => simp [Ty.combineWith, h₁, h₂]
  | float ha hb =>
    rename_i a b
    cases a <;> cases b <;> simp_all [Ty.combineWith, Ty.isNumeric]
  | string x y => simp [Ty.combineWith, h₁, h₂]
  | list x y => simp [Ty.combineWith, h₁, h₂]
  | map ha hb =>
    rename_i a b x y
    cases a <;> cases b <;> simp_all [Ty.combineWith, Ty.member?]
  | function f g => simp [Ty.combineWith, h₁, h₂]
  | optionals s t hc ih =>
    have h' := isSome_combineWith_of_apart fun h₁ h₂ => (ih h₁ h₂).1
    have h'' := isSome_combineWith_of_apart fun h₁ h₂ => (ih h₂ h₁).2
    simp [Ty.combineWith, h₁, h₂, h', h'']
  | sentinelLeft c s ht =>
    rcases Sentinel.ofTy?_eq_some ht with ⟨rfl, rfl⟩ | ⟨rfl, rfl⟩ <;>
      simp [Ty.combineWith, Ty.absorb, Sentinel.ofTy?, h₁, h₂]
  | sentinelRight c s ht =>
    rcases Sentinel.ofTy?_eq_some ht with ⟨rfl, rfl⟩ | ⟨rfl, rfl⟩ <;>
      simp [Ty.combineWith, Ty.absorb, Sentinel.ofTy?, h₁, h₂]
  | contentLeft s ho ht hc ih =>
    rename_i c t r
    have h' := isSome_combineWith_of_apart fun h₁ h₂ => (ih h₁ h₂).1
    cases t <;> simp_all [Ty.combineWith, Ty.absorb, Ty.isOptional]
  | contentRight s ho ht hc ih =>
    rename_i c t r
    have h' := isSome_combineWith_of_apart fun h₁ h₂ => (ih h₁ h₂).1
    cases t <;> simp_all [Ty.combineWith, Ty.absorb, Ty.isOptional]
  | promoteLeft hp hs =>
    rename_i t s o
    rcases Sentinel.ofTy?_eq_some hs with ⟨rfl, rfl⟩ | ⟨rfl, rfl⟩ <;> cases t <;>
      simp_all [Ty.combineWith, Ty.absorb, Sentinel.ofTy?, Ty.promote?, Ty.isPromotable]
  | promoteRight hp hs =>
    rename_i t s o
    rcases Sentinel.ofTy?_eq_some hs with ⟨rfl, rfl⟩ | ⟨rfl, rfl⟩ <;> cases t <;>
      simp_all [Ty.combineWith, Ty.absorb, Sentinel.ofTy?, Ty.promote?, Ty.isPromotable]

theorem Ty.combineWith_eq_none_comm {a b : Ty} (hn : a.combineWith j b = none)
    (j' : TyUnion → TyUnion → TyUnion) : b.combineWith j' a = none := by
  rw [Option.eq_none_iff_forall_ne_some]
  intro r hr
  have hs := ((combines_of_combineWith hr).isSome j).2
  simp [hn] at hs

theorem Ty.combineWith_eq_none_iff {a b : Ty} (j : TyUnion → TyUnion → TyUnion) :
    a.combineWith j b = none ↔ a.combine? b = none :=
  ⟨fun hn => combineWith_eq_none_comm (combineWith_eq_none_comm hn j) _,
    fun hn => combineWith_eq_none_comm (combineWith_eq_none_comm hn j) j⟩

theorem Ty.combine?_eq_none_comm {a b : Ty} (hn : a.combine? b = none) : b.combine? a = none :=
  combineWith_eq_none_comm hn _

/-- Types that cannot be merged do not match either way. -/
theorem Ty.matches_eq_false_of_combine?_eq_none {a b : Ty} (hn : a.combine? b = none) :
    a.matches .flat b = false ∧ b.matches .flat a = false := by
  rw [Ty.combine?, Ty.combineWith.eq_def] at hn
  by_cases h₁ : b.matches .flat a = true
  · simp [h₁] at hn
  · by_cases h₂ : a.matches .flat b = true
    · simp [h₁, h₂] at hn
    · exact ⟨by simpa using h₂, by simpa using h₁⟩

/-- What merging keeps: a property of types that scalars without refinement have,
that passes from an optional type to its content and back, and that the join of
member types keeps. -/
structure MergeClosed (j : TyUnion → TyUnion → TyUnion) (K : Ty → Prop) : Prop where
  bool : K (.bool none)
  int : K (.int none)
  float : K (.float none)
  string : K (.string none)
  callable {f : Signature} (hf : K (.function f)) : K .callable
  array {a b : Ty} {x y : TyUnion} (ha : a.member? = some x) (hb : b.member? = some y)
    (hka : K a) (hkb : K b) : K (.list (j x y)) ∧ K (.map (j x y))
  content {c : Ty} {s : Sentinel} (hc : K (.optional c s)) : K c
  makeOptional {c : Ty} (s : Sentinel) (hc : K c) : K (c.makeOptional s)

theorem Ty.Combines.keeps {K : Ty → Prop} {a b r : Ty} (hr : Ty.Combines j a b r)
    (hK : MergeClosed j K) (ha : K a) (hb : K b) : K r := by
  induction hr with
  | left hm => exact ha
  | right hm => exact hb
  | bool hx hy => exact hK.bool
  | int x y => exact hK.int
  | float hx hy => exact hK.float
  | string x y => exact hK.string
  | list x y => exact (hK.array rfl rfl ha hb).1
  | map hx hy => exact (hK.array hx hy ha hb).2
  | function f g => exact hK.callable ha
  | optionals s t hc ih => exact hK.makeOptional _ (ih (hK.content ha) (hK.content hb))
  | sentinelLeft c s ht => exact hK.makeOptional _ (hK.content ha)
  | sentinelRight c s ht => exact hK.makeOptional _ (hK.content hb)
  | contentLeft s ho ht hc ih => exact hK.makeOptional _ (ih (hK.content ha) hb)
  | contentRight s ho ht hc ih => exact hK.makeOptional _ (ih (hK.content hb) ha)
  | promoteLeft hp hs => exact hK.makeOptional _ ha
  | promoteRight hp hs => exact hK.makeOptional _ hb

end

/-! ### Adding a type to a union -/

section

theorem pick?_eq_some {β : Type} {f : Ty → Option β} {ts others : List Ty} {b : β}
    (hp : pick? f ts = some (b, others)) :
    ∃ pre t post, ts = pre ++ t :: post ∧ others = pre ++ post ∧ f t = some b := by
  induction ts generalizing others with
  | nil => simp [pick?] at hp
  | cons t ts ih =>
    rw [pick?] at hp
    split at hp
    · rename_i b' hb
      obtain ⟨rfl, rfl⟩ := Prod.mk.inj (Option.some.inj hp)
      exact ⟨[], t, ts, rfl, rfl, hb⟩
    · obtain ⟨⟨b', rest⟩, hrest, hmk⟩ := Option.map_eq_some_iff.1 hp
      obtain ⟨rfl, rfl⟩ := Prod.mk.inj hmk
      obtain ⟨pre, m, post, rfl, rfl, hm⟩ := ih hrest
      exact ⟨t :: pre, m, post, rfl, rfl, hm⟩

theorem pick?_eq_none {β : Type} {f : Ty → Option β} {ts : List Ty} (hp : pick? f ts = none) :
    ∀ t ∈ ts, f t = none := by
  induction ts with
  | nil => simp
  | cons t ts ih =>
    rw [pick?] at hp
    split at hp
    · cases hp
    · rename_i hf
      exact List.forall_mem_cons.2 ⟨hf, ih (Option.map_eq_none_iff.1 hp)⟩

variable {combine : Ty → Ty → Option Ty}

theorem merge?_eq_some {ms others : List Ty} {t r : Ty}
    (hm : merge? combine ms t = some (r, others)) :
    ∃ pre m post, ms = pre ++ m :: post ∧ others = pre ++ post ∧ combine m t = some r := by
  unfold merge? at hm
  dsimp only at hm
  split at hm
  · rename_i result hs
    obtain ⟨⟨m, rest⟩, hp, hc⟩ := Option.bind_eq_some_iff.1 hs
    obtain ⟨r', hr, rfl⟩ := Option.map_eq_some_iff.1 hc
    obtain ⟨rfl, rfl⟩ := Prod.mk.inj (Option.some.inj hm)
    obtain ⟨pre, m', post, rfl, rfl, hk⟩ := pick?_eq_some hp
    have hmm : m' = m := by
      split at hk
      · exact Option.some.inj hk
      · cases hk
    exact ⟨pre, m', post, rfl, rfl, hmm ▸ hr⟩
  · exact pick?_eq_some hm

theorem merge?_eq_none {ms : List Ty} {t : Ty} (hm : merge? combine ms t = none) :
    ∀ m ∈ ms, combine m t = none := by
  unfold merge? at hm
  dsimp only at hm
  split at hm
  · cases hm
  · exact pick?_eq_none hm

/-- A type that merges with a member is gone, and what came of merging is added. -/
theorem addWith_merge {ms others : List Ty} {t r : Ty} (hv : t ≠ .void) (hx : t ≠ .mixed)
    (hms : ms ≠ [.mixed]) (hm : merge? combine ms t = some (r, others)) :
    addWith combine ms t = if (addWith combine others r).length > maxMembers then [.mixed]
      else addWith combine others r := by
  rw [addWith.eq_def]
  split
  · exact absurd rfl hv
  · exact absurd rfl hx
  · split
    · exact absurd rfl hms
    · simp only [Bool.false_eq_true, if_false]
      split
      · rename_i hm'
        obtain ⟨rfl, rfl⟩ := Prod.mk.inj (Option.some.inj (hm.symm.trans hm'))
        rfl
      · rename_i hm'
        cases hm.symm.trans hm'

theorem addWith_apart {ms : List Ty} {t : Ty} (hv : t ≠ .void) (hx : t ≠ .mixed)
    (hms : ms ≠ [.mixed]) (hm : merge? combine ms t = none) :
    addWith combine ms t = if (ms ++ [t]).length > maxMembers then [.mixed] else ms ++ [t] := by
  rw [addWith.eq_def]
  split
  · exact absurd rfl hv
  · exact absurd rfl hx
  · split
    · exact absurd rfl hms
    · simp only [Bool.false_eq_true, if_false]
      split
      · rename_i hm'
        cases hm.symm.trans hm'
      · rfl

theorem addWith_taken (t : Ty) : addWith combine [.mixed] t = [.mixed] := by
  rw [addWith.eq_def]
  split <;> simp

theorem mem_of_mem_rest {pre post : List Ty} (m : Ty) {x : Ty} (hx : x ∈ pre ++ post) :
    x ∈ pre ++ m :: post :=
  ((List.sublist_cons_self m post).append_left pre).mem hx

theorem eq_or_mem_rest {pre post : List Ty} {m x : Ty} (hx : x ∈ pre ++ m :: post) :
    x = m ∨ x ∈ pre ++ post := by
  rcases List.mem_append.1 hx with hx | hx
  · exact .inr (List.mem_append_left post hx)
  · exact (List.mem_cons.1 hx).imp_right (List.mem_append_right pre)

/-- What adding a type can do to a union of at most `maxMembers` members. -/
theorem addWith_induct {motive : List Ty → Ty → List Ty → Prop}
    (void : ∀ ms, motive ms .void ms)
    (mixed : ∀ ms, motive ms .mixed [.mixed])
    (taken : ∀ t, motive [.mixed] t [.mixed])
    (merged : ∀ pre m post t r, t ≠ .void → t ≠ .mixed → pre ++ m :: post ≠ [.mixed] →
      combine m t = some r →
      motive (pre ++ post) r (addWith combine (pre ++ post) r) →
      motive (pre ++ m :: post) t (addWith combine (pre ++ post) r))
    (apart : ∀ ms t, t ≠ .void → t ≠ .mixed → ms ≠ [.mixed] →
      (∀ m ∈ ms, combine m t = none) → ms.length < maxMembers → motive ms t (ms ++ [t]))
    (overfull : ∀ ms t, t ≠ .void → t ≠ .mixed → ms ≠ [.mixed] →
      (∀ m ∈ ms, combine m t = none) → maxMembers ≤ ms.length → motive ms t [.mixed])
    (ms : List Ty) (t : Ty) (hl : ms.length ≤ maxMembers) :
    motive ms t (addWith combine ms t) ∧ (addWith combine ms t).length ≤ maxMembers := by
  induction hn : ms.length using Nat.strongRecOn generalizing ms t with
  | ind n ih =>
    subst hn
    by_cases hv : t = .void
    · subst hv
      rw [addWith]
      exact ⟨void ms, hl⟩
    by_cases hx : t = .mixed
    · subst hx
      rw [addWith]
      exact ⟨mixed ms, by decide⟩
    by_cases hms : ms = [.mixed]
    · subst hms
      rw [addWith_taken]
      exact ⟨taken t, by decide⟩
    cases hm : merge? combine ms t with
    | some result =>
      obtain ⟨r, others⟩ := result
      obtain ⟨pre, m, post, rfl, rfl, hc⟩ := merge?_eq_some hm
      have hlt : (pre ++ post).length < (pre ++ m :: post).length := by
        simp only [List.length_append, List.length_cons]
        omega
      obtain ⟨hmot, hlen⟩ := ih _ hlt (pre ++ post) r (by omega) rfl
      rw [addWith_merge hv hx hms hm, if_neg (by omega)]
      exact ⟨merged pre m post t r hv hx hms hc hmot, hlen⟩
    | none =>
      rw [addWith_apart hv hx hms hm]
      by_cases hfull : (ms ++ [t]).length > maxMembers
      · rw [if_pos hfull]
        have hmany : maxMembers ≤ ms.length := by
          rw [List.length_append, List.length_singleton] at hfull
          omega
        exact ⟨overfull ms t hv hx hms (merge?_eq_none hm) hmany, by decide⟩
      · rw [if_neg hfull]
        have hlt : ms.length < maxMembers := by
          rw [List.length_append, List.length_singleton] at hfull
          omega
        exact ⟨apart ms t hv hx hms (merge?_eq_none hm) hlt, by omega⟩

end

end PhpCheck
