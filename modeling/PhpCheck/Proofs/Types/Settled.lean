import PhpCheck.Proofs.Types.Spanned

/-!
Adding to a union what it was made of.

A type that is added to a union is merged with one member, its partner there.  If the partner
accepts it, then merging gives the partner again, and the union stays what it was but for the
order of its members (`TyUnion.WellFormed.add_perm_of_accepts`).

Where a type is about something, and not only an absent value, its partner in a union that it has
been added to is known: families are never split, so the member of its family has taken it up,
and no other member merges with it (`TyUnion.accepts_again`).  A family is `Firm` if this can be
followed through all the merging: every family where there are no functions, and the families
that have nothing to do with functions everywhere.

An absent value has no family.  It merges with the first member that can take it, although
another one may accept it already.  So joining with one side of a join once more changes nothing
if all absent values in it settle (`TyUnion.WellFormed.union_again`), and only then: the family
that one of them went to accepts it for good (`TyUnion.Plain.union_again_iff`).
-/

namespace PhpCheck

/-! ### Partners -/

theorem pick?_of_find? {β : Type} {f : Ty → Option β} {ts : List Ty} {m : Ty}
    (hm : ts.find? (fun t => (f t).isSome) = some m) :
    ∃ pre post, ts = pre ++ m :: post ∧ ∀ b, f m = some b → pick? f ts = some (b, pre ++ post) := by
  induction ts with
  | nil => cases hm
  | cons t ts ih =>
    rw [List.find?_cons] at hm
    cases ht : f t with
    | some b =>
      rw [ht] at hm
      obtain rfl : t = m := Option.some.inj hm
      exact ⟨[], ts, rfl, fun b' hb' => by rw [pick?, hb']; rfl⟩
    | none =>
      rw [ht] at hm
      obtain ⟨pre, post, rfl, hpick⟩ := ih hm
      exact ⟨t :: pre, post, rfl, fun b hb => by rw [pick?, ht, hpick b hb]; rfl⟩

theorem pick?_of_find?_eq_none {β : Type} {f : Ty → Option β} {ts : List Ty}
    (hm : ts.find? (fun t => (f t).isSome) = none) : pick? f ts = none := by
  induction ts with
  | nil => rfl
  | cons t ts ih =>
    rw [List.find?_cons] at hm
    cases ht : f t with
    | some b =>
      rw [ht] at hm
      cases hm
    | none =>
      rw [ht] at hm
      rw [pick?, ht, ih hm]
      rfl

namespace TyUnion

/-- The member that a type is merged with when it is added: the first one of its sort, if they
merge, and else the first one that merges with it. -/
def partner? (u : TyUnion) (t : Ty) : Option Ty :=
  ((u.members.find? (·.key == t.key)).filter fun m => (m.combine? t).isSome).or
    (u.members.find? fun m => (m.combine? t).isSome)

/-- The type is merged with a member that accepts it. -/
def Accepts (u : TyUnion) (t : Ty) : Prop := ∃ m, u.partner? t = some m ∧ t.matches .flat m = true

theorem mem_of_partner? {u : TyUnion} {t m : Ty} (hm : u.partner? t = some m) :
    m ∈ u.members ∧ (m.combine? t).isSome = true := by
  rcases Option.or_eq_some_iff.1 hm with hm | ⟨-, hm⟩
  · obtain ⟨hm, hmerges⟩ := Option.filter_eq_some_iff.1 hm
    exact ⟨List.mem_of_find?_eq_some hm, hmerges⟩
  · exact ⟨List.mem_of_find?_eq_some hm, (List.find?_eq_some_iff_append.1 hm).1⟩

theorem exists_partner? {u : TyUnion} {t m : Ty} (hm : m ∈ u.members)
    (hmerges : (m.combine? t).isSome = true) : ∃ m', u.partner? t = some m' := by
  have hsome : (u.members.find? fun m => (m.combine? t).isSome).isSome = true :=
    List.find?_isSome.2 ⟨m, hm, hmerges⟩
  refine Option.isSome_iff_exists.1 ?_
  rw [partner?, Option.isSome_or, hsome, Bool.or_true]

end TyUnion

section

variable {j : TyUnion → TyUnion → TyUnion}

theorem Ty.isSome_combineWith (a b : Ty) : (a.combineWith j b).isSome = (a.combine? b).isSome := by
  rw [Bool.eq_iff_iff, ← not_iff_not, Bool.not_eq_true, Bool.not_eq_true,
    Option.isSome_eq_false_iff, Option.isSome_eq_false_iff, Option.isNone_iff_eq_none,
    Option.isNone_iff_eq_none, combineWith_eq_none_iff]

theorem merge?_partner {ms : List Ty} {t m r : Ty} (hm : TyUnion.partner? ⟨ms⟩ t = some m)
    (hr : m.combineWith j t = some r) :
    ∃ pre post, ms = pre ++ m :: post ∧ merge? (Ty.combineWith j) ms t = some (r, pre ++ post) := by
  have hsort : (ms.find? fun m => (if m.key == t.key then some m else none).isSome) =
      ms.find? (·.key == t.key) := by
    congr 1
    funext m
    cases m.key == t.key <;> rfl
  have hmerge : (ms.find? fun m => (m.combineWith j t).isSome) =
      ms.find? fun m => (m.combine? t).isSome := by simp only [Ty.isSome_combineWith]
  rcases Option.or_eq_some_iff.1 hm with hm | ⟨hno, hm⟩
  · obtain ⟨hm, -⟩ := Option.filter_eq_some_iff.1 hm
    have hkey : (m.key == t.key) = true := (List.find?_eq_some_iff_append.1 hm).1
    rw [← hsort] at hm
    obtain ⟨pre, post, rfl, hpick⟩ := pick?_of_find? hm
    refine ⟨pre, post, rfl, ?_⟩
    rw [merge?, hpick m (if_pos hkey)]
    simp only [Option.bind_some, hr, Option.map_some]
  · rw [← hmerge] at hm
    obtain ⟨pre, post, hms, hpick⟩ := pick?_of_find? hm
    refine ⟨pre, post, hms, ?_⟩
    -- The first member of the same sort is passed over: there is none, or it does not merge.
    rw [merge?]
    cases hfirst : ms.find? (·.key == t.key) with
    | none =>
      rw [← hsort] at hfirst
      rw [pick?_of_find?_eq_none hfirst]
      exact hpick r hr
    | some first =>
      have hapart : first.combineWith j t = none := by
        rw [Ty.combineWith_eq_none_iff, ← Option.not_isSome_iff_eq_none]
        exact Option.filter_eq_none_iff.1 hno first hfirst
      have hkey : (first.key == t.key) = true := (List.find?_eq_some_iff_append.1 hfirst).1
      rw [← hsort] at hfirst
      obtain ⟨pre', post', -, hpick'⟩ := pick?_of_find? hfirst
      rw [hpick' first (if_pos hkey)]
      simp only [Option.bind_some, hapart, Option.map_none]
      exact hpick r hr

end

/-- A type whose partner accepts it only moves that member to the end. -/
theorem TyUnion.WellFormed.add_perm_of_accepts {u : TyUnion} {t : Ty} (hu : u.WellFormed)
    (hv : t ≠ .void) (ht : u.Accepts t) : (u.add t).members.Perm u.members := by
  obtain ⟨ms⟩ := u
  obtain ⟨m, hm, htm⟩ := ht
  have hs := (wellFormed_iff.1 hu).2
  by_cases hne : ms = [.mixed]
  · rw [TyUnion.add, hne, addWith_taken]
  have hx : t ≠ .mixed := by
    rintro rfl
    have hmixed := hs.isMixed_eq_false hne (mem_of_partner? hm).1
    rw [← Ty.mixed_matches, htm] at hmixed
    cases hmixed
  unfold TyUnion.add
  generalize max (TyUnion.arrayDepth ⟨ms⟩) t.arrayDepth = depth
  have hmerged : m.combineWith (joinWithin depth) t = some m := by
    rw [Ty.combineWith.eq_def, if_pos htm]
  obtain ⟨pre, post, rfl, hmerge⟩ := merge?_partner hm hmerged
  have hrest := hs.addWith_rest (j := joinWithin depth) hne
  rw [addWith_merge hv hx hne hmerge, if_neg (Nat.not_lt.2 (hrest.length_eq ▸ hs.length_le))]
  exact hrest

/-! ### Families that can be followed -/

/-- A family that stays in one member whatever is added, among the types `L`: what accepts a type
of the family is of it, and what a type of the family accepts is of it, or only an absent
value. -/
structure Family.Firm (L : Ty → Prop) (f : Family) : Prop where
  wellFormed {t : Ty} (ht : L t) : t.WellFormed
  content {c : Ty} {s : Sentinel} (hc : L (.optional c s)) : L c
  /-- Additions stay among the types of some property that merging keeps. -/
  within {ms : List Ty} {t : Ty} (hms : ∀ m ∈ ms, L m) (ht : L t) :
    ∃ K : Ty → Prop, (∀ t, K t → L t) ∧ Hereditary K ∧
      MergeClosed (joinWithin (max (TyUnion.arrayDepth ⟨ms⟩) t.arrayDepth)) K ∧
      (∀ m ∈ ms, K m) ∧ K t
  taker {a b : Ty} (ha : L a) (hb : L b) (hm : a.isMixed = false) (hba : b.matches .flat a = true)
    (hf : b.family? = some f) : a.family? = some f
  taken {a b : Ty} (ha : L a) (hb : L b) (hab : a.matches .flat b = true)
    (hf : b.family? = some f) : a.family? = some f ∨ a.core.isAbsent = true
  steady {t p : Ty} (ht : L t) (hf : t.family? = some f) (hp : p ∈ t.parts)
    (harr : p.isArray = false) : p.Steady L

/-- Families that have nothing to do with functions. -/
def Family.isFixed : Family → Bool
  | .truth | .number | .resource => true
  | .text | .array => false
  | .named name => name != "Closure".toLower

theorem Ty.isFixed_of_family? {p : Ty} {f : Family} (ho : p.isOptional = false)
    (hf : p.family? = some f) (hfixed : f.isFixed = true) : p.isFixed = true := by
  cases p with
  | bool x => rfl
  | optional c s => cases ho
  | object name =>
    obtain rfl := Option.some.inj hf
    exact hfixed
  | int | float | resource | classOf => rfl
  | string | map | list =>
    obtain rfl := Option.some.inj hf
    cases hfixed
  | _ => cases hf

theorem Ty.isFixed_part {t p : Ty} {f : Family} (ht : t.WellFormed) (hf : t.family? = some f)
    (hfixed : f.isFixed = true) (hp : p ∈ t.parts) : p.isFixed = true := by
  cases t with
  | optional c s =>
    rcases List.mem_cons.1 hp with rfl | hp
    · exact isFixed_of_family? (wellFormed_optional.1 ht).2.2 hf hfixed
    · rcases Sentinel.eq_of_mem hp with rfl | rfl <;> rfl
  | _ =>
    obtain rfl := List.mem_singleton.1 hp
    exact isFixed_of_family? rfl hf hfixed

theorem Ty.isFixed_not_matches_function {p : Ty} (hp : p.isFixed = true) (g : Signature) :
    p.matches .flat (.function g) = false := by
  cases p <;> simp_all [Ty.isFixed, Ty.matches]

theorem Ty.function_not_matches_isFixed {q : Ty} (hq : q.isFixed = true) (g : Signature) :
    (Ty.function g).matches .flat q = false := by
  cases q <;> simp_all [Ty.isFixed, Ty.matches]

/-- What may be used as an atom of a family is of it, or an absent value. -/
theorem Ty.family?_atom_taken {p q : Ty} {f : Family} (hp : p.isAtom = true) (hq : q.isAtom = true)
    (hfn : ∀ g, p ≠ .function g) (hpq : p.matches .flat q = true) (hf : q.family? = some f) :
    p.family? = some f ∨ p.isAbsent = true := by
  cases q <;> simp only [Ty.isAtom, Bool.false_eq_true, Ty.family?, reduceCtorEq] at hq hf <;>
    cases p <;> simp_all [Ty.isAtom, Ty.matches, Ty.family?, Ty.isAbsent, sameName,
      Ty.object_matches_string]
  rename_i y x
  rcases x with _ | _ | _ <;> rcases y with _ | _ | _ <;> simp_all [refines, Ty.family?]

theorem Ty.family?_of_taken {a b : Ty} {f : Family} (ha : a.WellFormed) (hb : b.WellFormed)
    (hab : a.matches .flat b = true) (hf : b.family? = some f)
    (hfn : ∀ g, a.core ≠ .function g) : a.family? = some f ∨ a.core.isAbsent = true := by
  have hmb : b.isMixed = false := by
    cases b <;> first | rfl | cases hf
  have hma : a.isMixed = false := by
    cases a with
    | mixed =>
      rw [Ty.mixed_matches, hmb] at hab
      cases hab
    | _ => rfl
  have hatom := ha.isAtom_part hma a.core_mem_parts
  obtain ⟨q, hq, haq⟩ := (Ty.matches_iff_parts hatom).1 (Ty.part_matches hab a.core_mem_parts)
  rw [Ty.family?_core a]
  cases b with
  | optional c s =>
    rcases List.mem_cons.1 hq with rfl | hq
    · exact Ty.family?_atom_taken hatom (hb.isAtom_part hmb List.mem_cons_self) hfn haq hf
    · right
      rcases Sentinel.matches_type hatom hq haq with h | h <;> rw [h]
      · rfl
      · rcases Sentinel.eq_of_mem hq with rfl | rfl <;> rfl
  | _ =>
    obtain rfl := List.mem_singleton.1 hq
    exact Ty.family?_atom_taken hatom (hb.isAtom_part hmb hq) hfn haq hf

/-- Where there are no functions, all families can be followed. -/
theorem Family.firm_plain (f : Family) : f.Firm Ty.Plain where
  wellFormed ht := ht.1
  content hc := hc.content
  within {ms t} hms ht := by
    let depth := max (TyUnion.arrayDepth ⟨ms⟩) t.arrayDepth
    have hdepth : TyUnion.arrayDepth ⟨ms⟩ ≤ depth := Nat.le_max_left _ _
    have hmembers := TyUnion.arrayDepth_le_iff.1 hdepth
    exact ⟨Ty.PlainWithin depth, fun _ ht => ht.1, Ty.hereditary_plainWithin depth,
      mergeClosed_plainWithin (plainWithin_joinWithin depth),
      fun m hm => ⟨hms m hm, hmembers m hm⟩, ht, Nat.le_max_right _ _⟩
  taker ha hb hm hba hf := hb.family?_matches ha hm hba hf
  taken {a b} ha hb hab hf := by
    refine Ty.family?_of_taken ha.1 hb.1 hab hf fun g => ?_
    exact Ty.ne_function (Ty.functionFree_part ha.2 a.core_mem_parts) g
  steady {t p} ht hf hp harr := by
    have hm : t.isMixed = false := by
      cases t <;> first | rfl | cases hf
    have hv : p ≠ .void := by
      rintro rfl
      cases t with
      | optional c s =>
        rcases List.mem_cons.1 hp with rfl | hp
        · cases hf
        · rcases Sentinel.eq_of_mem hp with h | h <;> cases h
      | void => cases hf
      | _ => cases List.mem_singleton.1 hp
    refine Ty.steady_of_isScalar ((ht.isScalar_or_isArray hm hp hv).resolve_right ?_)
    rw [harr]
    exact Bool.false_ne_true

theorem Family.firm_fixed {f : Family} (hfixed : f.isFixed = true) : f.Firm Ty.WellFormed where
  wellFormed ht := ht
  content hc := hc.content
  within {ms t} hms ht :=
    ⟨Ty.WellFormed, fun _ ht => ht, Ty.hereditary_wellFormed,
      mergeClosed_wellFormed (wellFormed_joinWithin _), hms, ht⟩
  taker {a b} ha hb hm hba hf := by
    refine Ty.family?_of_matches hb ha hm hba hf fun q hq hbq g => ?_
    rintro rfl
    rw [Ty.isFixed_not_matches_function (Ty.isFixed_part hb hf hfixed b.core_mem_parts)] at hbq
    cases hbq
  taken {a b} ha hb hab hf := by
    refine Ty.family?_of_taken ha hb hab hf fun g hg => ?_
    have hgb := Ty.part_matches hab a.core_mem_parts
    obtain ⟨q, hq, hgq⟩ := (Ty.matches_iff_parts (hg ▸ rfl)).1 hgb
    rw [hg, Ty.function_not_matches_isFixed (Ty.isFixed_part hb hf hfixed hq)] at hgq
    cases hgq
  steady {t p} ht hf hp _ := Ty.steady_of_isFixed (Ty.isFixed_part ht hf hfixed hp)

section

variable {j : TyUnion → TyUnion → TyUnion} {L K : Ty → Prop} {f : Family}

/-- What merges with a type of the family is of it, or only an absent value. -/
theorem Family.Firm.family?_or_isAbsent (hfirm : f.Firm L) {a b r : Ty} (hr : Ty.Combines j a b r)
    (ha : L a) (hb : L b) (hma : a.isMixed = false) (hmb : b.isMixed = false) :
    (b.family? = some f → a.family? = some f ∨ a.core.isAbsent = true) ∧
      (a.family? = some f → b.family? = some f ∨ b.core.isAbsent = true) := by
  have hcore : ∀ {c s}, L (.optional c s) → c.isMixed = false ∧ c.core = c := fun hc =>
    have hw := Ty.wellFormed_optional.1 (hfirm.wellFormed hc)
    ⟨hw.2.1, Ty.core_eq hw.2.2⟩
  have hsentinel : ∀ {t : Ty} {o}, Sentinel.ofTy? t = some o →
      t.core.isAbsent = true ∧ t.family? ≠ some f := by
    intro t o ht
    rcases Sentinel.ofTy?_eq_some ht with ⟨rfl, -⟩ | ⟨rfl, -⟩ <;> exact ⟨rfl, fun h => by cases h⟩
  induction hr with
  | left hm => exact ⟨fun hf => .inl (hfirm.taker ha hb hma hm hf), hfirm.taken hb ha hm⟩
  | right hm => exact ⟨hfirm.taken ha hb hm, fun hf => .inl (hfirm.taker hb ha hmb hm hf)⟩
  | bool hx hy =>
    have hbool : ∀ {x y : Option Bool}, (Ty.bool y).family? = some f →
        (Ty.bool x).family? = some f ∨ (Ty.bool x).core.isAbsent = true := by
      intro x y hf
      rw [Ty.family?_bool hf]
      rcases x with _ | _ | _
      · exact .inl rfl
      · exact .inr rfl
      · exact .inl rfl
    exact ⟨hbool, hbool⟩
  | int x y | string x y | list x y => exact ⟨.inl, .inl⟩
  | float hx hy =>
    rw [Ty.family?_of_isNumeric hx, Ty.family?_of_isNumeric hy]
    exact ⟨.inl, .inl⟩
  | map hx hy =>
    rw [Ty.family?_of_member? hx, Ty.family?_of_member? hy]
    exact ⟨.inl, .inl⟩
  | function g h => exact ⟨fun hf => (by cases hf), fun hf => (by cases hf)⟩
  | optionals s t hc ih =>
    obtain ⟨hma, hca⟩ := hcore ha
    obtain ⟨hmb, hcb⟩ := hcore hb
    rw [hca, hcb] at ih
    exact ih (hfirm.content ha) (hfirm.content hb) hma hmb
  | sentinelLeft c s ht =>
    exact ⟨fun hf => absurd hf (hsentinel ht).2, fun _ => .inr (hsentinel ht).1⟩
  | sentinelRight c s ht =>
    exact ⟨fun _ => .inr (hsentinel ht).1, fun hf => absurd hf (hsentinel ht).2⟩
  | contentLeft s ho ht hc ih =>
    obtain ⟨hma, hca⟩ := hcore ha
    rw [hca] at ih
    exact ih (hfirm.content ha) hb hma hmb
  | contentRight s ho ht hc ih =>
    obtain ⟨hmb, hcb⟩ := hcore hb
    rw [hcb] at ih
    exact (ih (hfirm.content hb) ha hmb hma).symm
  | promoteLeft hp hs =>
    exact ⟨fun hf => absurd hf (hsentinel hs).2, fun _ => .inr (hsentinel hs).1⟩
  | promoteRight hp hs =>
    exact ⟨fun _ => .inr (hsentinel hs).1, fun hf => absurd hf (hsentinel hs).2⟩

/-- A steady alternative of a type of the family stays in one of the family. -/
theorem Family.Firm.followed_addWith (hfirm : f.Firm L) (hKL : ∀ t, K t → L t) (hK : Hereditary K)
    (hj : MergeClosed j K) {ms : List Ty} {t p : Ty} (hp : p.Steady L) (hs : Separate ms)
    (hms : ∀ m ∈ ms, K m) (ht : K t)
    (hx : ∃ x ∈ t :: ms, x.family? = some f ∧ p.matches .flat x = true) :
    addWith (Ty.combineWith j) ms t = [.mixed] ∨
      ∃ e ∈ addWith (Ty.combineWith j) ms t, e.family? = some f ∧ p.matches .flat e = true := by
  refine (addWith_induct (motive := fun ms t res => Separate ms → (∀ m ∈ ms, K m) → K t →
    (∃ x ∈ t :: ms, x.family? = some f ∧ p.matches .flat x = true) → res = [.mixed] ∨
      ∃ e ∈ res, e.family? = some f ∧ p.matches .flat e = true)
    ?_ ?_ ?_ ?_ ?_ ?_ ms t hs.length_le).1 hs hms ht hx
  · rintro ms _ _ _ ⟨x, hx, hxf, hpx⟩
    rcases List.mem_cons.1 hx with rfl | hx
    · cases hxf
    · exact .inr ⟨x, hx, hxf, hpx⟩
  · exact fun ms _ _ _ _ => .inl rfl
  · exact fun t _ _ _ _ => .inl rfl
  · rintro pre m post t r _ hxt hne hr ih hs hms ht ⟨x, hx, hxf, hpx⟩
    have hr := Ty.combines_of_combineWith hr
    have hm := hms m (by simp)
    have hmm := hs.isMixed_eq_false hne (List.mem_append_right pre List.mem_cons_self)
    have htm := Ty.isMixed_eq_false hxt
    have hrf := hr.family?_iff (f := f) (fun ht => hK.wellFormed ht) (fun hc => hj.content hc)
      (fun ha hb => hfirm.taker (hKL _ ha) (hKL _ hb)) hm ht hmm htm
    refine ih (hs.remove hne) (fun x hx => hms x (mem_of_mem_rest m hx)) (hr.keeps hj hm ht) ?_
    rcases List.mem_cons.1 hx with rfl | hx
    · exact ⟨r, List.mem_cons_self, hrf.2 (.inr hxf),
        (hp.mono hKL).combines hK hj hr hm ht (.inr hpx)⟩
    · rcases eq_or_mem_rest hx with rfl | hin
      · exact ⟨r, List.mem_cons_self, hrf.2 (.inl hxf),
          (hp.mono hKL).combines hK hj hr hm ht (.inl hpx)⟩
      · exact ⟨x, List.mem_cons_of_mem r hin, hxf, hpx⟩
  · rintro ms t _ _ _ _ _ _ _ _ ⟨x, hx, hxf, hpx⟩
    refine .inr ⟨x, ?_, hxf, hpx⟩
    rcases List.mem_cons.1 hx with rfl | hx
    · exact List.mem_append_right ms (List.mem_singleton_self x)
    · exact List.mem_append_left [t] hx
  · exact fun ms t _ _ _ _ _ _ _ _ _ => .inl rfl

end

/-! ### Joins -/

theorem Ty.family?_of_isAbsent {t : Ty} (ht : t.isAbsent = true) : t.family? = none := by
  cases t with
  | bool x => rcases x with _ | _ | _ <;> simp_all [Ty.isAbsent, Ty.family?]
  | void | null => rfl
  | _ => cases ht

section

variable {ms : List Ty} {a b : Ty} {f : Family} (hs : Separate ms) (hw : ∀ m ∈ ms, m.WellFormed)
  (hne : ms ≠ [.mixed]) (ha : a ∈ ms) (hb : b ∈ ms)

include hs hw hne ha hb

/-- Members of a union merge with themselves only. -/
theorem Separate.eq_of_combines_core {j : TyUnion → TyUnion → TyUnion}
    (hab : ∃ r, Ty.Combines j a.core b.core r) (hba : ∃ r, Ty.Combines j b.core a.core r) :
    a = b := by
  have hoptional : ∀ m ∈ ms, m.core.isOptional = false := fun m hm =>
    (hw m hm).isOptional_part m.core_mem_parts
  obtain ⟨r, hr⟩ := Ty.Combines.of_core (hoptional a ha) (hoptional b hb) hab hba
  obtain ⟨pre, post, rfl⟩ := List.append_of_mem hb
  refine (eq_or_mem_rest ha).resolve_right fun hrest => ?_
  exact hr.combine?_ne_none (hs.combine?_eq_none a hrest)

theorem Separate.eq_of_family? (haf : a.family? = some f) (hbf : b.family? = some f) : a = b := by
  have hatom : ∀ m ∈ ms, m.core.isAtom = true := fun m hm =>
    (hw m hm).isAtom_part (hs.isMixed_eq_false hne hm) m.core_mem_parts
  rw [Ty.family?_core] at haf hbf
  exact hs.eq_of_combines_core hw hne ha hb (j := joinWithin 0)
    (Ty.exists_combines_of_family? (hatom a ha) (hatom b hb) haf hbf)
    (Ty.exists_combines_of_family? (hatom b hb) (hatom a ha) hbf haf)

/-- Beside a member of a family none is only an absent value. -/
theorem Separate.isAbsent_core_eq_false (hbf : b.family? = some f) : a.core.isAbsent = false := by
  rw [Bool.eq_false_iff]
  intro habsent
  rw [Ty.family?_core] at hbf
  obtain ⟨hab, hba⟩ := Ty.exists_combines_of_isAbsent (j := joinWithin 0) habsent
    ((hw b hb).isOptional_part b.core_mem_parts) (.inr (by rw [hbf]; nofun))
  rw [← hs.eq_of_combines_core hw hne ha hb hab hba, Ty.family?_of_isAbsent habsent] at hbf
  cases hbf

end

section

variable {L : Ty → Prop} {f : Family} (hfirm : f.Firm L)

include hfirm

theorem Family.Firm.separate_addMember {ms : List Ty} {t : Ty} (hs : Separate ms)
    (hms : ∀ m ∈ ms, L m) (ht : L t) :
    Separate (addMember ms t) ∧ ∀ m ∈ addMember ms t, L m := by
  obtain ⟨K, hKL, hK, hj, hmsK, htK⟩ := hfirm.within hms ht
  exact ⟨hs.addWith t, fun m hm => hKL m (addWith_keeps hj hK.mixed hs.length_le hmsK htK m hm)⟩

theorem Family.Firm.followed_foldl {ms ts : List Ty} {p : Ty} (hp : p.Steady L) (hs : Separate ms)
    (hms : ∀ m ∈ ms, L m) (hts : ∀ t ∈ ts, L t)
    (hx : ∃ x ∈ ms ++ ts, x.family? = some f ∧ p.matches .flat x = true) :
    ts.foldl addMember ms = [.mixed] ∨
      ∃ e ∈ ts.foldl addMember ms, e.family? = some f ∧ p.matches .flat e = true := by
  induction ts generalizing ms with
  | nil => exact .inr (by simpa using hx)
  | cons t ts ih =>
    obtain ⟨ht, hts⟩ := List.forall_mem_cons.1 hts
    obtain ⟨hs', hms'⟩ := hfirm.separate_addMember hs hms ht
    rw [List.foldl_cons]
    obtain ⟨x, hx, hxf, hpx⟩ := hx
    have hplace : x ∈ t :: ms ∨ x ∈ ts := by
      rcases List.mem_append.1 hx with hx | hx
      · exact .inl (List.mem_cons_of_mem t hx)
      · rcases List.mem_cons.1 hx with rfl | hx
        · exact .inl List.mem_cons_self
        · exact .inr hx
    rcases hplace with hin | hin
    · obtain ⟨K, hKL, hK, hj, hmsK, htK⟩ := hfirm.within hms ht
      rcases hfirm.followed_addWith hKL hK hj hp hs hmsK htK ⟨x, hin, hxf, hpx⟩ with hfull | he
      · have hfull : addMember ms t = [.mixed] := hfull
        rw [hfull, foldl_addMember_mixed]
        exact .inl rfl
      · obtain ⟨e, he, hef, hpe⟩ := he
        exact ih hs' hms' hts ⟨e, List.mem_append_left ts he, hef, hpe⟩
    · exact ih hs' hms' hts ⟨x, List.mem_append_right _ hin, hxf, hpx⟩

theorem Family.Firm.separate_foldl {ms ts : List Ty} (hs : Separate ms) (hms : ∀ m ∈ ms, L m)
    (hts : ∀ t ∈ ts, L t) :
    Separate (ts.foldl addMember ms) ∧ ∀ m ∈ ts.foldl addMember ms, L m :=
  List.foldlRecOn ts addMember (motive := fun ms => Separate ms ∧ ∀ m ∈ ms, L m) ⟨hs, hms⟩
    fun _ hms t ht => hfirm.separate_addMember hms.1 hms.2 (hts t ht)

/-- The member of a family accepts all of the family that was joined. -/
theorem Family.Firm.exists_taker {ms ts : List Ty} (hs : Separate ms) (hms : ∀ m ∈ ms, L m)
    (hts : ∀ t ∈ ts, L t) (hne : ts.foldl addMember ms ≠ [.mixed]) {t : Ty} (ht : t ∈ ms ++ ts)
    (hf : t.family? = some f)
    (harray : ∀ p ∈ t.parts, p.isArray = true →
      ∃ e ∈ ts.foldl addMember ms, e.family? = some f ∧ p.matches .flat e = true) :
    ∃ e ∈ ts.foldl addMember ms, e.family? = some f ∧ t.matches .flat e = true := by
  obtain ⟨hs', hL⟩ := hfirm.separate_foldl hs hms hts
  have htL : L t := (List.mem_append.1 ht).elim (hms t) (hts t)
  have hparts : ∀ p ∈ t.parts, ∃ e ∈ ts.foldl addMember ms, e.family? = some f ∧
      p.matches .flat e = true := by
    intro p hp
    cases harr : p.isArray with
    | true => exact harray p hp harr
    | false =>
      have hpt := (hfirm.wellFormed htL).part_matches hp
      exact (hfirm.followed_foldl (hfirm.steady htL hf hp harr) hs hms hts
        ⟨t, ht, hf, hpt⟩).resolve_left hne
  obtain ⟨e, he, hef, -⟩ := hparts t.core t.core_mem_parts
  refine ⟨e, he, hef, Ty.matches_iff_all_parts.2 fun p hp => ?_⟩
  obtain ⟨e', he', hef', hpe'⟩ := hparts p hp
  rwa [← hs'.eq_of_family? (fun m hm => hfirm.wellFormed (hL m hm)) hne he' he hef' hef]

/-- A type of a family has the member of this family for a partner. -/
theorem Family.Firm.partner?_eq {u : TyUnion} {t e : Ty} (hu : u.WellFormed)
    (huL : ∀ m ∈ u.members, L m) (hne : u.members ≠ [.mixed]) (ht : L t) (hf : t.family? = some f)
    (he : e ∈ u.members) (hef : e.family? = some f) (hte : t.matches .flat e = true) :
    u.partner? t = some e := by
  have hs := (TyUnion.wellFormed_iff.1 hu).2
  have hmerged : e.combine? t = some e := by
    rw [Ty.combine?, Ty.combineWith.eq_def, if_pos hte]
  obtain ⟨m, hm⟩ := TyUnion.exists_partner? he (by rw [hmerged]; rfl)
  obtain ⟨hmem, hmerges⟩ := TyUnion.mem_of_partner? hm
  obtain ⟨r, hr⟩ := Option.isSome_iff_exists.1 hmerges
  have htm : t.isMixed = false := by
    cases t <;> first | rfl | cases hf
  have hmf := (hfirm.family?_or_isAbsent (Ty.combines_of_combineWith hr) (huL m hmem) ht
    (hs.isMixed_eq_false hne hmem) htm).1 hf
  have hpresent : m.core.isAbsent ≠ true := by
    rw [hs.isAbsent_core_eq_false hu.mem hne hmem he hef]
    exact Bool.false_ne_true
  rw [hm, hs.eq_of_family? hu.mem hne hmem he (hmf.resolve_right hpresent) hef]

end

/-! ### Joining again -/

/-- A type that only stands for an absent value. -/
def Ty.isBare (t : Ty) : Bool := t.core.isAbsent

/-- What goes along with functions: all that an untyped function is compatible with. -/
def Ty.isLenient (t : Ty) : Bool :=
  match t.core with
  | .string _ | .map _ | .list _ | .function _ => true
  | .classOf name | .object name => sameName name "Closure"
  | _ => false

theorem Ty.exists_isFixed_family {t : Ty} (ht : t.WellFormed) (hm : t.isMixed = false)
    (hbare : t.isBare = false) (hlenient : t.isLenient = false) :
    ∃ f, t.family? = some f ∧ f.isFixed = true := by
  have hatom := ht.isAtom_part hm t.core_mem_parts
  rw [Ty.family?_core]
  unfold isBare at hbare
  unfold isLenient at hlenient
  generalize t.core = c at hatom hbare hlenient
  cases c with
  | bool x => rcases x with _ | _ | _ <;> first | exact ⟨_, rfl, rfl⟩ | cases hbare
  | int | float | resource => exact ⟨_, rfl, rfl⟩
  | classOf name | object name =>
    exact ⟨_, rfl, (congrArg (!·) hlenient : (!sameName name "Closure") = true)⟩
  | void | null => cases hbare
  | string | map | list | function => cases hlenient
  | mixed | optional => cases hatom

theorem Ty.isScalar_of_isBare {t p : Ty} (ht : t.isBare = true) (hp : p ∈ t.parts)
    (hv : p ≠ .void) : p.isScalar = true := by
  have hcore : ∀ c : Ty, c.isAbsent = true → c ≠ .void → c.isScalar = true := by
    intro c hc hv
    cases c with
    | bool | null => rfl
    | void => exact absurd rfl hv
    | _ => cases hc
  cases t with
  | optional c s =>
    rcases List.mem_cons.1 hp with rfl | hp
    · exact hcore _ ht hv
    · rcases Sentinel.eq_of_mem hp with rfl | rfl <;> rfl
  | _ =>
    obtain rfl := List.mem_singleton.1 hp
    exact hcore _ ht hv

namespace TyUnion

/-- The types of which it is open who takes them up when they are added to the join of `u` and `v`
again: absent values, and where there are functions all that goes along with them. -/
def Doubtful (u v : TyUnion) (t : Ty) : Prop :=
  t.isBare = true ∨ t.isLenient = true ∧ ¬ (u.functionFree = true ∧ v.functionFree = true)

/-- Types are added in turn, and those in doubt are accepted when it is their turn. -/
def Settles (doubtful : Ty → Prop) : TyUnion → List Ty → Prop
  | _, [] => True
  | w, t :: ts => (doubtful t → w.Accepts t) ∧ (w.add t).Settles doubtful ts

theorem settles_of_sure {doubtful : Ty → Prop} {w : TyUnion} {ts : List Ty}
    (hts : ∀ t ∈ ts, ¬ doubtful t) : w.Settles doubtful ts := by
  induction ts generalizing w with
  | nil => trivial
  | cons t ts ih =>
    obtain ⟨ht, hts⟩ := List.forall_mem_cons.1 hts
    exact ⟨fun hdoubt => absurd hdoubt ht, ih hts⟩

/-- The only member of a union is the partner of all that it accepts. -/
theorem accepts_of_single {w : TyUnion} {m t : Ty} (hw : w.members = [m])
    (htm : t.matches .flat m = true) : w.Accepts t := by
  have hmerged : m.combine? t = some m := by
    rw [Ty.combine?, Ty.combineWith.eq_def, if_pos htm]
  obtain ⟨m', hm'⟩ := exists_partner? (u := w) (t := t) (m := m) (by rw [hw]; simp)
    (by rw [hmerged]; rfl)
  have hmem := (mem_of_partner? hm').1
  rw [hw, List.mem_singleton] at hmem
  exact ⟨m', hm', hmem ▸ htm⟩

theorem foldl_addMember_of_mem_mixed {ms ts : List Ty} (hs : Separate ms) (hst : Separate ts)
    (hm : .mixed ∈ ms ++ ts) : ts.foldl addMember ms = [.mixed] := by
  rcases List.mem_append.1 hm with hm | hm
  · rw [hs.mixed_alone hm, foldl_addMember_mixed]
  · rw [hst.mixed_alone hm, List.foldl_cons, List.foldl_nil, addMember, add, addWith]

/-- Where there are no functions, the array of a join accepts the arrays that were joined. -/
theorem Plain.exists_array {u v : TyUnion} (hu : u.Plain) (hv : v.Plain)
    (hne : v.members.foldl addMember u.members ≠ [.mixed]) {t p : Ty} {f : Family}
    (ht : t ∈ u.members ++ v.members) (hf : t.family? = some f) (hp : p ∈ t.parts)
    (harr : p.isArray = true) : ∃ e ∈ v.members.foldl addMember u.members,
      e.family? = some f ∧ p.matches .flat e = true := by
  have htp : t.Plain := (List.mem_append.1 ht).elim (hu.mem t) (hv.mem t)
  have hpp : p.Plain := ⟨htp.1.part hp, Ty.functionFree_part htp.2 hp⟩
  have hpf : p.family? = some f := by
    cases t with
    | optional c s =>
      rcases List.mem_cons.1 hp with rfl | hp
      · exact hf
      · rcases Sentinel.eq_of_mem hp with rfl | rfl <;> cases harr
    | _ => exact List.mem_singleton.1 hp ▸ hf
  have hsu := (wellFormed_iff.1 hu.1).2
  have hsv := (wellFormed_iff.1 hv.1).2
  obtain ⟨hs, hplain⟩ := (Family.firm_plain f).separate_foldl hsu hu.mem hv.mem
  have hkept : Kept p u.members ∨ ∃ t ∈ v.members, p ∈ t.parts :=
    (List.mem_append.1 ht).imp (fun ht => .inr ⟨t, ht, hp⟩) fun ht => ⟨t, ht, hp⟩
  obtain ⟨e, he, hpe⟩ := array_foldl (I := fun ms => Plain ⟨ms⟩) grows_addMember harr
    hpp.1.matches_self (by rwa [eta]) hv.mem hsv.apart hkept
  exact ⟨e, he, hpp.family?_matches (hplain e he) (hs.isMixed_eq_false hne he) hpe hpf, hpe⟩

section

variable {u v w : TyUnion} (hu : u.WellFormed) (hw : w.WellFormed)
  (hperm : w.members.Perm (v.members.foldl addMember u.members)) (hne : w.members ≠ [.mixed])
  {t : Ty} (ht : t ∈ u.members ++ v.members)

include hu hw hperm hne ht

theorem accepts_of_firm {L : Ty → Prop} {f : Family} (hfirm : f.Firm L)
    (huL : ∀ m ∈ u.members, L m) (hvL : ∀ m ∈ v.members, L m) (hf : t.family? = some f)
    (harray : ∀ p ∈ t.parts, p.isArray = true → ∃ e ∈ v.members.foldl addMember u.members,
      e.family? = some f ∧ p.matches .flat e = true) : w.Accepts t := by
  have hs := (wellFormed_iff.1 hu).2
  have hjoined : v.members.foldl addMember u.members ≠ [.mixed] := fun hmixed =>
    hne (List.perm_singleton.1 (hmixed ▸ hperm))
  obtain ⟨e, he, hef, hte⟩ := hfirm.exists_taker hs huL hvL hjoined ht hf harray
  have hL := (hfirm.separate_foldl hs huL hvL).2
  exact ⟨e, hfirm.partner?_eq hw (fun m hm => hL m (hperm.mem_iff.1 hm)) hne
    ((List.mem_append.1 ht).elim (huL t) (hvL t)) hf (hperm.mem_iff.2 he) hef hte, hte⟩

end

/-- A type that is not in doubt is accepted by the join of unions that have it. -/
theorem accepts_again {u v w : TyUnion} (hu : u.WellFormed) (hv : v.WellFormed)
    (hw : w.WellFormed) (hperm : w.members.Perm (u.union v).members) {t : Ty}
    (ht : t ∈ u.members ++ v.members) (hsure : ¬ Doubtful u v t) : w.Accepts t := by
  by_cases hne : w.members = [.mixed]
  · exact accepts_of_single hne (Ty.matches_mixed t)
  rw [TyUnion.union, members_foldl_add] at hperm
  have hjoined : v.members.foldl addMember u.members ≠ [.mixed] := fun hmixed =>
    hne (List.perm_singleton.1 (hmixed ▸ hperm))
  obtain ⟨hbare, hlenient⟩ := not_or.1 hsure
  have htw : t.WellFormed := (List.mem_append.1 ht).elim (hu.mem t) (hv.mem t)
  have hm : t.isMixed = false := Ty.isMixed_eq_false fun hm =>
    hjoined (foldl_addMember_of_mem_mixed (wellFormed_iff.1 hu).2 (wellFormed_iff.1 hv).2 (hm ▸ ht))
  by_cases hfree : u.functionFree = true ∧ v.functionFree = true
  · have hpu : u.Plain := ⟨hu, hfree.1⟩
    have hpv : v.Plain := ⟨hv, hfree.2⟩
    have htp : t.Plain := (List.mem_append.1 ht).elim (hpu.mem t) (hpv.mem t)
    obtain ⟨f, hf⟩ : ∃ f, t.family? = some f := by
      refine Option.ne_none_iff_exists'.1 fun hnone => hbare ?_
      exact Ty.Telling.isAbsent_core ⟨htp, hm⟩ hnone
    exact accepts_of_firm hu hw hperm hne ht (Family.firm_plain f) hpu.mem hpv.mem hf
      fun p hp harr => hpu.exists_array hpv hjoined ht hf hp harr
  · have hlenient : t.isLenient = false := by
      rw [Bool.eq_false_iff]
      exact fun h => hlenient ⟨h, hfree⟩
    obtain ⟨f, hf, hfixed⟩ := Ty.exists_isFixed_family htw hm (by simpa using hbare) hlenient
    refine accepts_of_firm hu hw hperm hne ht (Family.firm_fixed hfixed) hu.mem hv.mem hf ?_
    intro p hp harr
    have hscalar := Ty.isScalar_of_isFixed (Ty.isFixed_part htw hf hfixed hp)
    rw [Ty.isArray_of_isScalar hscalar] at harr
    cases harr

/-- What is not in doubt settles; so a join stays what it is but for its order if what is in doubt
settles too. -/
theorem foldl_add_perm_of_settles {u v w : TyUnion} (hu : u.WellFormed) (hv : v.WellFormed)
    (hw : w.WellFormed) (hperm : w.members.Perm (u.union v).members) {ts : List Ty}
    (hts : ∀ t ∈ ts, t ∈ u.members ++ v.members) (hsettles : w.Settles (Doubtful u v) ts) :
    (ts.foldl TyUnion.add w).members.Perm (u.union v).members := by
  induction ts generalizing w with
  | nil => exact hperm
  | cons t ts ih =>
    obtain ⟨ht, hts⟩ := List.forall_mem_cons.1 hts
    obtain ⟨haccepts, hsettles⟩ := hsettles
    have htake : w.Accepts t := by
      by_cases hdoubt : Doubtful u v t
      · exact haccepts hdoubt
      · exact accepts_again hu hv hw hperm ht hdoubt
    have htw : t.WellFormed := (List.mem_append.1 ht).elim (hu.mem t) (hv.mem t)
    have hvoid : t ≠ .void := fun hvoid => (List.mem_append.1 (hvoid ▸ ht)).elim
      (wellFormed_iff.1 hu).2.void_not_mem (wellFormed_iff.1 hv).2.void_not_mem
    exact ih (hw.add htw) ((hw.add_perm_of_accepts hvoid htake).trans hperm) hts hsettles

/-- Joining with one side once more changes nothing if what is in doubt there settles. -/
theorem WellFormed.union_again {u v w : TyUnion} (hu : u.WellFormed) (hv : v.WellFormed)
    (hw : ∀ t ∈ w.members, t ∈ u.members ++ v.members)
    (hsettles : (u.union v).Settles (Doubtful u v) w.members) :
    ((u.union v).union w).same (u.union v) = true :=
  (hu.union hv).same_of_perm
    (foldl_add_perm_of_settles hu hv (hu.union hv) (.refl _) hw hsettles)

/-! ### What does not settle -/

/-- After an addition the member of the partner's family accepts what was added. -/
theorem Plain.followed_partner {u : TyUnion} {t m p : Ty} {f : Family} (hu : u.Plain)
    (ht : t.Plain) (hne : u.members ≠ [.mixed]) (hv : t ≠ .void) (hx : t ≠ .mixed)
    (hm : u.partner? t = some m) (hf : m.family? = some f) (hp : p.isScalar = true)
    (hpt : p.matches .flat t = true) :
    (u.add t).members = [.mixed] ∨
      ∃ e ∈ (u.add t).members, e.family? = some f ∧ p.matches .flat e = true := by
  obtain ⟨ms⟩ := u
  have hs := (wellFormed_iff.1 hu.1).2
  have hfirm := Family.firm_plain f
  have hsteady := Ty.steady_of_isScalar hp
  obtain ⟨hmem, hmerges⟩ := mem_of_partner? hm
  obtain ⟨K, hKL, hK, hj, hmsK, htK⟩ := hfirm.within hu.mem ht
  have hmK := hmsK m hmem
  unfold TyUnion.add
  generalize max (TyUnion.arrayDepth ⟨ms⟩) t.arrayDepth = depth at hj ⊢
  obtain ⟨r, hr⟩ : ∃ r, m.combineWith (joinWithin depth) t = some r := by
    rw [← Option.isSome_iff_exists, Ty.isSome_combineWith]
    exact hmerges
  obtain ⟨pre, post, rfl, hmerge⟩ := merge?_partner hm hr
  have hr := Ty.combines_of_combineWith hr
  have hrf : r.family? = some f := (hr.family? (hKL m hmK) ht
    (hs.isMixed_eq_false hne hmem) (Ty.isMixed_eq_false hx) f).2 (.inl hf)
  have hpr := (hsteady.mono hKL).combines hK hj hr hmK htK (.inr hpt)
  have hadd := hfirm.followed_addWith hKL hK hj hsteady (hs.remove hne)
    (fun x hx => hmsK x (mem_of_mem_rest m hx)) (hr.keeps hj hmK htK)
    ⟨r, List.mem_cons_self, hrf, hpr⟩
  rw [addWith_merge hv hx hne hmerge]
  split
  · exact .inl rfl
  · exact hadd

/-- In an equal union the member of a family accepts the same scalars. -/
theorem Plain.matches_of_same {u w : TyUnion} {e m p : Ty} {f : Family} (hu : u.Plain)
    (hw : w.Plain) (hwu : w.same u = true) (hne : u.members ≠ [.mixed]) (hp : p.isScalar = true)
    (he : e ∈ w.members) (hef : e.family? = some f) (hpe : p.matches .flat e = true)
    (hm : m ∈ u.members) (hmf : m.family? = some f) : p.matches .flat m = true := by
  obtain ⟨n, hn, hen⟩ := (same_iff.1 hwu).2 e he
  have heplain := hw.mem e he
  have hem : e.isMixed = false := by
    cases e <;> first | rfl | cases hef
  obtain ⟨q, hq, hpq⟩ := (Ty.matches_iff_parts (Ty.isAtom_of_isScalar hp)).1 hpe
  have hqn := Ty.part_matches (heplain.1.alike hen).le hq
  have hqplain : q.Plain := ⟨heplain.1.part hq, Ty.functionFree_part heplain.2 hq⟩
  have hpn := ((Ty.steady_of_isScalar hp).step (heplain.1.isAtom_part hem hq) hqplain hpq).2
    n (hu.mem n hn) hqn
  have hnf : n.family? = some f := Ty.family?_same hen ▸ hef
  exact (wellFormed_iff.1 hu.1).2.eq_of_family? hu.1.mem hne hn hm hnf hmf ▸ hpn

/-- Beside a type that is not only an absent value, an absent value has a partner of a family. -/
theorem Plain.exists_partner_of_isBare {u : TyUnion} {e t : Ty} (hu : u.Plain)
    (hne : u.members ≠ [.mixed]) (he : e ∈ u.members) (hebare : e.isBare = false)
    (ht : t.WellFormed) (hbare : t.isBare = true) :
    ∃ m f, u.partner? t = some m ∧ m.family? = some f := by
  have hs := (wellFormed_iff.1 hu.1).2
  have hfamily : ∀ m ∈ u.members, m.isBare = false → ∃ f, m.family? = some f := by
    intro m hm hmbare
    refine Option.ne_none_iff_exists'.1 fun hnone => ?_
    have habsent := Ty.Telling.isAbsent_core ⟨hu.mem m hm, hs.isMixed_eq_false hne hm⟩ hnone
    rw [Ty.isBare, habsent] at hmbare
    cases hmbare
  obtain ⟨g, heg⟩ := hfamily e he hebare
  have heo := (hu.mem e he).1.isOptional_part e.core_mem_parts
  obtain ⟨hte, het⟩ := Ty.exists_combines_of_isAbsent (j := joinWithin 0) hbare heo
    (.inr (by rw [← Ty.family?_core, heg]; nofun))
  obtain ⟨r, hr⟩ := Ty.Combines.of_core heo (ht.isOptional_part t.core_mem_parts) het hte
  obtain ⟨m, hm⟩ := exists_partner? he (Option.isSome_iff_ne_none.2 hr.combine?_ne_none)
  have hmem := (mem_of_partner? hm).1
  obtain ⟨f, hf⟩ := hfamily m hmem (hs.isAbsent_core_eq_false hu.1.mem hne hmem he heg)
  exact ⟨m, f, hm, hf⟩

/-- An absent value that its partner does not accept changes a union for good: whatever is added
then, the member of the partner's family accepts it. -/
theorem Plain.accepts_of_same {u : TyUnion} {t e : Ty} {ts : List Ty} (hu : u.Plain)
    (he : e ∈ u.members) (hebare : e.isBare = false) (ht : t.Plain) (hbare : t.isBare = true)
    (hv : t ≠ .void) (hts : ∀ t ∈ ts, t.Plain)
    (hsame : (ts.foldl TyUnion.add (u.add t)).same u = true) : u.Accepts t := by
  by_cases hne : u.members = [.mixed]
  · exact accepts_of_single hne (Ty.matches_mixed t)
  obtain ⟨m, f, hm, hf⟩ := hu.exists_partner_of_isBare hne he hebare ht.1 hbare
  refine ⟨m, hm, Ty.matches_iff_all_parts.2 fun p hp => ?_⟩
  by_cases hpv : p = .void
  · exact hpv ▸ Ty.void_matches m
  have hscalar := Ty.isScalar_of_isBare hbare hp hpv
  have hx : t ≠ .mixed := by
    rintro rfl
    cases hbare
  have hplain : (u.add t).Plain := (hu.grows_add ht).2
  have hw : (ts.foldl TyUnion.add (u.add t)).Plain :=
    List.foldlRecOn ts TyUnion.add hplain fun _ hw t ht => (hw.grows_add (hts t ht)).2
  have hfinal : (ts.foldl TyUnion.add (u.add t)).members = [.mixed] ∨
      ∃ e ∈ (ts.foldl TyUnion.add (u.add t)).members,
        e.family? = some f ∧ p.matches .flat e = true := by
    rw [members_foldl_add]
    rcases hu.followed_partner ht hne hv hx hm hf hscalar (ht.1.part_matches hp) with
      hfull | ⟨e, he, hef, hpe⟩
    · rw [hfull, foldl_addMember_mixed]
      exact .inl rfl
    · exact (Family.firm_plain f).followed_foldl (Ty.steady_of_isScalar hscalar)
        (wellFormed_iff.1 hplain.1).2 hplain.mem hts ⟨e, List.mem_append_left ts he, hef, hpe⟩
  rcases hfinal with hfull | ⟨n, hn, hnf, hpn⟩
  · exact absurd (isMixed_iff.1 (hw.isMixed_same hu hsame (isMixed_iff.2 hfull))) hne
  · exact hu.matches_of_same hw hsame hne hscalar hn hnf hpn (mem_of_partner? hm).1 hf

theorem Plain.settles_of_same {u v w : TyUnion} (hu : u.Plain) (hv : v.Plain) (hw : w.Plain)
    (hperm : w.members.Perm (u.union v).members) {e : Ty} (he : e ∈ (u.union v).members)
    (hbare : e.isBare = false) {ts : List Ty} (hts : ∀ t ∈ ts, t ∈ u.members ++ v.members)
    (hsame : (ts.foldl TyUnion.add w).same (u.union v) = true) : w.Settles (Doubtful u v) ts := by
  induction ts generalizing w with
  | nil => trivial
  | cons t ts ih =>
    obtain ⟨ht, hts⟩ := List.forall_mem_cons.1 hts
    have hplain : ∀ t ∈ u.members ++ v.members, t.Plain := fun t ht =>
      (List.mem_append.1 ht).elim (hu.mem t) (hv.mem t)
    have hvoid : t ≠ .void := fun hvoid => (List.mem_append.1 (hvoid ▸ ht)).elim
      (wellFormed_iff.1 hu.1).2.void_not_mem (wellFormed_iff.1 hv.1).2.void_not_mem
    have hback : (u.union v).same w = true := hw.1.same_of_perm hperm.symm
    have htake : w.Accepts t := by
      by_cases hdoubt : Doubtful u v t
      · have htbare : t.isBare = true := hdoubt.resolve_right fun h => h.2 ⟨hu.2, hv.2⟩
        exact hw.accepts_of_same (hperm.mem_iff.2 he) hbare (hplain t ht) htbare hvoid
          (fun t ht => hplain t (hts t ht)) (same_trans hsame hback)
      · exact accepts_again hu.1 hv.1 hw.1 hperm ht hdoubt
    have hadd := hw.grows_add (hplain t ht)
    exact ⟨fun _ => htake, ih hadd.2
      ((hw.1.add_perm_of_accepts hvoid htake).trans hperm) hts hsame⟩

/-- Where there are no functions, and not only absent values, joining with one side once more
changes nothing exactly if what is in doubt there settles. -/
theorem Plain.union_again_iff {u v w : TyUnion} (hu : u.Plain) (hv : v.Plain)
    (hw : ∀ t ∈ w.members, t ∈ u.members ++ v.members)
    (hbare : ∃ e ∈ (u.union v).members, e.isBare = false) :
    ((u.union v).union w).same (u.union v) = true ↔
      (u.union v).Settles (Doubtful u v) w.members := by
  obtain ⟨e, he, hebare⟩ := hbare
  exact ⟨hu.settles_of_same hv (hu.union hv) (.refl _) he hebare hw,
    hu.1.union_again hv.1 hw⟩

end TyUnion

end PhpCheck
