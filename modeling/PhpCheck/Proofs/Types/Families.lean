import Mathlib.Data.Finset.Card
import PhpCheck.Proofs.Types.Described

/-!
How many members a union has.

Types of one family can always be merged, types of different families never, and a type of
no family, that is, an absent value, merges with any that has one.  So a union has as many
members as families, but for a few that only tell absent values apart, and joining gives up
when there are more than eight families on both sides together (`TyUnion.isMixed_union_iff`).
This does not depend on the order in which the members are added.
-/

namespace PhpCheck

/-! ### Families -/

/-- What types without functions are about, if it is not the absence of a value. -/
inductive Family where
  | truth | number | text | resource | array
  /-- A class or its instances, by its name in small letters. -/
  | named (name : String)
deriving DecidableEq

/-- The family of a type, or of the content of an optional type. -/
def Ty.family? : Ty → Option Family
  | .bool (some false) => none
  | .bool _ => some .truth
  | .int _ | .float _ => some .number
  | .string _ => some .text
  | .resource => some .resource
  | .map _ | .list _ => some .array
  | .classOf name | .object name => some (.named name.toLower)
  | .optional content _ => content.family?
  | .mixed | .void | .null | .function _ => none

theorem Ty.family?_bool {x : Option Bool} {f : Family} (hf : (Ty.bool x).family? = some f) :
    f = .truth := by
  rcases x with _ | _ | _ <;> simp_all [Ty.family?]

theorem Ty.family?_of_isNumeric {t : Ty} (ht : t.isNumeric = true) : t.family? = some .number := by
  cases t <;> first | rfl | cases ht

theorem Ty.family?_of_member? {t : Ty} {u : TyUnion} (ht : t.member? = some u) :
    t.family? = some .array := by
  cases t <;> first | rfl | cases ht

theorem Ty.family?_core (t : Ty) : t.family? = t.core.family? := by
  cases t <;> rfl

theorem Ty.family?_makeOptional (c : Ty) (s : Sentinel) :
    (c.makeOptional s).family? = c.family? := by
  cases c <;> rfl

theorem Ty.family?_sentinel {t : Ty} {s : Sentinel} (ht : t ∈ s.types) : t.family? = none := by
  rcases Sentinel.eq_of_mem ht with rfl | rfl <;> rfl

theorem Ty.family?_ofTy? {t : Ty} {o : Sentinel} (ht : Sentinel.ofTy? t = some o) :
    t.family? = none := by
  rcases Sentinel.ofTy?_eq_some ht with ⟨rfl, -⟩ | ⟨rfl, -⟩ <;> rfl

/-- What may be used as an atom is of its family. -/
theorem Ty.family?_atom_matches {p q : Ty} {f : Family} (hp : p.isAtom = true)
    (hq : q.isAtom = true) (hfn : ∀ g, q ≠ .function g) (hpq : p.matches .flat q = true)
    (hf : p.family? = some f) : q.family? = some f := by
  cases p <;> simp only [Ty.isAtom, Bool.false_eq_true, Ty.family?, reduceCtorEq] at hp hf <;>
    cases q <;> simp_all [Ty.isAtom, Ty.matches, Ty.family?, sameName, Ty.object_matches_string]
  rename_i x y
  cases x with
  | none => cases y <;> simp_all [refines, Ty.family?]
  | some x => cases x <;> cases y <;> simp_all [refines, Ty.family?]

theorem Ty.isAtom_of_family? {t : Ty} {f : Family} (ho : t.isOptional = false)
    (hf : t.family? = some f) : t.isAtom = true := by
  cases t <;> simp_all [Ty.isAtom, Ty.isOptional, Ty.family?]

theorem Ty.core_mem_parts (t : Ty) : t.core ∈ t.parts := by
  cases t <;> simp [Ty.core, Ty.parts]

/-- What may be used as a type is of its family, unless that type is a function. -/
theorem Ty.family?_of_matches {b a : Ty} {f : Family} (hb : b.WellFormed) (ha : a.WellFormed)
    (hm : a.isMixed = false) (hba : b.matches .flat a = true) (hf : b.family? = some f)
    (hfn : ∀ q ∈ a.parts, b.core.matches .flat q = true → ∀ g, q ≠ .function g) :
    a.family? = some f := by
  rw [Ty.family?_core] at hf
  have hatom := Ty.isAtom_of_family? (hb.isOptional_part b.core_mem_parts) hf
  obtain ⟨q, hq, hbq⟩ := (Ty.matches_iff_parts hatom).1 (Ty.part_matches hba b.core_mem_parts)
  have hqf := Ty.family?_atom_matches hatom (ha.isAtom_part hm hq) (hfn q hq hbq) hbq hf
  cases a with
  | optional c s =>
    rcases List.mem_cons.1 hq with rfl | hq
    · exact hqf
    · rw [Ty.family?_sentinel hq] at hqf
      cases hqf
  | _ =>
    obtain rfl := List.mem_singleton.1 hq
    exact hqf

theorem Ty.Plain.family?_matches {b a : Ty} {f : Family} (hb : b.Plain) (ha : a.Plain)
    (hm : a.isMixed = false) (hba : b.matches .flat a = true) (hf : b.family? = some f) :
    a.family? = some f :=
  Ty.family?_of_matches hb.1 ha.1 hm hba hf fun _ hq _ =>
    Ty.ne_function (Ty.functionFree_part ha.2 hq)

section

variable {j : TyUnion → TyUnion → TyUnion}

/-- A merged type is of the families of the types that were merged, where what accepts a type is
of its family. -/
theorem Ty.Combines.family?_iff {K : Ty → Prop} {f : Family} (hw : ∀ {t}, K t → t.WellFormed)
    (hpart : ∀ {c s}, K (.optional c s) → K c)
    (htakes : ∀ {a b}, K a → K b → a.isMixed = false → b.matches .flat a = true →
      b.family? = some f → a.family? = some f)
    {a b r : Ty} (hr : Ty.Combines j a b r) (ha : K a) (hb : K b) (hma : a.isMixed = false)
    (hmb : b.isMixed = false) : r.family? = some f ↔ a.family? = some f ∨ b.family? = some f := by
  have hcontent : ∀ {c s}, K (.optional c s) → K c ∧ c.isMixed = false :=
    fun hc => ⟨hpart hc, (Ty.wellFormed_optional.1 (hw hc)).2.1⟩
  induction hr with
  | left hm => exact ⟨.inl, fun h => h.elim id fun h => htakes ha hb hma hm h⟩
  | right hm => exact ⟨.inr, fun h => h.elim (fun h => htakes hb ha hmb hm h) id⟩
  | bool hx hy =>
    -- Neither is refined to what the other is, so one of them is `true`.
    clear ha hb hw hpart htakes hcontent
    rename_i x y
    cases x with
    | none => cases y <;> simp_all [refines]
    | some x => cases x <;> cases y <;> simp_all [refines, Ty.family?]
  | int x y | string x y => simp [Ty.family?]
  | float hx hy =>
    rw [Ty.family?_of_isNumeric hx, Ty.family?_of_isNumeric hy, or_self]
    rfl
  | list x y => simp [Ty.family?]
  | map hx hy =>
    rw [Ty.family?_of_member? hx, Ty.family?_of_member? hy, or_self]
    rfl
  | function g h => simp [Ty.family?, Ty.callable]
  | optionals s t hc ih =>
    obtain ⟨hx, hmx⟩ := hcontent ha
    obtain ⟨hy, hmy⟩ := hcontent hb
    rw [Ty.family?_makeOptional]
    exact ih hx hy hmx hmy
  | sentinelLeft c s ht =>
    rw [Ty.family?_makeOptional, Ty.family?_ofTy? ht]
    simp [Ty.family?]
  | sentinelRight c s ht =>
    rw [Ty.family?_makeOptional, Ty.family?_ofTy? ht]
    simp [Ty.family?]
  | contentLeft s ho ht hc ih =>
    obtain ⟨hx, hmx⟩ := hcontent ha
    rw [Ty.family?_makeOptional]
    exact ih hx hb hmx hmb
  | contentRight s ho ht hc ih =>
    obtain ⟨hx, hmx⟩ := hcontent hb
    rw [Ty.family?_makeOptional]
    exact (ih hx ha hmx hma).trans Or.comm
  | promoteLeft hp hs =>
    rw [Ty.family?_makeOptional, Ty.family?_ofTy? hs]
    simp
  | promoteRight hp hs =>
    rw [Ty.family?_makeOptional, Ty.family?_ofTy? hs]
    simp

theorem Ty.Combines.family? {a b r : Ty} (hr : Ty.Combines j a b r) (ha : a.Plain) (hb : b.Plain)
    (hma : a.isMixed = false) (hmb : b.isMixed = false) (f : Family) :
    r.family? = some f ↔ a.family? = some f ∨ b.family? = some f :=
  hr.family?_iff (fun ht => ht.1) (fun hc => hc.content)
    (fun ha hb hm hba hf => hb.family?_matches ha hm hba hf) ha hb hma hmb

/-! ### What merges -/

theorem Ty.Combines.combine?_ne_none {a b r : Ty} (hr : Ty.Combines j a b r) :
    a.combine? b ≠ none := by
  have hsome := (hr.isSome (joinWithin (max a.arrayDepth b.arrayDepth))).1
  intro hn
  rw [Ty.combine?] at hn
  rw [hn] at hsome
  cases hsome

/-- Contents of one family merge. -/
theorem Ty.exists_combines_of_family? {a b : Ty} {f : Family} (ha : a.isAtom = true)
    (hb : b.isAtom = true) (hfa : a.family? = some f) (hfb : b.family? = some f) :
    ∃ r, Ty.Combines j a b r := by
  by_cases hab : a.matches .flat b = true
  · exact ⟨b, .right hab⟩
  by_cases hba : b.matches .flat a = true
  · exact ⟨a, .left hba⟩
  rw [Bool.not_eq_true] at hab hba
  cases f with
  | truth =>
    have hshape : ∀ {t : Ty}, t.isAtom = true → t.family? = some .truth → ∃ x, t = .bool x := by
      intro t ht hf
      cases t <;> simp_all [Ty.isAtom, Ty.family?]
    obtain ⟨x, rfl⟩ := hshape ha hfa
    obtain ⟨y, rfl⟩ := hshape hb hfb
    exact ⟨_, .bool (by simpa [Ty.matches] using hab) (by simpa [Ty.matches] using hba)⟩
  | number =>
    have hshape : ∀ {t : Ty}, t.isAtom = true → t.family? = some .number → t.isNumeric = true := by
      intro t ht hf
      cases t with
      | bool x => cases Ty.family?_bool hf
      | _ => simp_all [Ty.isAtom, Ty.family?, Ty.isNumeric]
    exact ⟨_, .float (hshape ha hfa) (hshape hb hfb)⟩
  | text =>
    have hshape : ∀ {t : Ty}, t.isAtom = true → t.family? = some .text → ∃ x, t = .string x := by
      intro t ht hf
      cases t with
      | bool x => cases Ty.family?_bool hf
      | _ => simp_all [Ty.isAtom, Ty.family?]
    obtain ⟨x, rfl⟩ := hshape ha hfa
    obtain ⟨y, rfl⟩ := hshape hb hfb
    exact ⟨_, .string x y⟩
  | resource =>
    have hshape : ∀ {t : Ty}, t.isAtom = true → t.family? = some .resource → t = .resource := by
      intro t ht hf
      cases t with
      | bool x => cases Ty.family?_bool hf
      | _ => simp_all [Ty.isAtom, Ty.family?]
    rw [hshape ha hfa, hshape hb hfb] at hab
    simp [Ty.matches] at hab
  | array =>
    have hshape : ∀ {t : Ty}, t.isAtom = true → t.family? = some .array →
        ∃ x, t.member? = some x := by
      intro t ht hf
      cases t with
      | bool x => cases Ty.family?_bool hf
      | _ => simp_all [Ty.isAtom, Ty.family?, Ty.member?]
    obtain ⟨x, hx⟩ := hshape ha hfa
    obtain ⟨y, hy⟩ := hshape hb hfb
    exact ⟨_, .map hx hy⟩
  | named name =>
    -- One of them may be used as the other: a class as itself, and an instance as either.
    have hshape : ∀ {t : Ty}, t.isAtom = true → t.family? = some (.named name) →
        ∃ n, n.toLower = name ∧ (t = .classOf n ∨ t = .object n) := by
      intro t ht hf
      cases t with
      | bool x => cases Ty.family?_bool hf
      | _ => simp_all [Ty.isAtom, Ty.family?]
    obtain ⟨x, hx, hax⟩ := hshape ha hfa
    obtain ⟨y, hy, hby⟩ := hshape hb hfb
    have hxy : sameName x y = true := by rw [sameName, hx, hy, beq_self_eq_true]
    have hyx : sameName y x = true := by rw [sameName, hx, hy, beq_self_eq_true]
    rcases hax with rfl | rfl <;> rcases hby with rfl | rfl <;>
      simp [Ty.matches, hxy, hyx] at hab hba

/-- Contents that only stand for an absent value. -/
def Ty.isAbsent : Ty → Bool
  | .void | .null | .bool (some false) => true
  | _ => false

/-- An absent value merges with any content that has a family, and nothing does so with
all. -/
theorem Ty.exists_combines_of_isAbsent {a b : Ty} (ha : a.isAbsent = true)
    (hb : b.isOptional = false) (hf : a = .void ∨ b.family? ≠ none) :
    (∃ r, Ty.Combines j a b r) ∧ ∃ r, Ty.Combines j b a r := by
  by_cases hv : a = .void
  · subst hv
    exact ⟨⟨b, .right (Ty.void_matches b)⟩, b, .left (Ty.void_matches b)⟩
  obtain ⟨f, hbf⟩ := Option.ne_none_iff_exists'.1 (hf.resolve_left hv)
  clear hf
  by_cases hab : a.matches .flat b = true
  · exact ⟨⟨b, .right hab⟩, b, .left hab⟩
  obtain ⟨o, ho⟩ : ∃ o, Sentinel.ofTy? a = some o := by
    cases a <;> simp_all [Ty.isAbsent, Sentinel.ofTy?]
    rename_i x
    rcases x with _ | _ | _ <;> simp_all
  cases b with
  | bool y =>
    rcases Sentinel.ofTy?_eq_some ho with ⟨rfl, rfl⟩ | ⟨rfl, rfl⟩
    · rcases y with _ | _ | _
      · simp [Ty.matches, refines] at hab
      · simp [Ty.family?] at hbf
      · exact ⟨⟨_, .bool rfl rfl⟩, _, .bool rfl rfl⟩
    · rcases y with _ | _ | _
      · exact ⟨⟨_, .promoteRight rfl ho⟩, _, .promoteLeft rfl ho⟩
      · simp [Ty.family?] at hbf
      · exact ⟨⟨_, .promoteRight rfl ho⟩, _, .promoteLeft rfl ho⟩
  | mixed | void | null | function | optional => simp_all [Ty.family?, Ty.isOptional]
  | _ => exact ⟨⟨_, .promoteRight rfl ho⟩, _, .promoteLeft rfl ho⟩

/-- Types merge when what they are less their sentinels does. -/
theorem Ty.Combines.of_core {a b : Ty} (ha : a.core.isOptional = false)
    (hb : b.core.isOptional = false) (hab : ∃ r, Ty.Combines j a.core b.core r)
    (hba : ∃ r, Ty.Combines j b.core a.core r) : ∃ r, Ty.Combines j a b r := by
  obtain ⟨r, hr⟩ := hab
  obtain ⟨r', hr'⟩ := hba
  cases hao : a.isOptional with
  | true =>
    obtain ⟨c, s, rfl⟩ := Ty.eq_optional hao
    cases hbo : b.isOptional with
    | true =>
      obtain ⟨d, o, rfl⟩ := Ty.eq_optional hbo
      exact ⟨_, .optionals _ _ hr⟩
    | false =>
      rw [Ty.core_eq hbo] at hr
      cases ht : Sentinel.ofTy? b with
      | none => exact ⟨_, .contentLeft _ hbo ht hr⟩
      | some o => exact ⟨_, .sentinelLeft _ _ ht⟩
  | false =>
    rw [Ty.core_eq hao] at hr hr'
    cases hbo : b.isOptional with
    | true =>
      obtain ⟨d, o, rfl⟩ := Ty.eq_optional hbo
      cases ht : Sentinel.ofTy? a with
      | none => exact ⟨_, .contentRight _ hao ht hr'⟩
      | some o => exact ⟨_, .sentinelRight _ _ ht⟩
    | false =>
      rw [Ty.core_eq hbo] at hr
      exact ⟨_, hr⟩

end

/-! ### What does not merge -/

/-- A type that may be a member of a union that tells alternatives apart. -/
structure Ty.Telling (t : Ty) : Prop where
  plain : t.Plain
  isMixed : t.isMixed = false

theorem Ty.Telling.isAtom_core {t : Ty} (ht : t.Telling) : t.core.isAtom = true :=
  ht.plain.1.isAtom_part ht.isMixed t.core_mem_parts

theorem Ty.Telling.isOptional_core {t : Ty} (ht : t.Telling) : t.core.isOptional = false :=
  (Ty.isAtom_iff.1 ht.isAtom_core).2

theorem Ty.Telling.isAbsent_core {t : Ty} (ht : t.Telling) (hf : t.family? = none) :
    t.core.isAbsent = true := by
  have hatom := ht.isAtom_core
  have hfree := Ty.functionFree_part ht.plain.2 t.core_mem_parts
  rw [Ty.family?_core] at hf
  generalize t.core = c at hatom hfree hf
  cases c with
  | bool x => rcases x with _ | _ | _ <;> simp_all [Ty.family?, Ty.isAbsent]
  | _ => simp_all [Ty.family?, Ty.isAtom, Ty.functionFree, Ty.isAbsent]

/-- Types that cannot be merged are of different families, or of none and about different
absent values. -/
theorem Ty.Telling.apart {a b : Ty} (ha : a.Telling) (hb : b.Telling) (hn : a.combine? b = none) :
    (∃ f g, a.family? = some f ∧ b.family? = some g ∧ f ≠ g) ∨
      a.family? = none ∧ b.family? = none ∧ a.core ≠ b.core ∧ a.core ≠ .void ∧ b.core ≠ .void := by
  have hno : ∀ j, (∃ r, Ty.Combines j a.core b.core r) → (∃ r, Ty.Combines j b.core a.core r) →
      False := fun j hab hba => by
    obtain ⟨r, hr⟩ := Ty.Combines.of_core ha.isOptional_core hb.isOptional_core hab hba
    exact hr.combine?_ne_none hn
  cases hfa : a.family? with
  | none =>
    have habs := ha.isAbsent_core hfa
    have hnot : ¬ (a.core = .void ∨ b.core.family? ≠ none) := fun h =>
      (Ty.exists_combines_of_isAbsent (j := joinWithin 0) habs hb.isOptional_core h).elim (hno _)
    rw [not_or, not_not, ← Ty.family?_core] at hnot
    refine .inr ⟨rfl, hnot.2, fun heq => ?_, hnot.1, fun hv => ?_⟩
    · have hself : b.core.matches .flat b.core = true :=
        (hb.plain.1.part b.core_mem_parts).matches_self
      rw [heq] at hno
      exact hno (joinWithin 0) ⟨_, .left hself⟩ ⟨_, .left hself⟩
    · have habs' := hb.isAbsent_core hnot.2
      obtain ⟨hba, hab⟩ := Ty.exists_combines_of_isAbsent (j := joinWithin 0) habs'
        ha.isOptional_core (.inl hv)
      exact hno _ hab hba
  | some f =>
    cases hfb : b.family? with
    | none =>
      have habs := hb.isAbsent_core hfb
      have hcore : a.core.family? ≠ none := by rw [← Ty.family?_core, hfa]; nofun
      obtain ⟨hba, hab⟩ := Ty.exists_combines_of_isAbsent (j := joinWithin 0) habs
        ha.isOptional_core (.inr hcore)
      exact (hno _ hab hba).elim
    | some g =>
      refine .inl ⟨f, g, rfl, rfl, fun hfg => ?_⟩
      subst hfg
      rw [Ty.family?_core] at hfa hfb
      exact hno (joinWithin 0)
        (Ty.exists_combines_of_family? ha.isAtom_core hb.isAtom_core hfa hfb)
        (Ty.exists_combines_of_family? hb.isAtom_core ha.isAtom_core hfb hfa)

/-- Types of different families do not merge. -/
theorem Ty.Telling.combine?_eq_none {a b : Ty} {f g : Family} (ha : a.Telling) (hb : b.Telling)
    (hf : a.family? = some f) (hg : b.family? = some g) (hfg : f ≠ g) : a.combine? b = none := by
  rw [Option.eq_none_iff_forall_ne_some]
  intro r hr
  have hfamily := (Ty.combines_of_combineWith hr).family? ha.plain hb.plain ha.isMixed hb.isMixed
  have hrf := (hfamily f).2 (.inl hf)
  rw [(hfamily g).2 (.inr hg)] at hrf
  exact hfg (Option.some.inj hrf).symm

/-! ### Counting families -/

/-- The families of some types. -/
def families (ts : List Ty) : Finset Family := (ts.filterMap Ty.family?).toFinset

theorem mem_families {ts : List Ty} {f : Family} :
    f ∈ families ts ↔ ∃ t ∈ ts, t.family? = some f := by
  rw [families, List.mem_toFinset, List.mem_filterMap]

theorem families_append (ts us : List Ty) : families (ts ++ us) = families ts ∪ families us := by
  rw [families, List.filterMap_append, List.toFinset_append]
  rfl

theorem families_cons (t : Ty) (ts : List Ty) : families (t :: ts) = families [t] ∪ families ts :=
  families_append [t] ts

theorem card_families_le (ts : List Ty) : (families ts).card ≤ ts.length :=
  Nat.le_trans (List.toFinset_card_le _) (List.length_filterMap_le _ _)

/-- Of three types that cannot be merged, none is only about an absent value. -/
theorem Ty.Telling.exists_family {a b c : Ty} (ha : a.Telling) (hb : b.Telling) (hc : c.Telling)
    (hab : a.combine? b = none) (hac : a.combine? c = none) (hbc : b.combine? c = none) :
    ∃ f, a.family? = some f := by
  rcases ha.apart hb hab with ⟨f, -, hf, -⟩ | ⟨hfa, hfb, hne, hva, hvb⟩
  · exact ⟨f, hf⟩
  rcases ha.apart hc hac with ⟨f, -, hf, -⟩ | ⟨-, hfc, hne', -, hvc⟩
  · exact ⟨f, hf⟩
  rcases hb.apart hc hbc with ⟨f, -, hf, -⟩ | ⟨-, -, hne'', -, -⟩
  · rw [hf] at hfb
    cases hfb
  -- There are two absent values that can be told apart, and here are three.
  have htwo : ∀ {t : Ty}, t.isAbsent = true → t ≠ .void → t = .null ∨ t = .bool (some false) := by
    intro t ht hv
    cases t with
    | bool x => rcases x with _ | _ | _ <;> simp_all [Ty.isAbsent]
    | _ => simp_all [Ty.isAbsent]
  rcases htwo (ha.isAbsent_core hfa) hva with h | h <;>
    rcases htwo (hb.isAbsent_core hfb) hvb with h' | h' <;>
      rcases htwo (hc.isAbsent_core hfc) hvc with h'' | h'' <;> simp_all

/-- Many types that cannot be merged have a family each. -/
theorem card_families_eq {ts : List Ty} (hts : ∀ t ∈ ts, t.Telling)
    (hap : ts.Pairwise fun a b => a.combine? b = none) (hmany : 2 < ts.length) :
    (families ts).card = ts.length := by
  have hpair : ∀ i j (hi : i < ts.length) (hj : j < ts.length), i ≠ j →
      ts[i].combine? ts[j] = none := by
    intro i j hi hj hij
    rcases Nat.lt_or_gt_of_ne hij with hlt | hlt
    · exact List.pairwise_iff_getElem.1 hap i j hi hj hlt
    · exact Ty.combine?_eq_none_comm (List.pairwise_iff_getElem.1 hap j i hj hi hlt)
  have hall : ∀ t ∈ ts, t.family?.isSome := by
    intro t ht
    obtain ⟨i, hi, rfl⟩ := List.getElem_of_mem ht
    obtain ⟨j, k, hj, hk, hij, hik, hjk⟩ : ∃ j k, j < ts.length ∧ k < ts.length ∧ i ≠ j ∧ i ≠ k ∧
        j ≠ k := by
      rcases i with _ | _ | i
      · exact ⟨1, 2, by omega, by omega, by omega, by omega, by omega⟩
      · exact ⟨0, 2, by omega, by omega, by omega, by omega, by omega⟩
      · exact ⟨0, 1, by omega, by omega, by omega, by omega, by omega⟩
    have hmem : ∀ n (hn : n < ts.length), ts[n].Telling := fun n hn => hts _ (List.getElem_mem hn)
    obtain ⟨f, hf⟩ := (hmem i hi).exists_family (hmem j hj) (hmem k hk) (hpair i j hi hj hij)
      (hpair i k hi hk hik) (hpair j k hj hk hjk)
    exact Option.isSome_iff_exists.2 ⟨f, hf⟩
  have hnodup : (ts.filterMap Ty.family?).Nodup := by
    refine List.Pairwise.filterMap Ty.family? (R := fun a b => a ∈ ts ∧ b ∈ ts ∧
      a.combine? b = none)
      (fun a b hab f hf g hg hfg => ?_) (hap.imp_of_mem fun ha hb hn => ⟨ha, hb, hn⟩)
    subst hfg
    rcases (hts a hab.1).apart (hts b hab.2.1) hab.2.2 with ⟨f', g', hf', hg', hne⟩ | ⟨hn, -⟩
    · rw [hf'] at hf
      rw [hg'] at hg
      exact hne ((Option.some.inj hf).trans (Option.some.inj hg).symm)
    · rw [hn] at hf
      cases hf
  rw [families, List.toFinset_card_of_nodup hnodup]
  exact List.filterMap_length_eq_length.2 hall

/-! ### Adding -/

section

variable {j : TyUnion → TyUnion → TyUnion} {K : Ty → Prop}

theorem Ty.isMixed_makeOptional {c : Ty} {s : Sentinel} (hc : c.isMixed = false) :
    (c.makeOptional s).isMixed = false := by
  cases c <;> simp_all [Ty.makeOptional, Ty.isMixed]

theorem Ty.Combines.isMixed_eq_false {a b r : Ty} (hr : Ty.Combines j a b r) (ha : a.WellFormed)
    (hb : b.WellFormed) (hma : a.isMixed = false) (hmb : b.isMixed = false) :
    r.isMixed = false := by
  have hcontent : ∀ {c s}, (Ty.optional c s).WellFormed → c.WellFormed ∧ c.isMixed = false :=
    fun hc => ⟨hc.content, (Ty.wellFormed_optional.1 hc).2.1⟩
  induction hr with
  | left hm => exact hma
  | right hm => exact hmb
  | optionals s t hc ih =>
    exact isMixed_makeOptional
      (ih (hcontent ha).1 (hcontent hb).1 (hcontent ha).2 (hcontent hb).2)
  | sentinelLeft c s ht => exact isMixed_makeOptional (hcontent ha).2
  | sentinelRight c s ht => exact isMixed_makeOptional (hcontent hb).2
  | contentLeft s ho ht hc ih =>
    exact isMixed_makeOptional (ih (hcontent ha).1 hb (hcontent ha).2 hmb)
  | contentRight s ho ht hc ih =>
    exact isMixed_makeOptional (ih (hcontent hb).1 ha (hcontent hb).2 hma)
  | promoteLeft hp hs => exact isMixed_makeOptional hma
  | promoteRight hp hs => exact isMixed_makeOptional hmb
  | _ => rfl

theorem Separate.rest_ne_mixed {pre post : List Ty} {m : Ty} (hs : Separate (pre ++ m :: post))
    (hne : pre ++ m :: post ≠ [.mixed]) : pre ++ post ≠ [.mixed] := by
  intro hrest
  refine hne (hs.mixed_alone (mem_of_mem_rest m ?_))
  rw [hrest]
  exact List.mem_singleton_self _

/-- Adding a type adds its family, and gives up exactly when there are too many. -/
theorem families_addWith (hK : ∀ t, K t → t.Plain) (hj : MergeClosed j K) {ms : List Ty} {t : Ty}
    (hs : Separate ms) (hms : ∀ m ∈ ms, K m) (ht : K t) (hne : ms ≠ [.mixed]) (hx : t ≠ .mixed) :
    (addWith (Ty.combineWith j) ms t = [.mixed] ∧ maxMembers < (families (t :: ms)).card) ∨
      (addWith (Ty.combineWith j) ms t ≠ [.mixed] ∧
        families (addWith (Ty.combineWith j) ms t) = families (t :: ms)) := by
  refine (addWith_induct (motive := fun ms t res => Separate ms → (∀ m ∈ ms, K m) → K t →
    ms ≠ [.mixed] → t ≠ .mixed → (res = [.mixed] ∧ maxMembers < (families (t :: ms)).card) ∨
      (res ≠ [.mixed] ∧ families res = families (t :: ms)))
    ?_ ?_ ?_ ?_ ?_ ?_ ms t hs.length_le).1 hs hms ht hne hx
  · exact fun ms _ _ _ hne _ => .inr ⟨hne, rfl⟩
  · exact fun ms _ _ _ _ hx => absurd rfl hx
  · exact fun t _ _ _ hne _ => absurd rfl hne
  · intro pre m post t r _ _ _ hr ih hs hms ht hne hx
    have hr := Ty.combines_of_combineWith hr
    have hm := hms m (by simp)
    have hmm := hs.isMixed_eq_false hne (List.mem_append_right pre List.mem_cons_self)
    have htm := Ty.isMixed_eq_false hx
    have hrx : r ≠ .mixed := by
      rintro rfl
      cases hr.isMixed_eq_false (hK m hm).1 (hK t ht).1 hmm htm
    have hrf : families [r] = families [t] ∪ families [m] := by
      ext f
      simp only [mem_families, List.mem_singleton, exists_eq_left, Finset.mem_union,
        hr.family? (hK m hm) (hK t ht) hmm htm f, or_comm]
    have heq : families (r :: (pre ++ post)) = families (t :: (pre ++ m :: post)) := by
      rw [families_cons r, hrf, families_cons t (pre ++ m :: post), families_append pre (m :: post),
        families_cons m post, families_append, Finset.union_assoc,
        Finset.union_left_comm (families pre)]
    rw [← heq]
    exact ih (hs.remove hne) (fun x hx => hms x (mem_of_mem_rest m hx)) (hr.keeps hj hm ht)
      (hs.rest_ne_mixed hne) hrx
  · intro ms t _ _ _ _ _ _ _ _ hne hx
    refine .inr ⟨fun hone => ?_, ?_⟩
    · rcases List.append_eq_singleton_iff.1 hone with ⟨-, ht⟩ | ⟨hms, -⟩
      · exact hx (List.singleton_inj.1 ht)
      · exact hne hms
    · rw [families_append, families_cons t ms, Finset.union_comm]
  · intro ms t _ _ _ hn hmany hs hms ht hne hx
    refine .inl ⟨rfl, ?_⟩
    have htell : ∀ x ∈ t :: ms, x.Telling := by
      intro x hmem
      rcases List.mem_cons.1 hmem with rfl | hmem
      · exact ⟨hK x ht, Ty.isMixed_eq_false hx⟩
      · exact ⟨hK x (hms x hmem), hs.isMixed_eq_false hne hmem⟩
    have hap : (t :: ms).Pairwise fun a b => a.combine? b = none :=
      List.pairwise_cons.2 ⟨fun m hm => Ty.combineWith_eq_none_comm (hn m hm) _, hs.apart⟩
    rw [card_families_eq htell hap (by rw [List.length_cons]; simp [maxMembers] at hmany; omega),
      List.length_cons]
    omega

end

theorem families_addMember {ms : List Ty} {t : Ty} (hms : TyUnion.Plain ⟨ms⟩) (ht : t.Plain)
    (hne : ms ≠ [.mixed]) (hx : t ≠ .mixed) :
    (addMember ms t = [.mixed] ∧ maxMembers < (families (t :: ms)).card) ∨
      (addMember ms t ≠ [.mixed] ∧ families (addMember ms t) = families (t :: ms)) := by
  have hd : TyUnion.PlainWithin (max (TyUnion.arrayDepth ⟨ms⟩) t.arrayDepth) ⟨ms⟩ :=
    TyUnion.plainWithin_iff.2 ⟨hms.1, hms.2, Nat.le_max_left _ _⟩
  exact families_addWith (fun t ht => ht.1) (mergeClosed_plainWithin (plainWithin_joinWithin _))
    (TyUnion.wellFormed_iff.1 hms.1).2 hd.2 ⟨ht, Nat.le_max_right _ _⟩ hne hx

theorem families_foldl {ms ts : List Ty} (hms : TyUnion.Plain ⟨ms⟩) (hts : ∀ t ∈ ts, t.Plain)
    (hne : ms ≠ [.mixed]) (hx : .mixed ∉ ts) :
    (ts.foldl addMember ms = [.mixed] ∧ maxMembers < (families (ms ++ ts)).card) ∨
      (ts.foldl addMember ms ≠ [.mixed] ∧
        families (ts.foldl addMember ms) = families (ms ++ ts)) := by
  induction ts generalizing ms with
  | nil => exact .inr ⟨hne, by simp⟩
  | cons t ts ih =>
    obtain ⟨ht, hts⟩ := List.forall_mem_cons.1 hts
    rw [List.mem_cons, not_or] at hx
    have hcons : families (ms ++ t :: ts) = families (t :: ms) ∪ families ts := by
      rw [families_append, families_cons t ts, families_cons t ms, Finset.union_left_comm,
        Finset.union_assoc]
    rw [List.foldl_cons, hcons]
    rcases families_addMember hms ht hne (Ne.symm hx.1) with ⟨hfull, hlt⟩ | ⟨hmore, heq⟩
    · rw [hfull, foldl_addMember_mixed]
      exact .inl ⟨rfl, Nat.lt_of_lt_of_le hlt (Finset.card_le_card Finset.subset_union_left)⟩
    · rw [← heq, ← families_append]
      exact ih (grows_addMember ms t hms ht).2 hts hmore hx.2

/-- Joining gives up for `mixed`, or for too many families. -/
theorem TyUnion.isMixed_union_iff {u v : TyUnion} (hu : u.Plain) (hv : v.Plain) :
    (u.union v).isMixed = true ↔ u.isMixed = true ∨ v.isMixed = true ∨
      maxMembers < (families u.members ∪ families v.members).card := by
  obtain ⟨ms⟩ := u
  have hlen := (wellFormed_iff.1 (hu.1.union hv.1)).2.length_le
  rw [← families_append, isMixed_iff, isMixed_iff, isMixed_iff]
  rw [TyUnion.union, members_foldl_add] at hlen ⊢
  simp only at hlen ⊢
  by_cases hms : ms = [.mixed]
  · rw [hms, foldl_addMember_mixed]
    exact iff_of_true rfl (.inl rfl)
  by_cases hvm : v.members = [.mixed]
  · have hlast : addMember ms .mixed = [.mixed] := by
      rw [addMember, TyUnion.add, addWith]
    rw [hvm, List.foldl_cons, List.foldl_nil, hlast]
    exact iff_of_true rfl (.inr (.inl rfl))
  have hx : .mixed ∉ v.members := fun hmem =>
    hvm ((wellFormed_iff.1 hv.1).2.mixed_alone hmem)
  rcases families_foldl hu hv.mem hms hx with ⟨hfull, hlt⟩ | ⟨hmore, heq⟩
  · exact iff_of_true hfull (.inr (.inr hlt))
  · refine iff_of_false hmore ?_
    rintro (h | h | h)
    · exact hms h
    · exact hvm h
    · rw [← heq] at h
      exact absurd (Nat.le_trans (card_families_le _) hlen) (Nat.not_le_of_lt h)

end PhpCheck
