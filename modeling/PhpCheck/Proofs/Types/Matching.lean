import PhpCheck.Types.Union

/-!
The subtype test, read case by case.

`Ty.matches` is one function with overlapping cases.  This file says what it does
on `mixed`, on the empty type and on optional types, and reads the tests on lists
of types as quantifiers, so that later proofs do not open the function.  It also
holds the induction over types that all of them use: an array is built on the
members of its union, and a function on the members of its parameter and result
types.
-/

namespace PhpCheck

/-! ### Induction over types -/

theorem Ty.size_lt_totalSize {t : Ty} {ts : List Ty} (ht : t ∈ ts) : t.size < totalSize ts := by
  induction ts with
  | nil => simp at ht
  | cons x xs ih =>
    rw [totalSize]
    rcases List.mem_cons.1 ht with rfl | ht
    · omega
    · have := ih ht
      omega

theorem Param.size_lt_paramsSize {p : Param} {ps : List Param} (hp : p ∈ ps) :
    p.size < paramsSize ps := by
  induction ps with
  | nil => simp at hp
  | cons x xs ih =>
    rw [paramsSize]
    rcases List.mem_cons.1 hp with rfl | hp
    · omega
    · have := ih hp
      omega

theorem TyUnion.member_size_lt {u : TyUnion} {t : Ty} (ht : t ∈ u.members) : t.size < u.size := by
  obtain ⟨ts⟩ := u
  have hlt : t.size < totalSize ts := Ty.size_lt_totalSize ht
  rw [TyUnion.size]
  omega

theorem Signature.result_size_lt (f : Signature) : f.result.size < f.size := by
  obtain ⟨_, _, ⟨_⟩, _, _, _⟩ := f
  simp only [Signature.size, TyUnion.size]
  omega

theorem Signature.param_size_lt {f : Signature} {p : Param} {u : TyUnion} (hp : p ∈ f.params)
    (hu : p.ty = some u) : u.size < f.size := by
  have hlt := Param.size_lt_paramsSize hp
  obtain ⟨_, ty, _, _, _⟩ := p
  obtain rfl : ty = some u := hu
  obtain ⟨_, _, ⟨_⟩, _, _, _⟩ := f
  simp only [Signature.size, TyUnion.size, Param.size, unionSize?] at hlt ⊢
  omega

/-- Induction over types.  What has no types inside it is one case, so that a proof
says something about arrays, functions and optional types only. -/
theorem Ty.induct {P : Ty → Prop}
    (leaf : ∀ t : Ty, t.member? = none → t.isOptional = false →
      (∀ f, t ≠ .function f) → P t)
    (map : ∀ u : TyUnion, (∀ t ∈ u.members, P t) → P (.map u))
    (list : ∀ u : TyUnion, (∀ t ∈ u.members, P t) → P (.list u))
    (function : ∀ f : Signature, (∀ p ∈ f.params, ∀ u, p.ty = some u → ∀ t ∈ u.members, P t) →
      (∀ t ∈ f.result.members, P t) → P (.function f))
    (optional : ∀ c s, P c → P (.optional c s)) (t : Ty) : P t := by
  induction hn : t.size using Nat.strongRecOn generalizing t with
  | ind n ih =>
    subst hn
    cases t with
    | map u =>
      refine map u fun t ht => ih _ ?_ t rfl
      have := TyUnion.member_size_lt ht
      simp only [Ty.size]
      omega
    | list u =>
      refine list u fun t ht => ih _ ?_ t rfl
      have := TyUnion.member_size_lt ht
      simp only [Ty.size]
      omega
    | function f =>
      refine function f (fun p hp u hu t ht => ih _ ?_ t rfl) fun t ht => ih _ ?_ t rfl
      · have := TyUnion.member_size_lt ht
        have := Signature.param_size_lt hp hu
        simp only [Ty.size]
        omega
      · have := TyUnion.member_size_lt ht
        have := f.result_size_lt
        simp only [Ty.size]
        omega
    | optional c s =>
      refine optional c s (ih _ ?_ c rfl)
      simp only [Ty.size]
      omega
    | mixed | void | bool | int | float | string | null | resource | classOf | object =>
      exact leaf _ rfl rfl (by simp)

/-! ### The test on lists of types -/

section

variable {h : Hierarchy}

attribute [local simp] matchesAny allMatch

theorem matchesAny_iff {a : Ty} {es : List Ty} :
    matchesAny h a es = true ↔ ∃ e ∈ es, a.matches h e = true := by
  induction es with
  | nil => simp
  | cons e es ih => simp [ih]

theorem allMatch_iff {ts : List Ty} {e : Ty} :
    allMatch h ts e = true ↔ ∀ t ∈ ts, t.matches h e = true := by
  induction ts with
  | nil => simp
  | cons t ts ih => simp [ih]

/-- One type finds its place among some types: as a whole, or content and sentinels
apart. -/
def Ty.Complies (h : Hierarchy) (t : Ty) (es : List Ty) : Prop :=
  t.isMixed = true ∨ matchesAny h t es = true ∨ match t with
    | .optional c s => allComply h c.alone es = true ∧ allComply h s.types es = true
    | _ => False

theorem allComply_iff {ts es : List Ty} :
    allComply h ts es = true ↔ ∀ t ∈ ts, t.Complies h es := by
  induction ts with
  | nil => simp [allComply]
  | cons t ts ih =>
    rw [List.forall_mem_cons, ← ih]
    cases t <;> simp [allComply, Ty.Complies, Ty.isMixed]

theorem TyUnion.compliesWith_iff {u e : TyUnion} :
    u.compliesWith h e = true ↔ e.isMixed = true ∨ allComply h u.members e.members = true := by
  rw [TyUnion.compliesWith, Bool.or_eq_true]

theorem TyUnion.membersMatch_iff {u e : TyUnion} :
    u.membersMatch h e = true ↔
      u.members = [] ∨ e.members = [] ∨ u.compliesWith h e = true := by
  rw [TyUnion.membersMatch, TyUnion.compliesWith]
  simp only [Bool.or_eq_true, List.isEmpty_iff, or_assoc]

/-! ### The test by cases -/

attribute [local simp] Ty.matches

@[simp]
theorem Hierarchy.flat_isSubclass (a b : String) :
    Hierarchy.flat.isSubclass a b = sameName a b := rfl

@[simp]
theorem Hierarchy.flat_isStringable (a : String) : Hierarchy.flat.isStringable a = false := rfl

@[simp]
theorem Ty.matches_mixed (a : Ty) : a.matches h .mixed = true := by
  cases a <;> simp

@[simp]
theorem Ty.void_matches (e : Ty) : Ty.void.matches h e = true := by
  cases e <;> simp

@[simp]
theorem Ty.mixed_matches (e : Ty) : Ty.mixed.matches h e = e.isMixed := by
  cases e <;> simp [Ty.isMixed]

@[simp]
theorem Ty.matches_void (a : Ty) : a.matches h .void = (a matches .void) := by
  cases a <;> simp

theorem Ty.optional_matches {c e : Ty} {s : Sentinel} (hm : e ≠ .mixed) (hv : e ≠ .void) :
    (Ty.optional c s).matches h e = true ↔
      c.matches h e = true ∧ ∀ t ∈ s.types, t.matches h e = true := by
  rw [← allMatch_iff, ← Bool.and_eq_true]
  cases e <;> simp_all

/-- What an optional type may be made of. -/
def Ty.isAtom : Ty → Bool
  | .mixed | .optional _ _ => false
  | _ => true

theorem Ty.matches_optional {a c : Ty} {s : Sentinel} (ha : a.isAtom = true) :
    a.matches h (.optional c s) = true ↔
      (Sentinel.ofTy? a).any s.contains = true ∨ a.matches h c = true := by
  rw [← Bool.or_eq_true]
  cases a <;> simp_all [Ty.isAtom]

end

end PhpCheck
