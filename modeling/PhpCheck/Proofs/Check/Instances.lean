import PhpCheck.Check.Expression
import PhpCheck.Proofs.Types.Coverage
import PhpCheck.Proofs.Types.Reachable

/-!
What the type of a value tells of its being an instance of a class.

Where the answer is that it is an instance, every alternative is an object of a class that is
declared and inherits from the one asked for.  Where the answer is that it is none, no member
of the union may be an object.  The contents of optional types are not looked at for that, so
the answer is right unless one of them is an object, and then a value that may be an object is
taken for none (`Registry.isInstance?_sound`).
-/

namespace PhpCheck

/-- The types whose values may be objects; functions are objects of the class of closures. -/
def Ty.mayBeObject : Ty → Bool
  | .object _ | .function _ | .mixed => true
  | _ => false

/-- The alternatives of a union; an optional member is its content and its sentinels. -/
def TyUnion.alternatives (u : TyUnion) : List Ty := u.members.flatMap Ty.parts

/-- An optional type whose content may be an object. -/
def Ty.HidesObject (t : Ty) : Prop :=
  ∃ content s, t = .optional content s ∧ content.mayBeObject = true

/-- An object of a class that is declared and inherits from another. -/
def Registry.Instance (r : Registry) (className : String) (t : Ty) : Prop :=
  ∃ name, t = .object name ∧ (r.declaredClass? name).isSome = true ∧
    r.isSubclass name className = true

/-! ### Alternatives -/

section

variable {t m : Ty} {u : TyUnion}

theorem TyUnion.mem_alternatives : t ∈ u.alternatives ↔ ∃ m ∈ u.members, t ∈ m.parts :=
  List.mem_flatMap

/-- A part that may be an object is the type itself or the content of an optional one. -/
theorem Ty.mayBeObject_part (ht : t ∈ m.parts) (hobject : t.mayBeObject = true) :
    t = m ∨ ∃ s, m = .optional t s := by
  cases m with
  | optional content s =>
    rcases List.mem_cons.1 ht with rfl | hs
    · exact .inr ⟨s, rfl⟩
    · rcases Sentinel.eq_of_mem hs with rfl | rfl <;> cases hobject
  | _ => exact .inl (List.mem_singleton.1 ht)

theorem Ty.mem_parts_of_mayBeObject (ht : t.mayBeObject = true) : t ∈ t.parts := by
  cases t with
  | optional content s => cases ht
  | _ => exact List.mem_singleton_self _

/-- The alternatives that may be objects are members, or the contents of optional members. -/
theorem TyUnion.exists_mayBeObject_iff :
    (∃ t ∈ u.alternatives, t.mayBeObject = true) ↔
      (∃ m ∈ u.members, m.mayBeObject = true) ∨ ∃ m ∈ u.members, m.HidesObject := by
  constructor
  · rintro ⟨t, ht, hobject⟩
    obtain ⟨m, hm, hpart⟩ := mem_alternatives.1 ht
    rcases Ty.mayBeObject_part hpart hobject with rfl | ⟨s, rfl⟩
    · exact .inl ⟨t, hm, hobject⟩
    · exact .inr ⟨_, hm, t, s, rfl, hobject⟩
  · rintro (⟨m, hm, hobject⟩ | ⟨_, hm, content, s, rfl, hobject⟩)
    · exact ⟨m, mem_alternatives.2 ⟨m, hm, Ty.mem_parts_of_mayBeObject hobject⟩, hobject⟩
    · exact ⟨content, mem_alternatives.2 ⟨_, hm, List.mem_cons_self⟩, hobject⟩

end

/-! ### The answers -/

namespace Registry

variable {r : Registry} {className : String} {u : TyUnion} {m : Ty}

theorem Instance.parts (hm : r.Instance className m) : m.parts = [m] := by
  obtain ⟨name, rfl, -⟩ := hm
  rfl

theorem isInstance?_eq : r.isInstance? u className =
    if u.isUnknown then none
    else if !u.members.any Ty.mayBeObject then some false
    else if u.members.all (fun
      | .object name => (r.declaredClass? name).isSome && r.isSubclass name className
      | _ => false) then some true
    else none := rfl

theorem isInstance?_eq_false_iff : r.isInstance? u className = some false ↔
    u.isUnknown = false ∧ ∀ m ∈ u.members, m.mayBeObject = false := by
  rw [isInstance?_eq]
  cases hunknown : u.isUnknown with
  | true => simp
  | false =>
    cases hany : u.members.any Ty.mayBeObject with
    | false => simpa using hany
    | true =>
      obtain ⟨m, hm, hobject⟩ := List.any_eq_true.1 hany
      simp only [Bool.false_eq_true, if_false, Bool.not_true, true_and]
      constructor
      · intro h
        split at h <;> cases h
      · intro h
        rw [h m hm] at hobject
        cases hobject

theorem instance_of_isInstance? (h : r.isInstance? u className = some true) :
    ∀ m ∈ u.members, r.Instance className m := by
  rw [isInstance?_eq] at h
  split at h
  · cases h
  split at h
  · cases h
  split at h
  · rename_i hall
    intro m hm
    have hsub := List.all_eq_true.1 hall m hm
    cases m with
    | object name => exact ⟨name, rfl, Bool.and_eq_true_iff.1 hsub⟩
    | _ => cases hsub
  · cases h

/-- An answer that a value is an instance is right.  The answer that it is none is right
unless the content of an optional member may be an object; it is given exactly if objects are
nowhere else among the alternatives. -/
theorem isInstance?_sound (r : Registry) (className : String) {u : TyUnion} (hu : u.Reachable) :
    (r.isInstance? u className = some true → ∀ t ∈ u.alternatives, r.Instance className t) ∧
    (r.isInstance? u className = some false →
      ((∀ t ∈ u.alternatives, t.mayBeObject = false) ↔ ∀ m ∈ u.members, ¬m.HidesObject)) ∧
    (r.isInstance? u className = some false ↔ u.isUnknown = false ∧
      ∀ t ∈ u.alternatives, t.mayBeObject = true →
        t ∉ u.members ∧ t.isMixed = false ∧ ∃ s, .optional t s ∈ u.members) := by
  refine ⟨fun h t ht => ?_, fun h => ?_, ?_⟩
  · obtain ⟨m, hm, hpart⟩ := TyUnion.mem_alternatives.1 ht
    have hinstance := instance_of_isInstance? h m hm
    rw [hinstance.parts] at hpart
    exact List.mem_singleton.1 hpart ▸ hinstance
  · obtain ⟨-, hnone⟩ := isInstance?_eq_false_iff.1 h
    have hmember : ¬∃ m ∈ u.members, m.mayBeObject = true := fun ⟨m, hm, hobject⟩ => by
      rw [hnone m hm] at hobject
      cases hobject
    have hiff := (TyUnion.exists_mayBeObject_iff (u := u)).trans (or_iff_right hmember)
    simpa using not_congr hiff
  · rw [isInstance?_eq_false_iff]
    refine and_congr_right fun _ => ⟨fun hnone t ht hobject => ?_, fun hhidden m hm => ?_⟩
    · have hmember : t ∉ u.members := fun hm => by
        rw [hnone t hm] at hobject
        cases hobject
      obtain ⟨m, hm, hpart⟩ := TyUnion.mem_alternatives.1 ht
      rcases Ty.mayBeObject_part hpart hobject with rfl | ⟨s, rfl⟩
      · exact absurd hm hmember
      · exact ⟨hmember, (Ty.wellFormed_optional.1 (hu.wellFormed.mem _ hm)).2.1, s, hm⟩
    · cases hobject : m.mayBeObject with
      | false => rfl
      | true =>
        have ht := TyUnion.mem_alternatives.2 ⟨m, hm, Ty.mem_parts_of_mayBeObject hobject⟩
        exact absurd hm (hhidden m ht hobject).1

/-- An object that may be absent is taken for none of its class. -/
theorem isInstance?_nullable :
    let r : Registry := (default : Registry).addClass { name := "A" }
    let u : TyUnion := .of ((Ty.object "A").makeOptional .null)
    u.Reachable ∧ r.isInstance? u "A" = some false ∧ r.Instance "A" (.object "A") ∧
      ¬∀ t ∈ u.alternatives, t.mayBeObject = false := by
  intro r u
  have hu : u.Reachable := .add .empty (.optional (.object "A") .null)
  have hfalse : r.isInstance? u "A" = some false := by decide +kernel
  have hhidden : (Ty.optional (.object "A") .null).HidesObject := ⟨_, _, rfl, rfl⟩
  refine ⟨hu, hfalse, ⟨"A", rfl, by decide +kernel, by decide +kernel⟩, fun hnone => ?_⟩
  have hmember : Ty.optional (.object "A") .null ∈ u.members := by
    rw [TyUnion.members_of (by nofun)]
    exact List.mem_singleton_self _
  exact ((isInstance?_sound r "A" hu).2.1 hfalse).1 hnone _ hmember hhidden

end Registry

end PhpCheck
