import PhpCheck.Proofs.Types.Parts

/-!
Alternatives that adding a type cannot lose.

The subtype test is not transitive: any array may be used as an array with members
of no known type, and any function as an instance of `Closure`.  Adding a type
merges again and again, so that an alternative may end up in a type that does not
accept it.  Scalars are safe as long as no function takes a text or an instance of
`Closure` along (`Ty.Steady`): among them the test is transitive.
-/

namespace PhpCheck

/-! ### Scalars -/

/-- Types without types inside them. -/
def Ty.isScalar : Ty → Bool
  | .bool _ | .int _ | .float _ | .string _ | .null | .resource | .classOf _ | .object _ => true
  | _ => false

/-- Scalars that no function accepts. -/
def Ty.isFixed : Ty → Bool
  | .bool _ | .int _ | .float _ | .null | .resource | .classOf _ => true
  | .object name => !sameName name "Closure"
  | _ => false

theorem refines_trans {α : Type} [BEq α] [LawfulBEq α] {x y z : Option α}
    (hxy : refines x y = true) (hyz : refines y z = true) : refines x z = true := by
  simp only [refines, Bool.or_eq_true, Option.isNone_iff_eq_none, beq_iff_eq] at hxy hyz ⊢
  rcases hyz with hz | rfl
  · exact .inl hz
  · exact hxy

theorem refinesFloat_trans {x y z : Option Double} (hxy : refinesFloat x y = true)
    (hyz : refinesFloat y z = true) : refinesFloat x z = true := by
  simp only [refinesFloat, Bool.or_eq_true, Option.isNone_iff_eq_none] at hxy hyz ⊢
  rcases hyz with hz | hyz
  · exact .inl hz
  · rcases hxy with hy | hxy
    · subst hy
      exact .inl (by cases z <;> simp_all [sameFloat])
    · exact .inr (sameFloat_trans hxy hyz)

/-- A whole number is a number, and a number that takes it has no refinement. -/
theorem isNone_of_refinesFloat {y z : Option Double} (hy : y.isNone = true)
    (hyz : refinesFloat y z = true) : z.isNone = true := by
  cases y <;> cases z <;> simp_all [refinesFloat, sameFloat]

theorem isNone_of_refines {α : Type} [BEq α] [LawfulBEq α] {y z : Option α}
    (hy : y.isNone = true) (hyz : refines y z = true) : z.isNone = true := by
  cases y <;> cases z <;> simp_all [refines]

theorem sameName_trans {a b c : String} (hab : sameName a b = true) (hbc : sameName b c = true) :
    sameName a c = true := by
  simp only [sameName, beq_iff_eq] at hab hbc ⊢
  exact hab.trans hbc

theorem Ty.int_matches_float {h : Hierarchy} (x : Option Int64) (y : Option Double) :
    (Ty.int x).matches h (.float y) = y.isNone := by
  cases y <;> simp [Ty.matches]

theorem Ty.object_matches_string {h : Hierarchy} (name : String) (y : Option String) :
    (Ty.object name).matches h (.string y) = (y.isNone && h.isStringable name) := by
  cases y <;> simp [Ty.matches]

/-- What the subtype test relies on: heirs of heirs are heirs, and they convert to text
where the class does. -/
structure Hierarchy.Coherent (h : Hierarchy) : Prop where
  trans {a b c : String} (hab : h.isSubclass a b = true) (hbc : h.isSubclass b c = true) :
    h.isSubclass a c = true
  stringable {a b : String} (hab : h.isSubclass a b = true) (hb : h.isStringable b = true) :
    h.isStringable a = true

theorem Hierarchy.flat_coherent : Hierarchy.flat.Coherent :=
  ⟨sameName_trans, fun _ hb => hb⟩

/-- Among scalars the subtype test is transitive. -/
theorem Ty.scalar_trans {h : Hierarchy} (hh : h.Coherent) {p q e : Ty} (hp : p.isScalar = true)
    (hq : q.isScalar = true) (he : e.isScalar = true) (hpq : p.matches h q = true)
    (hqe : q.matches h e = true) : p.matches h e = true := by
  cases p <;> cases q <;> simp only [Ty.isScalar, Ty.matches, Ty.int_matches_float,
    Ty.object_matches_string, Bool.false_eq_true] at hp hq hpq
  all_goals
    cases e <;> simp only [Ty.isScalar, Ty.matches, Ty.int_matches_float,
      Ty.object_matches_string, Bool.and_eq_true, Bool.false_eq_true] at he hqe hpq ⊢
  all_goals first
    | exact refines_trans hpq hqe
    | exact refinesFloat_trans hpq hqe
    | exact hh.trans hpq hqe
    | exact isNone_of_refinesFloat hpq hqe
    | exact ⟨isNone_of_refines hpq.1 hqe, hpq.2⟩
    | exact ⟨hqe.1, hh.stringable hpq hqe.2⟩
    | exact hqe

/-- What a scalar may be used as, functions and optional types apart. -/
theorem Ty.isScalar_of_matches {h : Hierarchy} {p q : Ty} (hp : p.isScalar = true)
    (hq : q.isAtom = true) (hf : ∀ f, q ≠ .function f) (hpq : p.matches h q = true) :
    q.isScalar = true := by
  cases q with
  | mixed | optional => simp [Ty.isAtom] at hq
  | function f => exact absurd rfl (hf f)
  | void | map | list => cases p <;> simp_all [Ty.isScalar, Ty.matches]
  | _ => rfl

theorem Ty.isFixed_of_matches {p q : Ty} (hp : p.isFixed = true) (hq : q.isAtom = true)
    (hpq : p.matches .flat q = true) : q.isFixed = true := by
  cases p <;> simp only [Ty.isFixed, Bool.false_eq_true] at hp <;>
    cases q <;> simp_all [Ty.isFixed, Ty.isAtom, Ty.matches, Ty.object_matches_string]
  rw [Bool.eq_false_iff]
  intro hc
  rw [sameName_trans hpq hc] at hp
  cases hp

theorem Ty.isScalar_of_isFixed {p : Ty} (hp : p.isFixed = true) : p.isScalar = true := by
  cases p <;> simp_all [Ty.isFixed, Ty.isScalar]

theorem Ty.isAtom_of_isScalar {p : Ty} (hp : p.isScalar = true) : p.isAtom = true := by
  cases p <;> simp_all [Ty.isScalar, Ty.isAtom]

theorem Ty.isArray_of_isScalar {p : Ty} (hp : p.isScalar = true) : p.isArray = false := by
  cases p <;> simp_all [Ty.isScalar, Ty.isArray]

/-! ### Types without functions -/

mutual

/-- No function type, not even as a member type of an array. -/
def Ty.functionFree (t : Ty) : Bool :=
  match t with
  | .function _ => false
  | .map member => member.functionFree
  | .list member => member.functionFree
  | .optional content _ => content.functionFree
  | _ => true
termination_by structural t

def TyUnion.functionFree (u : TyUnion) : Bool :=
  match u with
  | ⟨members⟩ => allFunctionFree members
termination_by structural u

def allFunctionFree (ts : List Ty) : Bool :=
  match ts with
  | [] => true
  | t :: ts => t.functionFree && allFunctionFree ts
termination_by structural ts

end

theorem TyUnion.functionFree_iff {u : TyUnion} :
    u.functionFree = true ↔ ∀ t ∈ u.members, t.functionFree = true := by
  obtain ⟨ts⟩ := u
  rw [TyUnion.functionFree]
  show allFunctionFree ts = true ↔ ∀ t ∈ ts, t.functionFree = true
  induction ts with
  | nil => simp [allFunctionFree]
  | cons t ts ih => simp [allFunctionFree, ih]

theorem Ty.functionFree_part {t p : Ty} (ht : t.functionFree = true) (hp : p ∈ t.parts) :
    p.functionFree = true := by
  cases t with
  | optional c s =>
    rcases List.mem_cons.1 hp with rfl | hp
    · simpa [Ty.functionFree] using ht
    · rcases Sentinel.eq_of_mem hp with rfl | rfl <;> rfl
  | _ => exact List.mem_singleton.1 hp ▸ ht

theorem Ty.ne_function {t : Ty} (ht : t.functionFree = true) (f : Signature) : t ≠ .function f := by
  rintro rfl
  simp [Ty.functionFree] at ht

/-! ### Steady alternatives -/

/-- What may be used as an alternative of a type may be used as all that this may be
used as, among types with property `K`. -/
structure Ty.Steady (K : Ty → Prop) (p : Ty) : Prop where
  isScalar : p.isScalar = true
  step {q : Ty} (hq : q.isAtom = true) (hk : K q) (hpq : p.matches .flat q = true) :
    q.isArray = false ∧ ∀ e, K e → q.matches .flat e = true → p.matches .flat e = true

theorem Ty.Steady.mono {K L : Ty → Prop} {p : Ty} (hp : p.Steady K) (hL : ∀ t, L t → K t) :
    p.Steady L :=
  ⟨hp.isScalar, fun hq hk hpq =>
    ⟨(hp.step hq (hL _ hk) hpq).1, fun e he => (hp.step hq (hL _ hk) hpq).2 e (hL e he)⟩⟩

/-- Whatever leads from `p` to a scalar carries on to all that the scalar may be used
as. -/
theorem Ty.scalar_matches_trans {p q e : Ty} (hp : p.isScalar = true) (hq : q.isScalar = true)
    (hf : ∀ d ∈ e.parts, ∀ f, q.matches .flat d = true → d ≠ .function f)
    (he : ∀ d ∈ e.parts, d.isOptional = false)
    (hpq : p.matches .flat q = true) (hqe : q.matches .flat e = true) :
    p.matches .flat e = true := by
  obtain ⟨d, hd, hqd⟩ := (Ty.matches_iff_parts (isAtom_of_isScalar hq)).1 hqe
  refine (Ty.matches_iff_parts (isAtom_of_isScalar hp)).2 ⟨d, hd, ?_⟩
  by_cases hm : d.isMixed = true
  · cases d <;> simp [Ty.isMixed] at hm
    exact Ty.matches_mixed p
  · have ha : d.isAtom = true := Ty.isAtom_iff.2 ⟨by simpa using hm, he d hd⟩
    have hs := isScalar_of_matches hq ha (fun f => hf d hd f hqd) hqd
    exact scalar_trans Hierarchy.flat_coherent hp hq hs hpq hqd

/-- The alternatives of types without functions. -/
def Ty.Plain (t : Ty) : Prop := t.WellFormed ∧ t.functionFree = true

theorem Ty.steady_of_isScalar {p : Ty} (hp : p.isScalar = true) : p.Steady Ty.Plain := by
  refine ⟨hp, fun {q} hq hk hpq => ?_⟩
  have hqs := isScalar_of_matches hp hq (ne_function hk.2) hpq
  refine ⟨isArray_of_isScalar hqs, fun e he hqe => ?_⟩
  exact scalar_matches_trans hp hqs (fun d hd f _ => ne_function (functionFree_part he.2 hd) f)
    (fun d hd => he.1.isOptional_part hd) hpq hqe

theorem Ty.steady_of_isFixed {p : Ty} (hp : p.isFixed = true) : p.Steady Ty.WellFormed := by
  refine ⟨isScalar_of_isFixed hp, fun {q} hq hk hpq => ?_⟩
  have hqf := isFixed_of_matches hp hq hpq
  have hqs := isScalar_of_isFixed hqf
  refine ⟨isArray_of_isScalar hqs, fun e he hqe => ?_⟩
  refine scalar_matches_trans (isScalar_of_isFixed hp) hqs (fun d hd f hqd => ?_)
    (fun d hd => he.isOptional_part hd) hpq hqe
  rintro rfl
  have := isFixed_of_matches hqf rfl hqd
  simp [Ty.isFixed] at this

/-! ### Adding a type -/

section

variable {j : TyUnion → TyUnion → TyUnion} {K : Ty → Prop}

/-- A property that well-formed types may have and that passes to parts. -/
structure Hereditary (K : Ty → Prop) : Prop where
  wellFormed {t : Ty} (ht : K t) : t.WellFormed
  part {t p : Ty} (ht : K t) (hp : p ∈ t.parts) : K p
  mixed : K .mixed

theorem Ty.Steady.combines {a b r p : Ty} (hp : p.Steady K) (hK : Hereditary K)
    (hj : MergeClosed j K) (hr : Ty.Combines j a b r) (ha : K a) (hb : K b)
    (hpab : p.matches .flat a = true ∨ p.matches .flat b = true) : p.matches .flat r = true := by
  have hatom := Ty.isAtom_of_isScalar hp.isScalar
  have hkr := hr.keeps hj ha hb
  obtain ⟨q, hq, hkq, hpq⟩ : ∃ q, (q ∈ a.parts ∨ q ∈ b.parts) ∧ K q ∧ p.matches .flat q = true := by
    rcases hpab with hpa | hpb
    · obtain ⟨q, hq, hpq⟩ := (Ty.matches_iff_parts hatom).1 hpa
      exact ⟨q, .inl hq, hK.part ha hq, hpq⟩
    · obtain ⟨q, hq, hpq⟩ := (Ty.matches_iff_parts hatom).1 hpb
      exact ⟨q, .inr hq, hK.part hb hq, hpq⟩
  have hqo : q.isOptional = false := by
    rcases hq with hq | hq
    · exact (hK.wellFormed ha).isOptional_part hq
    · exact (hK.wellFormed hb).isOptional_part hq
  have hcovers : q.isArray = false → q.matches .flat r = true := fun harr =>
    hr.covers (fun t => hK.wellFormed) (fun c s => hj.content) (by simp [harr]) ha hb hq
  by_cases hm : q.isMixed = true
  · cases q <;> simp [Ty.isMixed] at hm
    have hrm := hcovers rfl
    rw [Ty.mixed_matches] at hrm
    cases r <;> simp [Ty.isMixed] at hrm
    exact Ty.matches_mixed p
  · obtain ⟨harr, htrans⟩ := hp.step (Ty.isAtom_iff.2 ⟨by simpa using hm, hqo⟩) hkq hpq
    exact htrans r hkr (hcovers harr)

/-- What accepts a steady alternative is still there when a type is added. -/
theorem Ty.Steady.addWith {ms : List Ty} {t p : Ty} (hp : p.Steady K) (hK : Hereditary K)
    (hj : MergeClosed j K) (hl : ms.length ≤ maxMembers) (hms : ∀ m ∈ ms, K m) (ht : K t)
    (hc : p.matches .flat t = true ∨ ∃ m ∈ ms, p.matches .flat m = true) :
    ∃ e ∈ PhpCheck.addWith (Ty.combineWith j) ms t, p.matches .flat e = true := by
  have hone : ∃ e ∈ [Ty.mixed], p.matches .flat e = true := ⟨.mixed, by simp⟩
  refine (addWith_induct (motive := fun ms t res => (∀ m ∈ ms, K m) → K t →
    (p.matches .flat t = true ∨ ∃ m ∈ ms, p.matches .flat m = true) →
    ∃ e ∈ res, p.matches .flat e = true) ?_ ?_ ?_ ?_ ?_ ?_ ms t hl).1 hms ht hc
  · intro ms _ _ hc
    refine hc.resolve_left fun hv => ?_
    have hs := hp.isScalar
    cases p <;> simp_all [Ty.isScalar]
  · exact fun ms _ _ _ => hone
  · exact fun t _ _ _ => hone
  · intro pre m post t r _ _ _ hr ih hms ht hc
    have hr := Ty.combines_of_combineWith hr
    have hm := hms m (by simp)
    refine ih (fun x hx => hms x (mem_of_mem_rest m hx)) (hr.keeps hj hm ht) ?_
    rcases hc with hpt | ⟨m', hm', hpm'⟩
    · exact .inl (hp.combines hK hj hr hm ht (.inr hpt))
    · rcases eq_or_mem_rest hm' with rfl | hin
      · exact .inl (hp.combines hK hj hr hm ht (.inl hpm'))
      · exact .inr ⟨m', hin, hpm'⟩
  · intro ms t _ _ _ _ _ _ _ hc
    rcases hc with hpt | ⟨m, hm, hpm⟩
    · exact ⟨t, List.mem_append_right ms (List.mem_singleton_self t), hpt⟩
    · exact ⟨m, List.mem_append_left [t] hm, hpm⟩
  · exact fun ms t _ _ _ _ _ _ _ _ => hone

end

end PhpCheck
