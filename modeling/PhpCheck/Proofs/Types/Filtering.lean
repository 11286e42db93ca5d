import PhpCheck.Proofs.Types.Described

/-!
What a test for a type keeps of a union and what it leaves.

An alternative passes as a whole, when it is accepted by the type asked for or accepts
it.  What is left of an alternative is decided for each of its parts.
-/

namespace PhpCheck

variable {h : Hierarchy} {b t r : Ty} {c : Constant}

/-! ### What passes and what is left -/

/-- What a test for the type `b` lists of an alternative where it passes. -/
def passing (h : Hierarchy) (b t : Ty) : List Ty :=
  [b].filterMap fun b =>
    if t.matches h b then some t else if b.matches h t then some b else none

theorem mem_passing {h : Hierarchy} {b t r : Ty} :
    r ∈ passing h b t ↔ (t.matches h b = true ∧ r = t) ∨
      (t.matches h b = false ∧ b.matches h t = true ∧ r = b) := by
  cases hm : t.matches h b <;> cases hb : b.matches h t <;> simp [passing, hm, hb]

theorem remainder_of_not_optional {es : List Ty} (ho : t.isOptional = false) :
    TyUnion.remainder h es t = if matchesAny h t es then [] else [t] := by
  cases t <;> first | rfl | cases ho

theorem remainder_eq (h : Hierarchy) (es : List Ty) (t : Ty) :
    TyUnion.remainder h es t = t.parts.filter fun p => !matchesAny h p es := by
  cases ho : t.isOptional with
  | false =>
    rw [remainder_of_not_optional ho, Ty.parts_eq ho, List.filter_cons]
    cases matchesAny h t es <;> rfl
  | true =>
    obtain ⟨c, s, rfl⟩ := Ty.eq_optional ho
    rw [TyUnion.remainder, Ty.parts, List.filter_cons]
    cases matchesAny h c es <;> rfl

theorem mem_remainder {h : Hierarchy} {es : List Ty} {t p : Ty} :
    p ∈ TyUnion.remainder h es t ↔ p ∈ t.parts ∧ ∀ e ∈ es, p.matches h e = false := by
  rw [remainder_eq, List.mem_filter]
  refine and_congr_right fun _ => ?_
  rw [Bool.not_eq_true', Bool.eq_false_iff, ne_eq, matchesAny_iff]
  simp

theorem Ty.Plain.part {t p : Ty} (ht : t.Plain) (hp : p ∈ t.parts) : p.Plain :=
  ⟨ht.1.part hp, Ty.functionFree_part ht.2 hp⟩

theorem Constant.exists_data_part {e : Ty} (he : e.Plain) (hm : e.isMixed = false)
    (hce : c.toTy.matches h e = true) :
    ∃ p ∈ e.parts, p.isData = true ∧ c.toTy.matches h p = true := by
  obtain ⟨p, hp, hcp⟩ := (Ty.matches_iff_parts c.isAtom_toTy).1 hce
  exact ⟨p, hp, Ty.isData_of_matches c.isData_toTy (he.1.isAtom_part hm hp)
    (Ty.ne_function (Ty.functionFree_part he.2 hp)) hcp, hcp⟩

theorem plain_of_mem_passing {b t r : Ty} (ht : t.Plain) (hb : b.Plain)
    (hr : r ∈ passing h b t) : r.Plain := by
  rcases mem_passing.1 hr with ⟨-, rfl⟩ | ⟨-, -, rfl⟩
  · exact ht
  · exact hb

theorem plain_of_mem_remainder {es : List Ty} {t r : Ty} (ht : t.Plain)
    (hr : r ∈ TyUnion.remainder h es t) : r.Plain :=
  ht.part (mem_remainder.1 hr).1

theorem TyUnion.intersection_eq {u v : TyUnion} {b : Ty} (hu : u.isMixed = false)
    (hv : v.isMixed = false) (hb : v.members = [b]) :
    u.intersection h v = TyUnion.ofList (u.members.flatMap (passing h b)) := by
  rw [TyUnion.intersection, if_neg (by simp [hu]), if_neg (by simp [hv]), hb]
  rfl

/-! ### No sort of values is repeated -/

theorem Kind.count_parts {k : Kind} {t : Ty} (ht : t.WellFormed) :
    k.count t.parts ≤ k.count [t] := by
  cases t with
  | optional d s =>
    have hnone : k.count s.types = 0 := by
      cases k <;> cases s <;> rfl
    rw [Ty.parts, Kind.count_cons, Kind.count_cons, hnone, Kind.isIn_content ht]
    exact Nat.le_refl _
  | _ => exact Nat.le_refl _

theorem Kind.count_remainder {k : Kind} {h : Hierarchy} {es : List Ty} {t : Ty}
    (ht : t.WellFormed) : k.count (TyUnion.remainder h es t) ≤ k.count [t] := by
  rw [remainder_eq]
  exact Nat.le_trans (List.filter_sublist.countP_le) (Kind.count_parts ht)

theorem Kind.isOf_of_matches {k : Kind} {h : Hierarchy} {p q : Ty} (hp : k.isOf p = true)
    (hq : q.isAtom = true) (hf : ∀ f, q ≠ .function f) (hpq : p.matches h q = true) :
    k.isOf q = true := by
  cases k <;> cases p <;> simp [Kind.isOf, Ty.isNumeric] at hp <;>
    cases q <;> simp_all [Kind.isOf, Ty.isNumeric, Ty.isAtom, Ty.matches]

theorem Kind.isIn_of_matches {k : Kind} {h : Hierarchy} {b t : Ty} (ht : t.Plain)
    (hm : t.isMixed = false) (hb : k.isIn b = true) (hbt : b.matches h t = true) :
    k.isIn t = true := by
  rw [Kind.isIn_eq] at hb
  have hcore : b.core ∈ b.parts := by cases b <;> simp [Ty.core, Ty.parts]
  have hatom : b.core.isAtom = true := by
    cases k <;> cases hc : b.core <;> simp_all [Kind.isOf, Ty.isNumeric, Ty.isAtom]
  obtain ⟨q, hq, hbq⟩ := (Ty.matches_iff_parts hatom).1 (Ty.part_matches hbt hcore)
  have hkq := Kind.isOf_of_matches hb (ht.1.isAtom_part hm hq)
    (Ty.ne_function (Ty.functionFree_part ht.2 hq)) hbq
  have hpos : 0 < k.count t.parts := by
    rw [Kind.count, List.countP_pos_iff]
    refine ⟨q, hq, ?_⟩
    rw [Kind.isIn_eq, Ty.core_eq (ht.1.isOptional_part hq)]
    exact hkq
  have hle := Kind.count_parts (k := k) ht.1
  rw [Kind.count_cons] at hle
  by_cases hk : k.isIn t = true
  · exact hk
  · rw [if_neg hk] at hle
    have hzero : k.count [] = 0 := rfl
    omega

theorem Kind.count_passing {k : Kind} {h : Hierarchy} {b t : Ty} (ht : t.Plain)
    (hm : t.isMixed = false) : k.count (passing h b t) ≤ k.count [t] := by
  have hlist : passing h b t =
      (if t.matches h b then some t else if b.matches h t then some b else none).toList := by
    rw [passing, List.filterMap_cons]
    split <;> simp_all
  rw [hlist]
  refine Kind.count_toList fun r hr hk => ?_
  split at hr
  · exact Option.some.inj hr ▸ hk
  · split at hr
    · rename_i hbt
      exact Kind.isIn_of_matches ht hm (Option.some.inj hr ▸ hk) hbt
    · cases hr

end PhpCheck
