import PhpCheck.Proofs.Types.Coverage

/-!
The values that a union describes.

A union describes a value when one of its members accepts it.  Types without
functions that are added up describe together what each of them describes
(`TyUnion.describes_ofList`).  They describe no more, as long as only one of them
has numbers and only one has texts (`TyUnion.exists_of_describes_ofList`): two
refinements are given up for the type that has both, which also has all others.
Truth values are no danger, there are only two.
-/

namespace PhpCheck

/-- One of the members accepts the value. -/
def TyUnion.Describes (h : Hierarchy) (u : TyUnion) (c : Constant) : Prop :=
  ∃ m ∈ u.members, c.toTy.matches h m = true

/-! ### Types of values -/

/-- Scalars that are not about classes. -/
def Ty.isData : Ty → Bool
  | .bool _ | .int _ | .float _ | .string _ | .null => true
  | _ => false

theorem Constant.isData_toTy (c : Constant) : c.toTy.isData = true := by
  cases c <;> rfl

theorem Ty.isScalar_of_isData {p : Ty} (hp : p.isData = true) : p.isScalar = true := by
  cases p <;> simp_all [Ty.isData, Ty.isScalar]

theorem Constant.isAtom_toTy (c : Constant) : c.toTy.isAtom = true := by
  cases c <;> rfl

/-- Classes do not matter for values. -/
theorem Ty.data_matches_eq {p : Ty} (hp : p.isData = true) (h : Hierarchy) (e : Ty) :
    p.matches h e = p.matches .flat e := by
  have ha : p.isAtom = true := isAtom_of_isScalar (isScalar_of_isData hp)
  induction e using Ty.induct with
  | leaf e hm ho hf =>
    cases p <;> simp only [Ty.isData, Bool.false_eq_true] at hp <;>
      cases e <;> simp_all [Ty.matches, Ty.int_matches_float, Ty.isOptional]
  | map u _ | list u _ | function f _ _ =>
    cases p <;> simp_all [Ty.matches, Ty.isData]
  | optional c s ih =>
    rw [Bool.eq_iff_iff, Ty.matches_optional ha, Ty.matches_optional ha, ih]

theorem Constant.matches_eq (c : Constant) (h : Hierarchy) (e : Ty) :
    c.toTy.matches h e = c.toTy.matches .flat e :=
  Ty.data_matches_eq c.isData_toTy h e

theorem Ty.isData_of_matches {h : Hierarchy} {p q : Ty} (hp : p.isData = true)
    (hq : q.isAtom = true) (hf : ∀ f, q ≠ .function f) (hpq : p.matches h q = true) :
    q.isData = true := by
  cases p <;> simp only [Ty.isData, Bool.false_eq_true] at hp <;>
    cases q <;> simp_all [Ty.isData, Ty.isAtom, Ty.matches]

/-- What a value of a type may be used as, its type leads to. -/
theorem Ty.data_trans {h : Hierarchy} {p q e : Ty} (hp : p.isData = true) (hq : q.isData = true)
    (he : e.Plain) (hpq : p.matches h q = true) (hqe : q.matches h e = true) :
    p.matches h e = true := by
  rw [data_matches_eq hp] at hpq ⊢
  rw [data_matches_eq hq] at hqe
  exact scalar_matches_trans (isScalar_of_isData hp) (isScalar_of_isData hq)
    (fun d hd f _ => ne_function (functionFree_part he.2 hd) f)
    (fun d hd => he.1.isOptional_part hd) hpq hqe

/-! ### All that is listed is described -/

theorem TyUnion.plain_empty : TyUnion.empty.Plain := ⟨wellFormed_empty, rfl⟩

theorem TyUnion.members_ofList (ts : List Ty) : (ofList ts).members = ts.foldl addMember [] :=
  members_foldl_add empty ts

theorem TyUnion.describes_ofList {h : Hierarchy} {ts : List Ty} {c : Constant}
    (hts : ∀ t ∈ ts, t.Plain) (hc : ∃ t ∈ ts, c.toTy.matches h t = true) :
    (ofList ts).Describes h c := by
  obtain ⟨t, ht, hct⟩ := hc
  have hsc := Ty.isScalar_of_isData c.isData_toTy
  rw [c.matches_eq] at hct
  have hacc : ∃ e ∈ ts.foldl addMember [], c.toTy.matches .flat e = true := by
    refine accepted_foldl (I := fun ms => TyUnion.Plain ⟨ms⟩) (K := Ty.Plain)
      (fun ms t hms ht => ?_) plain_empty hts ⟨t, by simpa using ht, hct⟩
    obtain ⟨hg, hp⟩ := grows_addMember ms t hms ht
    exact ⟨hp, hg.scalar hsc⟩
  obtain ⟨e, he, hce⟩ := hacc
  refine ⟨e, ?_, by rw [c.matches_eq, hce]⟩
  rwa [members_ofList]

/-! ### No more than is listed is described -/

/-- The sorts of values of which there are many. -/
inductive Kind where
  | number | text

/-- Whether a type is about values of a sort. -/
def Kind.isOf : Kind → Ty → Bool
  | .number, t => t.isNumeric
  | .text, .string _ => true
  | .text, _ => false

/-- Whether a type, or the content of an optional type, is about values of a sort. -/
def Kind.isIn (k : Kind) : Ty → Bool
  | .optional c _ => k.isOf c
  | t => k.isOf t

theorem Kind.isIn_makeOptional (k : Kind) (c : Ty) (s : Sentinel) :
    k.isIn (c.makeOptional s) = k.isIn c := by
  cases c <;> rfl

theorem Kind.isIn_content {k : Kind} {c : Ty} {s : Sentinel} (hc : (Ty.optional c s).WellFormed) :
    k.isIn c = k.isIn (.optional c s) := by
  have ho := (Ty.wellFormed_optional.1 hc).2.2
  cases c <;> simp_all [Kind.isIn, Ty.isOptional]

theorem Ty.WellFormed.content {c : Ty} {s : Sentinel} (hc : (Ty.optional c s).WellFormed) :
    c.WellFormed :=
  (Ty.wellFormed_optional.1 hc).1

/-- Merging brings about numbers from numbers only, and texts from texts. -/
theorem Ty.Combines.isIn {j : TyUnion → TyUnion → TyUnion} {k : Kind} {a b r : Ty}
    (hr : Ty.Combines j a b r) (ha : a.WellFormed) (hb : b.WellFormed) (hk : k.isIn r = true) :
    k.isIn a = true ∨ k.isIn b = true := by
  induction hr with
  | left hm => exact .inl hk
  | right hm => exact .inr hk
  | bool hx hy | list x y | function f g | map hx hy =>
    cases k <;> simp [Kind.isIn, Kind.isOf, Ty.isNumeric, Ty.callable] at hk
  | int x y | string x y =>
    cases k <;> simp_all [Kind.isIn, Kind.isOf, Ty.isNumeric]
  | float hx hy =>
    rename_i a b
    cases k with
    | number => cases a <;> simp_all [Kind.isIn, Kind.isOf, Ty.isNumeric]
    | text => simp [Kind.isIn, Kind.isOf] at hk
  | optionals s t hc ih =>
    rw [Kind.isIn_makeOptional] at hk
    rw [← Kind.isIn_content ha, ← Kind.isIn_content hb]
    exact ih ha.content hb.content hk
  | sentinelLeft c s ht =>
    rw [Kind.isIn_makeOptional, Kind.isIn_content ha] at hk
    exact .inl hk
  | sentinelRight c s ht =>
    rw [Kind.isIn_makeOptional, Kind.isIn_content hb] at hk
    exact .inr hk
  | contentLeft s ho ht hc ih =>
    rw [Kind.isIn_makeOptional] at hk
    rw [← Kind.isIn_content ha]
    exact ih ha.content hb hk
  | contentRight s ho ht hc ih =>
    rw [Kind.isIn_makeOptional] at hk
    rw [← Kind.isIn_content hb]
    exact (ih hb.content ha hk).symm
  | promoteLeft hp hs =>
    rw [Kind.isIn_makeOptional] at hk
    exact .inl hk
  | promoteRight hp hs =>
    rw [Kind.isIn_makeOptional] at hk
    exact .inr hk

/-- Not both types are about the same sort of values. -/
def Ty.Unrivalled (a b : Ty) : Prop := ∀ k : Kind, ¬ (k.isIn a = true ∧ k.isIn b = true)

theorem Ty.matches_of_makeOptional {h : Hierarchy} {p c : Ty} {s : Sentinel}
    (hp : p.isAtom = true) (hpc : p.matches h (c.makeOptional s) = true) :
    p.matches h c = true ∨ p ∈ s.types := by
  cases c with
  | optional d o =>
    rw [Ty.makeOptional, Ty.matches_optional hp, Sentinel.any_contains_iff] at hpc
    rw [Ty.matches_optional hp, Sentinel.any_contains_iff]
    rcases hpc with hs | hd
    · rcases Sentinel.mem_types_union hs with hs | hs
      · exact .inl (.inl hs)
      · exact .inr hs
    · exact .inl (.inr hd)
  | mixed => exact .inl (Ty.matches_mixed p)
  | _ => exact ((Ty.matches_optional hp).1 hpc).symm.imp_right Sentinel.any_contains_iff.1

theorem Sentinel.eq_of_mem_types {t x : Ty} {o : Sentinel} (ht : Sentinel.ofTy? t = some o)
    (hx : x ∈ o.types) : x = t := by
  rcases Sentinel.ofTy?_eq_some ht with ⟨rfl, rfl⟩ | ⟨rfl, rfl⟩ <;>
    simpa [Sentinel.types] using hx

/-- A merged type accepts only values that one of the types accepts, unless there are
many of their sort. -/
theorem Ty.Combines.matches_of_matches {j : TyUnion → TyUnion → TyUnion} {a b r : Ty}
    {c : Constant} (hr : Ty.Combines j a b r) (ha : a.Plain) (hb : b.Plain)
    (hab : a.Unrivalled b) (hcr : c.toTy.matches .flat r = true) :
    c.toTy.matches .flat a = true ∨ c.toTy.matches .flat b = true := by
  have hopt : ∀ {d : Ty} {s : Sentinel}, c.toTy.matches .flat d = true ∨ c.toTy ∈ s.types →
      c.toTy.matches .flat (.optional d s) = true := by
    intro d s hds
    rw [Ty.matches_optional c.isAtom_toTy, Sentinel.any_contains_iff]
    exact hds.symm
  have hcontent : ∀ {d : Ty} {s : Sentinel} {t : Ty}, (Ty.optional d s).Plain →
      (Ty.optional d s).Unrivalled t → d.Unrivalled t := by
    intro d s t hd hdt k hk
    rw [Kind.isIn_content hd.1] at hk
    exact hdt k hk
  have hsent : ∀ {t : Ty} {o : Sentinel}, Sentinel.ofTy? t = some o → c.toTy ∈ o.types →
      c.toTy.matches .flat t = true := by
    intro t o ht hc
    rw [← Sentinel.eq_of_mem_types ht hc]
    exact Ty.matches_atom_self hc
  induction hr with
  | left hm => exact .inl hcr
  | right hm => exact .inr hcr
  | bool hx hy =>
    -- Neither is refined to what the other is, so they are `true` and `false`.
    rename_i x y
    cases c <;> simp [Constant.toTy, Ty.matches] at hcr ⊢
    rename_i v
    cases x <;> cases y <;> simp_all [refines]
    rename_i x y
    cases v <;> cases x <;> cases y <;> simp_all
  | int x y => exact absurd ⟨rfl, rfl⟩ (hab .number)
  | float hx hy =>
    rename_i a b
    refine absurd ⟨?_, ?_⟩ (hab .number)
    · cases a <;> simp_all [Kind.isIn, Kind.isOf, Ty.isNumeric]
    · cases b <;> simp_all [Kind.isIn, Kind.isOf, Ty.isNumeric]
  | string x y => exact absurd ⟨rfl, rfl⟩ (hab .text)
  | list x y => cases c <;> simp [Constant.toTy, Ty.matches] at hcr
  | map hx hy => cases c <;> simp [Constant.toTy, Ty.matches] at hcr
  | function f g => exact absurd rfl (Ty.ne_function ha.2 f)
  | optionals s t hc ih =>
    have hxy := hcontent ha fun k hk => hcontent hb (fun k hk => hab k hk.symm) k hk.symm
    rcases Ty.matches_of_makeOptional c.isAtom_toTy hcr with hcr | hs
    · exact (ih ha.content hb.content hxy hcr).imp (fun h => hopt (.inl h)) fun h => hopt (.inl h)
    · exact (Sentinel.mem_types_union hs).imp (fun h => hopt (.inr h)) fun h => hopt (.inr h)
  | sentinelLeft d s ht =>
    rcases Ty.matches_of_makeOptional c.isAtom_toTy hcr with hcd | hs
    · exact .inl (hopt (.inl hcd))
    · exact (Sentinel.mem_types_union hs).imp (fun h => hopt (.inr h)) (hsent ht)
  | sentinelRight d s ht =>
    rcases Ty.matches_of_makeOptional c.isAtom_toTy hcr with hcd | hs
    · exact .inr (hopt (.inl hcd))
    · exact ((Sentinel.mem_types_union hs).imp (fun h => hopt (.inr h)) (hsent ht)).symm
  | contentLeft s ho ht hc ih =>
    rcases Ty.matches_of_makeOptional c.isAtom_toTy hcr with hcr | hs
    · exact (ih ha.content hb (hcontent ha hab) hcr).imp_left fun h => hopt (.inl h)
    · exact .inl (hopt (.inr hs))
  | contentRight s ho ht hc ih =>
    rcases Ty.matches_of_makeOptional c.isAtom_toTy hcr with hcr | hs
    · have hcb := ih hb.content ha (hcontent hb fun k hk => hab k hk.symm) hcr
      exact hcb.symm.imp_right fun h => hopt (.inl h)
    · exact .inr (hopt (.inr hs))
  | promoteLeft hp hs =>
    exact (Ty.matches_of_makeOptional c.isAtom_toTy hcr).imp_right (hsent hs)
  | promoteRight hp hs =>
    exact ((Ty.matches_of_makeOptional c.isAtom_toTy hcr).imp_right (hsent hs)).symm

/-! ### Counting -/

/-- How many of some types are about values of a sort. -/
def Kind.count (k : Kind) (ts : List Ty) : Nat := ts.countP k.isIn

theorem Kind.count_append (k : Kind) (ts us : List Ty) :
    k.count (ts ++ us) = k.count ts + k.count us :=
  List.countP_append

theorem Kind.count_cons (k : Kind) (t : Ty) (ts : List Ty) :
    k.count (t :: ts) = k.count ts + if k.isIn t = true then 1 else 0 :=
  List.countP_cons

theorem Kind.count_toList {k : Kind} {t : Ty} {o : Option Ty}
    (ho : ∀ r, o = some r → k.isIn r = true → k.isIn t = true) :
    k.count o.toList ≤ k.count [t] := by
  cases o with
  | none => exact Nat.zero_le _
  | some r =>
    rw [Option.toList_some, Kind.count_cons, Kind.count_cons]
    have hle := ho r rfl
    split
    · rename_i hk
      have ht : (if k.isIn t = true then 1 else 0) = 1 := if_pos (hle hk)
      omega
    · exact Nat.le_add_right _ _

theorem Kind.count_mixed (k : Kind) : k.count [.mixed] = 0 := by
  cases k <;> rfl

/-- A union has one type at most that is about values of a sort. -/
def Sparse (ts : List Ty) : Prop := ∀ k : Kind, k.count ts ≤ 1

theorem unrivalled_of_sparse {pre post : List Ty} {m t : Ty}
    (hs : Sparse (t :: (pre ++ m :: post))) : m.Unrivalled t := by
  rintro k ⟨hm, ht⟩
  have hk := hs k
  rw [Kind.count_cons, Kind.count_append, Kind.count_cons, if_pos hm, if_pos ht] at hk
  omega

section

variable {j : TyUnion → TyUnion → TyUnion} {d : Nat}
  (hj : ∀ e x y, x.PlainWithin e → y.PlainWithin e → (j x y).PlainWithin e)

include hj

/-- Adding a type to a union whose types are about different sorts of values neither
describes new values nor repeats a sort. -/
theorem exact_addWith {ms : List Ty} {t : Ty} {c : Constant}
    (hl : ms.length ≤ maxMembers) (hms : ∀ m ∈ ms, m.PlainWithin d) (ht : t.PlainWithin d)
    (hs : Sparse (t :: ms)) :
    (∀ k : Kind, k.count (addWith (Ty.combineWith j) ms t) ≤ k.count (t :: ms)) ∧
      ((∃ e ∈ addWith (Ty.combineWith j) ms t, c.toTy.matches .flat e = true) →
        addWith (Ty.combineWith j) ms t = [.mixed] ∨
          ∃ m ∈ t :: ms, c.toTy.matches .flat m = true) := by
  have hone : ∀ (ms : List Ty) (t : Ty) (k : Kind), k.count [.mixed] ≤ k.count (t :: ms) := by
    intro ms t k
    rw [Kind.count_mixed]
    exact Nat.zero_le _
  refine (addWith_induct (motive := fun ms t res => (∀ m ∈ ms, m.PlainWithin d) →
    t.PlainWithin d → Sparse (t :: ms) → (∀ k : Kind, k.count res ≤ k.count (t :: ms)) ∧
      ((∃ e ∈ res, c.toTy.matches .flat e = true) →
        res = [.mixed] ∨ ∃ m ∈ t :: ms, c.toTy.matches .flat m = true))
    ?_ ?_ ?_ ?_ ?_ ?_ ms t hl).1 hms ht hs
  · intro ms _ _ _
    refine ⟨fun k => ?_, fun ⟨e, he, hce⟩ => .inr ⟨e, List.mem_cons_of_mem _ he, hce⟩⟩
    rw [Kind.count_cons]
    omega
  · exact fun ms _ _ _ => ⟨hone ms .mixed, fun _ => .inl rfl⟩
  · exact fun t _ _ _ => ⟨hone _ t, fun _ => .inl rfl⟩
  · intro pre m post t r _ _ _ hr ih hms ht hs
    have hr := Ty.combines_of_combineWith hr
    have hm := hms m (by simp)
    have hcount : ∀ k : Kind, k.count (r :: (pre ++ post)) ≤ k.count (t :: (pre ++ m :: post)) := by
      intro k
      simp only [Kind.count_cons, Kind.count_append]
      by_cases hk : k.isIn r = true
      · rcases hr.isIn hm.1.1 ht.1.1 hk with h | h
        · rw [if_pos hk, if_pos h]
          omega
        · rw [if_pos hk, if_pos h]
          omega
      · rw [if_neg hk]
        omega
    obtain ⟨ihc, ihd⟩ := ih (fun x hx => hms x (mem_of_mem_rest m hx))
      (hr.keeps (mergeClosed_plainWithin hj) hm ht) fun k => Nat.le_trans (hcount k) (hs k)
    refine ⟨fun k => Nat.le_trans (ihc k) (hcount k), fun hc => (ihd hc).imp_right ?_⟩
    rintro ⟨x, hx, hcx⟩
    rcases List.mem_cons.1 hx with rfl | hx
    · rcases hr.matches_of_matches hm.1 ht.1 (unrivalled_of_sparse hs) hcx with h | h
      · exact ⟨m, by simp, h⟩
      · exact ⟨t, by simp, h⟩
    · exact ⟨x, List.mem_cons_of_mem t (mem_of_mem_rest m hx), hcx⟩
  · intro ms t _ _ _ _ _ _ _ _
    refine ⟨fun k => ?_, fun ⟨e, he, hce⟩ => .inr ⟨e, ?_, hce⟩⟩
    · rw [Kind.count_append, Kind.count_cons, Kind.count_cons]
      simp [Kind.count]
    · rcases List.mem_append.1 he with he | he
      · exact List.mem_cons_of_mem t he
      · rw [List.mem_singleton.1 he]
        exact List.mem_cons_self
  · exact fun ms t _ _ _ _ _ _ _ _ => ⟨hone ms t, fun _ => .inl rfl⟩

end

theorem exact_addMember {ms : List Ty} {t : Ty} {c : Constant} (hms : TyUnion.Plain ⟨ms⟩)
    (ht : t.Plain) (hs : Sparse (t :: ms)) :
    (∀ k : Kind, k.count (addMember ms t) ≤ k.count (t :: ms)) ∧
      ((∃ e ∈ addMember ms t, c.toTy.matches .flat e = true) →
        addMember ms t = [.mixed] ∨ ∃ m ∈ t :: ms, c.toTy.matches .flat m = true) := by
  have hd : TyUnion.PlainWithin (max (TyUnion.arrayDepth ⟨ms⟩) t.arrayDepth) ⟨ms⟩ :=
    TyUnion.plainWithin_iff.2 ⟨hms.1, hms.2, Nat.le_max_left _ _⟩
  exact exact_addWith (plainWithin_joinWithin _) (TyUnion.wellFormed_iff.1 hms.1).2.length_le hd.2
    ⟨ht, Nat.le_max_right _ _⟩ hs

theorem foldl_addMember_mixed (ts : List Ty) : ts.foldl addMember [.mixed] = [.mixed] := by
  induction ts with
  | nil => rfl
  | cons t ts ih =>
    have hstep : addMember [.mixed] t = [.mixed] := addWith_taken t
    rw [List.foldl_cons, hstep, ih]

theorem exact_foldl {ms ts : List Ty} {c : Constant} (hms : TyUnion.Plain ⟨ms⟩)
    (hts : ∀ t ∈ ts, t.Plain) (hs : Sparse (ms ++ ts))
    (hc : ∃ e ∈ ts.foldl addMember ms, c.toTy.matches .flat e = true) :
    ts.foldl addMember ms = [.mixed] ∨ ∃ m ∈ ms ++ ts, c.toTy.matches .flat m = true := by
  induction ts generalizing ms with
  | nil => exact .inr (by simpa using hc)
  | cons t ts ih =>
    obtain ⟨ht, hts⟩ := List.forall_mem_cons.1 hts
    have hst : Sparse (t :: ms) := by
      intro k
      have hk := hs k
      rw [Kind.count_append, Kind.count_cons] at hk
      rw [Kind.count_cons]
      omega
    obtain ⟨hcount, hexact⟩ := exact_addMember (c := c) hms ht hst
    have hs' : Sparse (addMember ms t ++ ts) := by
      intro k
      have hk := hs k
      have hk' := hcount k
      simp only [Kind.count_append, Kind.count_cons] at hk hk' ⊢
      omega
    rcases ih (grows_addMember ms t hms ht).2 hts hs' hc with hmixed | ⟨m, hm, hcm⟩
    · exact .inl hmixed
    · rcases List.mem_append.1 hm with hm | hm
      · rcases hexact ⟨m, hm, hcm⟩ with hmixed | ⟨x, hx, hcx⟩
        · rw [List.foldl_cons, hmixed]
          exact .inl (foldl_addMember_mixed ts)
        · refine .inr ⟨x, ?_, hcx⟩
          rcases List.mem_cons.1 hx with rfl | hx
          · simp
          · exact List.mem_append_left _ hx
      · exact .inr ⟨m, by simp [hm], hcm⟩

theorem TyUnion.isMixed_iff {u : TyUnion} : u.isMixed = true ↔ u.members = [.mixed] := by
  obtain ⟨ms⟩ := u
  constructor
  · intro hm
    unfold TyUnion.isMixed at hm
    split at hm
    · rename_i he
      rw [he]
    · cases hm
  · intro hm
    rw [show ms = [.mixed] from hm]
    rfl

theorem TyUnion.describes_of_isMixed {h : Hierarchy} {u : TyUnion} (c : Constant)
    (hu : u.isMixed = true) : u.Describes h c := by
  rw [TyUnion.isMixed_iff] at hu
  exact ⟨.mixed, by simp [hu], Ty.matches_mixed _⟩

/-- Types that are about different sorts of values describe together no more than
each of them does, unless there are too many. -/
theorem TyUnion.exists_of_describes_ofList {h : Hierarchy} {ts : List Ty} {c : Constant}
    (hts : ∀ t ∈ ts, t.Plain) (hs : Sparse ts) (hd : (ofList ts).Describes h c) :
    (ofList ts).isMixed = true ∨ ∃ t ∈ ts, c.toTy.matches h t = true := by
  obtain ⟨e, he, hce⟩ := hd
  rw [c.matches_eq] at hce
  rw [members_ofList] at he
  rcases exact_foldl plain_empty hts (by simpa using hs) ⟨e, he, hce⟩ with hmixed | ⟨t, ht, hct⟩
  · rw [← members_ofList] at hmixed
    exact .inl (isMixed_iff.2 hmixed)
  · exact .inr ⟨t, by simpa using ht, by rw [c.matches_eq, hct]⟩

/-! ### Members of a union are about different sorts of values -/

theorem Kind.isIn_eq (k : Kind) (t : Ty) : k.isIn t = k.isOf t.core := by
  cases t <;> rfl

theorem Kind.combine?_ne_none {k : Kind} {a b : Ty} (ha : k.isIn a = true) (hb : k.isIn b = true) :
    a.combine? b ≠ none := by
  rw [isIn_eq] at ha hb
  have hcore : ∀ {t : Ty}, k.isOf t = true → t.isOptional = false ∧ Sentinel.ofTy? t = none := by
    intro t ht
    cases k <;> cases t <;> simp_all [Kind.isOf, Ty.isNumeric, Ty.isOptional, Sentinel.ofTy?]
  have hmerge : ∀ {s t : Ty} (j), k.isOf s = true → k.isOf t = true → ∃ r, Ty.Combines j s t r := by
    intro s t j hs ht
    cases k with
    | number => exact ⟨_, .float hs ht⟩
    | text =>
      cases s <;> simp [Kind.isOf] at hs
      cases t <;> simp [Kind.isOf] at ht
      exact ⟨_, .string _ _⟩
  exact Ty.combine?_ne_none_of_core (hcore ha) (hcore hb) (fun j => hmerge j ha hb)
    fun j => hmerge j hb ha

theorem Separate.sparse {ts : List Ty} (hs : Separate ts) : Sparse ts := by
  intro k
  have hap := hs.apart
  clear hs
  induction ts with
  | nil => exact Nat.zero_le 1
  | cons t ts ih =>
    obtain ⟨ht, hap⟩ := List.pairwise_cons.1 hap
    rw [Kind.count_cons]
    split
    · rename_i hk
      have hzero : k.count ts = 0 := by
        rw [Kind.count, List.countP_eq_zero]
        intro x hx hkx
        exact Kind.combine?_ne_none hk hkx (ht x hx)
      omega
    · exact ih hap

/-- Taking something from each of some types repeats no sort. -/
theorem Sparse.flatMap {ts : List Ty} {g : Ty → List Ty} (hs : Sparse ts)
    (hg : ∀ t ∈ ts, ∀ k : Kind, k.count (g t) ≤ k.count [t]) : Sparse (ts.flatMap g) := by
  have hle : ∀ k : Kind, k.count (ts.flatMap g) ≤ k.count ts := by
    intro k
    clear hs
    induction ts with
    | nil => exact Nat.le_refl _
    | cons t ts ih =>
      obtain ⟨hgt, hg⟩ := List.forall_mem_cons.1 hg
      have hhead := hgt k
      have htail := ih hg
      rw [List.flatMap_cons, Kind.count_append, ← List.singleton_append, Kind.count_append]
      omega
  exact fun k => Nat.le_trans (hle k) (hs k)

end PhpCheck
