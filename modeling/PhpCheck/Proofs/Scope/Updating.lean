import PhpCheck.Proofs.Scope.Joining
import PhpCheck.Proofs.Types.Settled

/-!
Updating a variable again.

The loop over a body ends when an update of its variables reports no change.  An update that is
repeated, or one with the type the variable had before, reports none exactly if the join of both
types takes neither of them up a second time (`Env.update_again_iff`), and a join does not where
those of its sides that are in doubt settle (`Env.update_again`).

Types about functions are in doubt because a text may be used as a function, and any function as
an instance of `Closure`, but no text as an instance (`Env.update_again_callable`).  Absent values
are, because the first member that can take one up does, whether or not another one accepts it
(`Env.update_again_null`).
-/

namespace PhpCheck

/-! ### Joins of two members -/

theorem Ty.combineWith_null {j : TyUnion → TyUnion → TyUnion} {t : Ty}
    (ht : t = .int none ∨ t = .string none) :
    t.combineWith j .null = some (.optional t .null) := by
  obtain rfl | rfl := ht <;>
    simp [Ty.combineWith, Ty.matches, Ty.promote?, Ty.isPromotable, Sentinel.ofTy?,
      Ty.makeOptional]

theorem TyUnion.number_union_null :
    (TyUnion.of (.int none)).union (.of .null) = ⟨[.optional (.int none) .null]⟩ := by
  have hnumber : TyUnion.of (.int none) = ⟨[.int none]⟩ := by
    rw [← TyUnion.eta (.of _), TyUnion.members_of (by simp)]
  have hmerged (j : TyUnion → TyUnion → TyUnion) :
      merge? (Ty.combineWith j) [.int none] .null = some (.optional (.int none) .null, []) := by
    have hkey : ((Ty.int none).key == Ty.null.key) = false := by decide
    simp [merge?, pick?, hkey, Ty.combineWith_null]
  rw [TyUnion.union_of, hnumber, TyUnion.add,
    addWith_merge (by simp) (by simp) (by simp) (hmerged _),
    addWith_eq_append (by simp) (by simp) (by simp) (by simp) (by decide)]
  rfl

theorem TyUnion.closure_union_text_or_closure :
    TyUnion.union ⟨[.object "Closure"]⟩ ⟨[.string none, .object "Closure"]⟩ =
      ⟨[.string none, .object "Closure"]⟩ := by
  have hapart (j : TyUnion → TyUnion → TyUnion) :
      (Ty.string none).combineWith j (.object "Closure") = none ∧
        (Ty.object "Closure").combineWith j (.string none) = none := by
    simp [Ty.combineWith, Ty.matches, Ty.promote?, Ty.isPromotable, Sentinel.ofTy?]
  have htext : TyUnion.add ⟨[.object "Closure"]⟩ (.string none) =
      ⟨[.object "Closure", .string none]⟩ := by
    rw [TyUnion.add, addWith_eq_append (by simp) (by simp) (by simp) (by simp [hapart])
      (by decide)]
    rfl
  have hmerged (j : TyUnion → TyUnion → TyUnion) :
      merge? (Ty.combineWith j) [.object "Closure", .string none] (.object "Closure") =
        some (.object "Closure", [.string none]) := by
    have hself : (Ty.object "Closure").combineWith j (.object "Closure") =
        some (.object "Closure") := by
      simp [Ty.combineWith, Ty.matches, sameName]
    simp [merge?, pick?, hself]
  rw [TyUnion.union, List.foldl_cons, List.foldl_cons, List.foldl_nil, htext, TyUnion.add,
    addWith_merge (by simp) (by simp) (by simp) (hmerged _),
    addWith_eq_append (by simp) (by simp) (by simp) (by simp [hapart]) (by decide)]
  rfl

/-! ### Updates -/

namespace Env

/-- After an update with `b` of a variable of type `a`, another one with `a` or `b` reports no
change exactly if there was none the first time, or joining once more changes nothing. -/
theorem update_again_iff {a b w : TyUnion} (ha : a.WellFormed) (hw : w = a ∨ w = b) {e : Env}
    {name : String} (hget : e.get? name = some a) :
    ((e.update name b).1.update name w).2 = false ↔
      (a.union b).same a = true ∨ ((a.union b).union w).same (a.union b) = true := by
  have hreport (old : TyUnion) :
      (news? (some old) w).isSome = false ↔ (old.union w).same old = true := by
    by_cases hsame : (old.union w).same old = true <;> simp [news?, hsame]
  have hnext : (e.update name b).1.get? name = some (a.extend b) := by
    rw [get?_update, if_pos rfl, hget, joinTypes]
  rw [update_changes, hnext, hreport, TyUnion.extend]
  by_cases hsame : (a.union b).same a = true
  · rw [if_pos hsame]
    refine iff_of_true ?_ (.inl hsame)
    obtain rfl | rfl := hw
    · exact ha.union_self
    · exact hsame
  · rw [if_neg hsame, or_iff_right hsame]

/-- Joining with one of two types once more changes nothing, and neither does updating with it, if
its members that are in doubt settle; where there are no functions, joining does so only then. -/
theorem update_again {a b : TyUnion} (ha : a.Reachable) (hb : b.Reachable) :
    ∀ w ∈ [a, b],
      ((a.union b).Settles (TyUnion.Doubtful a b) w.members →
        ((a.union b).union w).same (a.union b) = true ∧
        ∀ (e : Env) (name : String), e.get? name = some a →
          ((e.update name b).1.update name w).2 = false) ∧
      (a.functionFree = true → b.functionFree = true →
        (∃ t ∈ (a.union b).members, t.isBare = false) →
        (((a.union b).union w).same (a.union b) = true ↔
          (a.union b).Settles (TyUnion.Doubtful a b) w.members)) ∧
      ∀ (e : Env) (name : String), e.get? name = some a →
        (((e.update name b).1.update name w).2 = false ↔
          (a.union b).same a = true ∨ ((a.union b).union w).same (a.union b) = true) := by
  intro w hw
  have ha := ha.wellFormed
  have hb := hb.wellFormed
  have hside : w = a ∨ w = b := by simpa using hw
  have hmembers : ∀ t ∈ w.members, t ∈ a.members ++ b.members := by
    intro t ht
    obtain rfl | rfl := hside
    · exact List.mem_append_left _ ht
    · exact List.mem_append_right _ ht
  refine ⟨fun hsettles => ?_, fun hfa hfb hbare => ?_, fun e name hget =>
    update_again_iff ha hside hget⟩
  · have hsame := ha.union_again hb hmembers hsettles
    exact ⟨hsame, fun e name hget => (update_again_iff ha hside hget).2 (.inr hsame)⟩
  · exact TyUnion.Plain.union_again_iff ⟨ha, hfa⟩ ⟨hb, hfb⟩ hmembers hbare

/-- A number that may be null after the first update. -/
theorem update_again_number :
    let a := TyUnion.of (.int none)
    let e := empty.set "x" a
    ((e.update "x" (.of .null)).1.update "x" a).2 = false ∧
      ((e.update "x" (.of .null)).1.update "x" (.of .null)).2 = false := by
  intro a e
  have hget : e.get? "x" = some a := get?_set _ _ _ _
  have hmembers : (a.union (.of .null)).members = [.optional (.int none) .null] :=
    congrArg TyUnion.members TyUnion.number_union_null
  have ham : a.members = [.int none] := TyUnion.members_of (by simp)
  have hbm : (TyUnion.of .null).members = [.null] := TyUnion.members_of (by simp)
  have hnull : (a.union (.of .null)).Accepts .null :=
    TyUnion.accepts_of_single hmembers (by simp [Ty.matches, Sentinel.ofTy?, Sentinel.contains])
  have hagain := update_again (a := a) (b := .of .null) (.add .empty (.int none))
    (.add .empty .null)
  have hsure : ¬ TyUnion.Doubtful a (.of .null) (.int none) := by
    simp [TyUnion.Doubtful, Ty.isBare, Ty.isLenient, Ty.core, Ty.isAbsent]
  refine ⟨((hagain a (by simp)).1 ?_).2 e "x" hget,
    ((hagain (.of .null) (by simp)).1 ?_).2 e "x" hget⟩
  · refine TyUnion.settles_of_sure fun t ht => ?_
    rw [ham, List.mem_singleton] at ht
    exact ht ▸ hsure
  · rw [hbm]
    exact ⟨fun _ => hnull, trivial⟩

/-- A text or a `Closure` that becomes a function is only a `Closure` then, so that the text is
news again. -/
theorem update_again_callable :
    let a := (TyUnion.empty.add (.string none)).add (.object "Closure")
    let b := TyUnion.of .callable
    let e := empty.set "x" a
    a.Reachable ∧ b.Reachable ∧ ((a.union b).union a).same (a.union b) = false ∧
      e.get? "x" = some a ∧ ((e.update "x" b).1.update "x" a).2 = true := by
  intro a b e
  have ha : a.Reachable := .add (.add .empty (.string none)) (.object "Closure")
  have hab : a.union b = ⟨[.object "Closure"]⟩ :=
    (TyUnion.union_of a .callable).trans TyUnion.text_or_closure_add_callable
  have haba : (a.union b).union a = ⟨[.string none, .object "Closure"]⟩ := by
    rw [hab, show a = _ from TyUnion.text_or_closure]
    exact TyUnion.closure_union_text_or_closure
  have hget : e.get? "x" = some a := get?_set _ _ _ _
  have hsame : (a.union b).same a = false := by
    rw [hab, show a = _ from TyUnion.text_or_closure]
    decide
  have hagain : ((a.union b).union a).same (a.union b) = false := by
    rw [haba, hab]
    decide
  refine ⟨ha, .add .empty Ty.reachable_callable, hagain, hget, ?_⟩
  rw [← Bool.not_eq_false, update_again_iff ha.wellFormed (.inl rfl) hget, hsame, hagain]
  simp

/-- Null goes to the text first and to the number the next time, although it is part of the type
already. -/
theorem update_again_null :
    let a := (TyUnion.of (.string none)).add (.optional (.int none) .false)
    let b := TyUnion.of .null
    a.Reachable ∧ b.Reachable ∧ a.functionFree = true ∧ b.functionFree = true ∧
      ((a.union b).union b).same (a.union b) = false := by
  intro a b
  have htext : (Ty.string none).Telling := ⟨⟨trivial, rfl⟩, rfl⟩
  have hnumber : (Ty.optional (.int none) .false).Telling :=
    ⟨⟨Ty.wellFormed_optional.2 ⟨trivial, rfl, rfl⟩, rfl⟩, rfl⟩
  have hnullable : (Ty.optional (.string none) .null).Telling :=
    ⟨⟨Ty.wellFormed_optional.2 ⟨trivial, rfl, rfl⟩, rfl⟩, rfl⟩
  have ham : a = ⟨[.string none, .optional (.int none) .false]⟩ := by
    rw [← TyUnion.eta a]
    exact congrArg _ (TyUnion.members_pair htext hnumber (f := .text) (g := .number) rfl rfl
      (by decide))
  have hbm : b.members = [.null] := TyUnion.members_of (by simp)
  have hab : a.union b = ⟨[.optional (.int none) .false, .optional (.string none) .null]⟩ := by
    have hmerged (j : TyUnion → TyUnion → TyUnion) :
        merge? (Ty.combineWith j) [.string none, .optional (.int none) .false] .null =
          some (.optional (.string none) .null, [.optional (.int none) .false]) := by
      have hkeys : ((Ty.string none).key == Ty.null.key) = false ∧
          ((Ty.optional (.int none) .false).key == Ty.null.key) = false := by decide +kernel
      simp [merge?, pick?, hkeys, Ty.combineWith_null]
    have hapart := hnumber.combine?_eq_none hnullable (f := .number) (g := .text) rfl rfl
      (by decide)
    rw [TyUnion.union_of, ham, TyUnion.add,
      addWith_merge (by simp) (by simp) (by simp) (hmerged _),
      addWith_eq_append (by simp) (by simp) (by simp)
        (by simpa using (Ty.combineWith_eq_none_iff _).2 hapart) (by decide)]
    rfl
  have ha : a.Reachable := .add (.add .empty (.string none)) (.optional (.int none) .false)
  have hb : b.Reachable := .add .empty .null
  have hfa : a.functionFree = true := by
    rw [ham]
    decide
  have hfb : b.functionFree = true := by
    rw [← TyUnion.eta b, hbm]
    decide
  refine ⟨ha, hb, hfa, hfb, ?_⟩
  have hbare : ∃ e ∈ (a.union b).members, e.isBare = false :=
    ⟨.optional (.int none) .false, by simp [hab], rfl⟩
  rw [← Bool.not_eq_true, TyUnion.Plain.union_again_iff ⟨ha.wellFormed, hfa⟩ ⟨hb.wellFormed, hfb⟩
    (fun t ht => List.mem_append_right _ ht) hbare, hbm]
  rintro ⟨hsettles, -⟩
  obtain ⟨m, hm, hnull⟩ := hsettles (.inl rfl)
  have hkeys : ([.optional (.int none) .false, .optional (.string none) .null] : List Ty).find?
      (·.key == Ty.null.key) = none := by decide +kernel
  have hmerges : ((Ty.optional (.int none) .false).combine? .null).isSome = true := by
    rw [Option.isSome_iff_ne_none]
    exact (Ty.Combines.sentinelLeft (j := joinWithin 0) (.int none) .false rfl).combine?_ne_none
  rw [hab, TyUnion.partner?, hkeys, Option.filter_none, Option.none_or, List.find?_cons, hmerges]
    at hm
  have hno : Ty.null.matches .flat (.optional (.int none) .false) = false := by
    simp only [Ty.matches, Sentinel.ofTy?]
    rfl
  rw [← Option.some.inj hm, hno] at hnull
  cases hnull

end Env

end PhpCheck
