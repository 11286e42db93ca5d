import PhpCheck.Proofs.Tables
import PhpCheck.Proofs.Types.Reachable
import PhpCheck.Registry.Ancestry
import PhpCheck.Scope.Env

/-!
The join of two environments.

Variables are joined one by one: a variable that both environments bind has the
alternatives of both types, unless the second type brings nothing new (`Env.get?_merge`).
Joining a snapshot with itself is no exception where all types are well formed, and the
same snapshots have the same bindings (`Env.get?_merge_of_sharing`).

The join is a loop through the bindings of the second environment, which updates the first with
each.  An update looks at its own variable only, so updates of different variables commute: the
loop may take the bindings in any order (`Env.updateAll_perm`, `Env.updateReport_eq`).  An update
reports a change exactly if the type of its variable is no longer equal to what it was, so the
whole loop does (`Env.mergeChanges_iff`).  Where the two environments are the same snapshot, the
loop is skipped; it would have left the first one as it was, because joining a type with itself
gives that type.
-/

namespace PhpCheck

namespace TyUnion

/-- A type with the alternatives of another, which stays as it was if they are no news. -/
def extend (old new : TyUnion) : TyUnion :=
  if (old.union new).same old then old else old.union new

theorem WellFormed.extend_self {u : TyUnion} (hu : u.WellFormed) : u.extend u = u :=
  if_pos hu.union_self

theorem WellFormed.union_same_extend {u v : TyUnion} (hu : u.WellFormed) (hv : v.WellFormed) :
    (u.union v).same (u.extend v) = true := by
  unfold extend
  split
  · assumption
  · exact (hu.union hv).same_self

end TyUnion

/-- The type of a variable where two environments meet. -/
def joinTypes : Option TyUnion → Option TyUnion → Option TyUnion
  | some old, some new => some (old.extend new)
  | old, new => old.or new

@[simp]
theorem joinTypes_none (old : Option TyUnion) : joinTypes old none = old := by
  cases old <;> rfl

namespace Env

theorem get?_update (e : Env) (name other : String) (ty : TyUnion) :
    (e.update name ty).1.get? other =
      if name = other then joinTypes (e.get? other) (some ty) else e.get? other := by
  unfold update
  cases hold : e.get? name with
  | none =>
    rw [get?_set]
    split
    · rename_i heq
      rw [← heq, hold]
      rfl
    · rfl
  | some old =>
    dsimp only
    by_cases heq : name = other
    · subst heq
      rw [if_pos rfl, hold, joinTypes, TyUnion.extend]
      split
      · exact hold
      · exact (get?_set _ _ _ _).trans (if_pos rfl)
    · rw [if_neg heq]
      split
      · rfl
      · rw [get?_set, if_neg heq]

/-- Updates with all of some entries. -/
theorem get?_foldl_update {entries : List (String × TyUnion)}
    (hsorted : (names entries).Pairwise (· < ·)) (state : Env × Bool) (name : String) :
    (entries.foldl (fun (e, changed) (key, ty) =>
      let (e, more) := e.update key ty
      (e, changed || more)) state).1.get? name =
        joinTypes (state.1.get? name) (Table.find entries name) := by
  induction entries generalizing state with
  | nil => simp [Table.find]
  | cons entry entries ih =>
    obtain ⟨key, ty⟩ := entry
    obtain ⟨hbelow, hsorted⟩ := List.pairwise_cons.1 hsorted
    rw [List.foldl_cons, ih hsorted, get?_update, Table.find]
    by_cases heq : key = name
    · subst heq
      have habsent : Table.find entries key = none := by
        cases hfound : Table.find entries key with
        | none => rfl
        | some other =>
          exact absurd (hbelow key (Registry.mem_names_of_find hfound)) (String.lt_irrefl key)
      rw [if_pos rfl, if_pos rfl, habsent, joinTypes_none]
    · rw [if_neg heq, if_neg heq]

theorem get?_merge {e other : Env} (hnew : e.isSnapshotOf other = false) (name : String) :
    (e.merge other).get? name = joinTypes (e.get? name) (other.get? name) := by
  unfold merge mergeReport
  rw [hnew]
  exact get?_foldl_update other.bindings.sorted (e, false) name

/-- All types in an environment are well formed. -/
def WellFormed (e : Env) : Prop := ∀ name u, e.get? name = some u → u.WellFormed

theorem WellFormed.joinTypes_self {e : Env} (he : e.WellFormed) (name : String) :
    joinTypes (e.get? name) (e.get? name) = e.get? name := by
  cases hu : e.get? name with
  | none => rfl
  | some u => exact congrArg some (he name u hu).extend_self

/-- If environments that are the same snapshot have the same bindings, no join shows which of
them are. -/
theorem get?_merge_of_sharing {e other : Env} (he : e.WellFormed)
    (hsharing : e.isSnapshotOf other = true → e.bindings = other.bindings) (name : String) :
    (e.merge other).get? name = joinTypes (e.get? name) (other.get? name) := by
  cases hsame : e.isSnapshotOf other with
  | false => exact get?_merge hsame name
  | true =>
    have hget : other.get? name = e.get? name := by
      unfold get?
      rw [hsharing hsame]
    have hmerge : e.merge other = e := by simp [merge, mergeReport, hsame]
    rw [hmerge, hget, he.joinTypes_self]

/-- The same variables with equal types. -/
def Agrees (e other : Env) : Prop :=
  ∀ name, Option.Rel (fun u v => u.same v = true) (e.get? name) (other.get? name)

end Env

/-- The type that a variable gets where alternatives are added to it, if that changes its type. -/
def news? : Option TyUnion → TyUnion → Option TyUnion
  | none, new => some new
  | some old, new => if (old.union new).same old then none else some (old.union new)

namespace Env

variable {e other : Env}

/-! ### Updates -/

theorem update_eq (e : Env) (name : String) (ty : TyUnion) :
    e.update name ty =
      (((news? (e.get? name) ty).elim e fun new => e.set name new),
        (news? (e.get? name) ty).isSome) := by
  unfold update
  cases e.get? name with
  | none => rfl
  | some old =>
    dsimp only [news?]
    split <;> rfl

theorem update_changes (e : Env) (name : String) (ty : TyUnion) :
    (e.update name ty).2 = (news? (e.get? name) ty).isSome := by
  rw [update_eq]

theorem get?_update_of_ne {name other : String} (hne : name ≠ other) (ty : TyUnion) :
    (e.update name ty).1.get? other = e.get? other := by
  rw [get?_update, if_neg hne]

theorem set_comm (e : Env) {name other : String} (hne : name ≠ other) (u v : TyUnion) :
    (e.set name u).set other v = (e.set other v).set name u := by
  rw [set, set, set, set, Table.insert_comm _ hne]

/-- Updates of different variables commute. -/
theorem update_comm (e : Env) {name other : String} (hne : name ≠ other) (u v : TyUnion) :
    ((e.update name u).1.update other v).1 = ((e.update other v).1.update name u).1 := by
  rw [update_eq (e.update name u).1, update_eq (e.update other v).1, get?_update_of_ne hne,
    get?_update_of_ne hne.symm, update_eq, update_eq]
  cases news? (e.get? name) u <;> cases news? (e.get? other) v
  · rfl
  · rfl
  · rfl
  · exact set_comm e hne _ _

/-- Updates with entries in turn. -/
def updateAll (e : Env) (entries : List (String × TyUnion)) : Env :=
  entries.foldl (fun e (name, ty) => (e.update name ty).1) e

theorem updateAll_cons (e : Env) (entry : String × TyUnion) (entries : List (String × TyUnion)) :
    e.updateAll (entry :: entries) = (e.update entry.1 entry.2).1.updateAll entries := rfl

/-- Updates with entries in turn, and tells whether one of them changed something. -/
def updateReport (e : Env) (entries : List (String × TyUnion)) : Env × Bool :=
  entries.foldl
    (fun (e, changed) (name, ty) =>
      let (e, more) := e.update name ty
      (e, changed || more))
    (e, false)

theorem updateAll_perm {entries entries' : List (String × TyUnion)}
    (hnodup : (names entries).Nodup) (hperm : entries.Perm entries') :
    e.updateAll entries = e.updateAll entries' := by
  refine hperm.foldl_eq' (fun entry hentry entry' hentry' e => ?_) e
  by_cases heq : entry.1 = entry'.1
  · rw [List.inj_on_of_nodup_map hnodup hentry hentry' heq]
  · exact e.update_comm heq entry.2 entry'.2

theorem updateAll_of_no_news {entries : List (String × TyUnion)}
    (hnone : ∀ entry ∈ entries, news? (e.get? entry.1) entry.2 = none) :
    e.updateAll entries = e := by
  induction entries with
  | nil => rfl
  | cons entry entries ih =>
    have hfirst : (e.update entry.1 entry.2).1 = e := by
      rw [update_eq, hnone entry List.mem_cons_self]
      rfl
    rw [updateAll_cons, hfirst]
    exact ih fun entry hentry => hnone entry (List.mem_cons_of_mem _ hentry)

/-- What an update reports does not depend on the updates of other variables before it. -/
theorem updateReport_eq {entries : List (String × TyUnion)} (hnodup : (names entries).Nodup) :
    e.updateReport entries =
      (e.updateAll entries, entries.any fun entry => (news? (e.get? entry.1) entry.2).isSome) := by
  have hrun (changed : Bool) : entries.foldl
      (fun (e, changed) (name, ty) =>
        let (e, more) := e.update name ty
        (e, changed || more)) (e, changed) =
      (e.updateAll entries,
        changed || entries.any fun entry => (news? (e.get? entry.1) entry.2).isSome) := by
    induction entries generalizing e changed with
    | nil => simp [updateAll]
    | cons entry entries ih =>
      obtain ⟨hnew, hrest⟩ := List.nodup_cons.1 hnodup
      have hothers : (entries.any fun other =>
          (news? ((e.update entry.1 entry.2).1.get? other.1) other.2).isSome) =
          entries.any fun other => (news? (e.get? other.1) other.2).isSome := by
        rw [Bool.eq_iff_iff, List.any_eq_true, List.any_eq_true]
        refine exists_congr fun other => and_congr_right fun hother => ?_
        have hne : entry.1 ≠ other.1 := fun heq => hnew (heq ▸ List.mem_map_of_mem hother)
        rw [get?_update_of_ne hne]
      rw [List.foldl_cons, ih hrest, hothers, List.any_cons, ← Bool.or_assoc, updateAll_cons,
        update_changes]
  exact hrun false

/-! ### The loop -/

/-- An update changes the type of its variable exactly if it reports so. -/
theorem rel_joinTypes_iff {old new : Option TyUnion} (hold : ∀ u, old = some u → u.WellFormed) :
    Option.Rel (fun u v => u.same v = true) (joinTypes old new) old ↔
      ∀ ty, new = some ty → news? old ty = none := by
  cases new with
  | none =>
    rw [joinTypes_none]
    refine iff_of_true ?_ fun ty hty => by cases hty
    cases old with
    | none => exact .none
    | some u => exact .some (hold u rfl).same_self
  | some ty =>
    simp only [Option.some.injEq, forall_eq']
    cases old with
    | none => exact iff_of_false (fun h => by cases h) (fun h => by cases h)
    | some u =>
      simp only [joinTypes, TyUnion.extend, news?]
      by_cases hsame : (u.union ty).same u = true
      · rw [if_pos hsame, if_pos hsame]
        exact iff_of_true (.some (hold u rfl).same_self) rfl
      · rw [if_neg hsame, if_neg hsame]
        refine iff_of_false (fun h => ?_) (fun h => by cases h)
        cases h
        exact hsame ‹_›

theorem same_iff_agrees : e.same other = true ↔ e.Agrees other := by
  rw [same, Bool.and_eq_true, beq_iff_eq, List.all_eq_true]
  exact (Table.rel_get?_iff (r := fun u v => TyUnion.same u v = true)).symm

theorem nodup_entries (e : Env) : (names e.bindings.entries).Nodup :=
  e.bindings.sorted.imp String.ne_of_lt

/-- Where the loop is skipped it would have changed nothing. -/
theorem mergeReport_eq_of_sharing (he : e.WellFormed)
    (hsharing : e.isSnapshotOf other = true → e.bindings = other.bindings) :
    e.mergeReport other = e.updateReport other.bindings.entries := by
  have hnodup := other.nodup_entries
  unfold mergeReport
  split
  · rename_i hsame
    rw [← hsharing hsame] at hnodup ⊢
    have hnone : ∀ entry ∈ e.bindings.entries, news? (e.get? entry.1) entry.2 = none := by
      intro entry hentry
      have hget : e.get? entry.1 = some entry.2 :=
        (Table.find_eq_some_iff e.bindings.sorted).2 hentry
      rw [hget]
      exact if_pos (he entry.1 entry.2 hget).union_self
    have hany : (e.bindings.entries.any fun entry =>
        (news? (e.get? entry.1) entry.2).isSome) = false :=
      List.any_eq_false.2 fun entry hentry => by simp [hnone entry hentry]
    rw [updateReport_eq hnodup, updateAll_of_no_news hnone, hany]
  · rfl

/-- A join changes the environment exactly if it reports so. -/
theorem mergeChanges_iff (he : e.WellFormed)
    (hsharing : e.isSnapshotOf other = true → e.bindings = other.bindings) :
    e.mergeChanges other = true ↔ (e.merge other).same e = false := by
  have hagrees : (e.merge other).same e = true ↔
      ∀ name ty, other.get? name = some ty → news? (e.get? name) ty = none := by
    rw [same_iff_agrees]
    refine forall_congr' fun name => ?_
    rw [get?_merge_of_sharing he hsharing]
    exact rel_joinTypes_iff (he name)
  rw [← Bool.not_eq_true, hagrees, mergeChanges, mergeReport_eq_of_sharing he hsharing,
    updateReport_eq other.nodup_entries, List.any_eq_true]
  constructor
  · rintro ⟨entry, hentry, hnews⟩ hnone
    have hget : other.get? entry.1 = some entry.2 :=
      (Table.find_eq_some_iff other.bindings.sorted).2 hentry
    rw [hnone entry.1 entry.2 hget] at hnews
    cases hnews
  · intro hchanges
    by_contra hquiet
    refine hchanges fun name ty hget => Option.not_isSome_iff_eq_none.1 fun hnews => hquiet ?_
    exact ⟨(name, ty), (Table.find_eq_some_iff other.bindings.sorted).1 hget, hnews⟩

/-- All types in an environment can be built without numbers that are not equal to themselves. -/
def Reachable (e : Env) : Prop := ∀ name u, e.get? name = some u → u.Reachable

theorem Reachable.wellFormed (he : e.Reachable) : e.WellFormed :=
  fun name u hu => (he name u hu).wellFormed

theorem reachable_empty : empty.Reachable := fun _ _ hu => nomatch hu

theorem Reachable.set (he : e.Reachable) (name : String) {ty : TyUnion} (hty : ty.Reachable) :
    (e.set name ty).Reachable := by
  intro other u hu
  rw [get?_set] at hu
  split at hu
  · exact Option.some.inj hu ▸ hty
  · exact he other u hu

/-- The type of a variable in the join of two environments: what both say of it, or what the only
one says that binds it. -/
def JoinOf : Option TyUnion → Option TyUnion → Option TyUnion → Prop
  | some u, some v, joined => ∃ w, joined = some w ∧ w.same (u.union v) = true
  | old, new, joined => joined = old.or new

/-- The join of two environments is the join of their types, variable by variable.  It does not
depend on the order of the bindings of the second one, it reports a change exactly if the result
differs from the first environment, and if both are the same snapshot the loop that is skipped
would have left the first one as it is. -/
theorem merge_pointwise (he : e.Reachable) (hother : other.Reachable)
    (hsharing : e.isSnapshotOf other = true → e.bindings = other.bindings) :
    (∀ name, JoinOf (e.get? name) (other.get? name) ((e.merge other).get? name)) ∧
    (∀ entries : List (String × TyUnion), entries.Perm other.bindings.entries →
      e.updateAll entries = e.merge other ∧
      e.updateReport entries = (e.merge other, e.mergeChanges other)) ∧
    (e.mergeChanges other = true ↔ (e.merge other).same e = false) ∧
    (e.isSnapshotOf other = true → e.merge other = e ∧
      ∀ entries : List (String × TyUnion), entries.Perm other.bindings.entries →
        e.updateReport entries = (e, false)) := by
  have hmerge := mergeReport_eq_of_sharing he.wellFormed hsharing
  have horder (entries : List (String × TyUnion)) (hperm : entries.Perm other.bindings.entries) :
      e.updateAll entries = e.merge other ∧
      e.updateReport entries = (e.merge other, e.mergeChanges other) := by
    have hnodup : (names entries).Nodup := (hperm.map Prod.fst).nodup_iff.2 other.nodup_entries
    rw [merge, mergeChanges, hmerge, updateReport_eq hnodup, updateReport_eq other.nodup_entries,
      updateAll_perm hnodup hperm, hperm.any_eq]
    exact ⟨rfl, rfl⟩
  refine ⟨fun name => ?_, horder, mergeChanges_iff he.wellFormed hsharing, fun hsame => ?_⟩
  · rw [get?_merge_of_sharing he.wellFormed hsharing]
    cases hu : e.get? name with
    | none => exact rfl
    | some u =>
      cases hv : other.get? name with
      | none => rfl
      | some v =>
        have hwu := (he name u hu).wellFormed
        have hwv := (hother name v hv).wellFormed
        exact ⟨u.extend v, rfl, (hwu.union hwv).same_symm (hwu.union_same_extend hwv)⟩
  · have hskip : e.mergeReport other = (e, false) := if_pos hsame
    have hself : e.merge other = e := congrArg Prod.fst hskip
    have hquiet : e.mergeChanges other = false := congrArg Prod.snd hskip
    refine ⟨hself, fun entries hperm => ?_⟩
    rw [(horder entries hperm).2, hself, hquiet]

/-- Where a variable is a whole number. -/
def counting : Env := empty.set "x" (.of (.int none))

/-- Where it is null or a whole number, and another one is a string, as the snapshot of a number. -/
def naming : Env :=
  ((empty.set "x" (.ofList [.null, .int none])).set "y" (.of (.string none))).numbered 3

theorem reachable_counting : counting.Reachable :=
  reachable_empty.set "x" (.add .empty (.int none))

theorem reachable_naming : naming.Reachable :=
  (reachable_empty.set "x" (.add (.add .empty .null) (.int none))).set "y"
    (.add .empty (.string none))

theorem merge_pointwise_counting :
    (counting.merge naming).get? "y" = some (.of (.string none)) ∧
    (∃ w, (counting.merge naming).get? "x" = some w ∧
      w.same ((TyUnion.of (.int none)).union (.ofList [.null, .int none])) = true) ∧
    naming.updateReport naming.bindings.entries = (naming, false) := by
  obtain ⟨hget, -⟩ := merge_pointwise reachable_counting reachable_naming (fun h => nomatch h)
  obtain ⟨-, -, -, hself⟩ := merge_pointwise reachable_naming reachable_naming fun _ => rfl
  exact ⟨hget "y", hget "x", (hself rfl).2 _ (.refl _)⟩

end Env

end PhpCheck
