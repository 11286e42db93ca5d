import Mathlib
import PhpCheck.Proofs.Types.Transfer
import PhpCheck.Registry.Ancestry

/-!
Class hierarchies.

The search behind `parentChain`, `ancestors` and `isSubclass` enters each name once,
however the classes are linked.  What it enters is what can be reached by links
(`mem_reach_iff`): every name it enters is reachable, and the names it has entered
when it ends are closed under links.

A class whose ancestors are not all known may inherit from any class.  So the test
for subclasses is reachability, or else some unknown class is reachable
(`Filed.isSubclass_iff`), and both carry over from a class to its heirs.
-/

namespace PhpCheck

/-! ### Names and tables -/

theorem symbolKey_unrooted (name : String) : symbolKey (unrooted name) = symbolKey name := by
  simp [symbolKey, unrooted, List.dropWhile_idempotent]

/-- No other character becomes a backslash when it is written small. -/
theorem toLower_beq_backslash (c : Char) : (c.toLower == '\\') = (c == '\\') := by
  rw [Bool.eq_iff_iff, beq_iff_eq, beq_iff_eq]
  unfold Char.toLower
  split
  · rename_i hupper
    obtain ⟨hlo, hhi⟩ := hupper
    rw [Char.ext_iff, Char.ext_iff]
    rw [ge_iff_le, UInt32.le_iff_toNat_le] at hlo
    rw [UInt32.le_iff_toNat_le] at hhi
    rw [← UInt32.toNat_inj, ← UInt32.toNat_inj, UInt32.toNat_add]
    simp at hlo hhi ⊢
    omega
  · rfl

/-- The key of a name depends on the name in small letters only. -/
theorem symbolKey_eq (name : String) : symbolKey name = unrooted name.toLower := by
  unfold symbolKey unrooted String.toLower
  rw [← String.toList_inj, String.toList_map, String.toList_map, String.toList_ofList,
    String.toList_ofList, List.dropWhile_map]
  simp only [Function.comp_def, toLower_beq_backslash]

theorem Table.get?_modify {α : Type} (t : Table α) (name other : String) (f : α → α) :
    (t.modify name f).get? other =
      if other = name then (t.get? other).map f else t.get? other := by
  rw [modify, get?_map]
  split <;> simp_all

@[simp]
theorem ClassInfo.withTable_name (c : ClassInfo) (kind : MemberKind) (t : Table Member) :
    (c.withTable kind t).name = c.name := by
  cases kind <;> rfl

namespace Registry

/-! ### Registries that can be built -/

/-- What becomes of the empty registry as classes are added and edited.  An edit of a
class leaves it its name. -/
inductive Built : Registry → Prop
  | empty (order : ClassInfo.Order) : Built { order }
  | addClass {r : Registry} (hr : Built r) (c : ClassInfo) : Built (r.addClass c)
  | addUnknown {r : Registry} (hr : Built r) (name : String) : Built (r.addUnknown name)
  | updateMethod {r : Registry} (hr : Built r) (className method : String) (f : Signature) :
      Built (r.updateMethod className method f)
  | modifyClass {r : Registry} (hr : Built r) (name : String) {f : ClassInfo → ClassInfo}
      (hf : ∀ c, r.class? name = some c → symbolKey (f c).name = symbolKey c.name) :
      Built (r.modifyClass name f)

/-- Every class stands at its own name. -/
def Filed (r : Registry) : Prop :=
  ∀ key c, r.classes.get? key = some c → symbolKey c.name = key

theorem Filed.putClass {r : Registry} (hr : r.Filed) (c : ClassInfo) : (r.putClass c).Filed := by
  intro key d hd
  rw [Registry.putClass, Table.get?_insert] at hd
  split at hd
  · obtain rfl := Option.some.inj hd
    assumption
  · exact hr key d hd

theorem Filed.modifyClass {r : Registry} (hr : r.Filed) {name : String}
    {f : ClassInfo → ClassInfo}
    (hf : ∀ c, r.class? name = some c → symbolKey (f c).name = symbolKey c.name) :
    (r.modifyClass name f).Filed := by
  intro key d hd
  rw [Registry.modifyClass, Table.get?_modify] at hd
  split at hd
  · rename_i hkey
    obtain ⟨c, hc, rfl⟩ := Option.map_eq_some_iff.1 hd
    rw [hf c (by rwa [class?, ← hkey])]
    exact hr key c hc
  · exact hr key d hd

theorem Built.filed {r : Registry} (hr : r.Built) : r.Filed := by
  induction hr with
  | empty order => exact fun key c hc => by simp [Table.get?_empty] at hc
  | addClass hr c ih =>
    rw [Registry.addClass]
    split
    · exact ih
    · exact ih.putClass c
  | addUnknown hr name ih =>
    rw [Registry.addUnknown]
    split
    · exact ih
    · exact ih.putClass _
  | updateMethod hr className method f ih =>
    refine ih.modifyClass fun c hc => ?_
    split <;> simp
  | modifyClass hr name hf ih => exact ih.modifyClass hf

/-! ### Reachable names -/

variable {r : Registry} {links : ClassInfo → List String}

theorem class?_congr {a b : String} (hk : symbolKey a = symbolKey b) : r.class? a = r.class? b := by
  rw [class?, class?, hk]

/-- One name leads to another by links of registered classes; names with the same key
count as one. -/
inductive Reaches (r : Registry) (links : ClassInfo → List String) (a : String) : String → Prop
  | alike {b : String} (hk : symbolKey a = symbolKey b) : Reaches r links a b
  | link {b d l : String} {c : ClassInfo} (hab : Reaches r links a b) (hc : r.class? b = some c)
      (hl : l ∈ links c) (hk : symbolKey l = symbolKey d) : Reaches r links a d

theorem Reaches.refl (a : String) : r.Reaches links a a := .alike rfl

theorem Reaches.congr {a b d : String} (hab : r.Reaches links a b)
    (hk : symbolKey b = symbolKey d) : r.Reaches links a d := by
  cases hab with
  | alike h => exact .alike (h.trans hk)
  | link hab hc hl h => exact .link hab hc hl (h.trans hk)

theorem Reaches.trans {a b d : String} (hab : r.Reaches links a b) (hbd : r.Reaches links b d) :
    r.Reaches links a d := by
  induction hbd with
  | alike hk => exact hab.congr hk
  | link _ hc hl hk ih => exact .link ih hc hl hk

/-! ### The search -/

/-- The keys of the names that a search enters. -/
def reachKeys (r : Registry) (links : ClassInfo → List String) (pending seen : List String) :
    List String :=
  (r.reach links pending seen).map fun e => symbolKey e.1

/-- No name is entered twice, and none that has been entered before. -/
theorem nodup_reachKeys (pending seen : List String) :
    (r.reachKeys links pending seen).Nodup ∧ ∀ k ∈ r.reachKeys links pending seen, k ∉ seen := by
  unfold reachKeys
  fun_induction reach r links pending seen with
  | case1 => simp
  | case2 seen name rest hs ih => exact ih
  | case3 seen name rest hs hc ih | case4 seen name rest hs c hc ih =>
    obtain ⟨hnodup, hnew⟩ := ih
    rw [List.map_cons, List.nodup_cons, List.forall_mem_cons]
    refine ⟨⟨fun hm => hnew _ hm List.mem_cons_self, hnodup⟩, by simpa using hs, fun k hk hm => ?_⟩
    exact hnew k hk (List.mem_cons_of_mem _ hm)

/-- Whatever is entered is reachable, and is listed with what is registered for it. -/
theorem reaches_of_mem_reach {pending seen : List String} {e : String × Option ClassInfo}
    (he : e ∈ r.reach links pending seen) :
    e.2 = r.class? e.1 ∧ ∃ a ∈ pending, r.Reaches links a e.1 := by
  fun_induction reach r links pending seen with
  | case1 => simp at he
  | case2 seen name rest hs ih =>
    obtain ⟨hclass, a, ha, hreach⟩ := ih he
    exact ⟨hclass, a, List.mem_cons_of_mem _ ha, hreach⟩
  | case3 seen name rest hs hc ih =>
    rcases List.mem_cons.1 he with rfl | he
    · exact ⟨hc.symm, name, List.mem_cons_self, .refl name⟩
    · obtain ⟨hclass, a, ha, hreach⟩ := ih he
      exact ⟨hclass, a, List.mem_cons_of_mem _ ha, hreach⟩
  | case4 seen name rest hs c hc ih =>
    rcases List.mem_cons.1 he with rfl | he
    · exact ⟨hc.symm, name, List.mem_cons_self, .refl name⟩
    · obtain ⟨hclass, a, ha, hreach⟩ := ih he
      rcases List.mem_append.1 ha with hl | ha
      · have hlink : r.Reaches links name a := .link (.refl name) hc hl rfl
        exact ⟨hclass, name, List.mem_cons_self, hlink.trans hreach⟩
      · exact ⟨hclass, a, List.mem_cons_of_mem _ ha, hreach⟩

/-- When the search ends, all pending names have been entered, and all that the entered
classes link to. -/
theorem reachKeys_closed (pending seen : List String) :
    (∀ a ∈ pending, symbolKey a ∈ seen ∨ symbolKey a ∈ r.reachKeys links pending seen) ∧
    ∀ b c, (b, some c) ∈ r.reach links pending seen → ∀ l ∈ links c,
      symbolKey l ∈ seen ∨ symbolKey l ∈ r.reachKeys links pending seen := by
  unfold reachKeys
  fun_induction reach r links pending seen with
  | case1 => simp
  | case2 seen name rest hs ih =>
    exact ⟨List.forall_mem_cons.2 ⟨.inl (by simpa using hs), ih.1⟩, ih.2⟩
  | case3 seen name rest hs hc ih =>
    obtain ⟨hpending, hlinks⟩ := ih
    simp only [List.map_cons, List.mem_cons, or_assoc, or_left_comm] at hpending hlinks ⊢
    refine ⟨?_, ?_⟩
    · rintro a (rfl | ha)
      · exact .inl rfl
      · exact hpending a ha
    · rintro b c (he | he) l hl
      · cases he
      · exact hlinks b c he l hl
  | case4 seen name rest hs c hc ih =>
    obtain ⟨hpending, hlinks⟩ := ih
    simp only [List.map_cons, List.mem_cons, List.mem_append, or_assoc, or_left_comm]
      at hpending hlinks ⊢
    refine ⟨?_, ?_⟩
    · rintro a (rfl | ha)
      · exact .inl rfl
      · exact hpending a (.inr ha)
    · rintro b d (he | he) l hl
      · cases he
        exact hpending l (.inl hl)
      · exact hlinks b d he l hl

/-- A search from one name enters exactly what that name leads to. -/
theorem mem_reachKeys_iff {a b : String} :
    symbolKey b ∈ r.reachKeys links [a] [] ↔ r.Reaches links a b := by
  constructor
  · intro hb
    obtain ⟨e, he, hk⟩ := List.mem_map.1 hb
    obtain ⟨-, x, hx, hreach⟩ := reaches_of_mem_reach he
    rw [List.mem_singleton.1 hx] at hreach
    exact hreach.congr hk
  · intro hab
    obtain ⟨hroot, hlinks⟩ := @reachKeys_closed r links [a] []
    induction hab with
    | alike hk => simpa [hk] using hroot
    | link hab hc hl hk ih =>
      obtain ⟨⟨b', o⟩, he, hkb⟩ := List.mem_map.1 ih
      obtain rfl : o = some _ := (reaches_of_mem_reach he).1.trans ((class?_congr hkb).trans hc)
      simpa [hk] using hlinks b' _ he _ hl

theorem mem_reach_iff {a : String} {o : Option ClassInfo} :
    (∃ b, (b, o) ∈ r.reach links [a] []) ↔ ∃ b, r.Reaches links a b ∧ r.class? b = o := by
  constructor
  · rintro ⟨b, hb⟩
    have hkey : symbolKey b ∈ r.reachKeys links [a] [] := List.mem_map.2 ⟨(b, o), hb, rfl⟩
    exact ⟨b, mem_reachKeys_iff.1 hkey, (reaches_of_mem_reach hb).1.symm⟩
  · rintro ⟨b, hab, ho⟩
    obtain ⟨⟨b', o'⟩, he, hk⟩ := List.mem_map.1 (mem_reachKeys_iff.2 hab)
    obtain rfl : o' = o := (reaches_of_mem_reach he).1.trans ((class?_congr hk).trans ho)
    exact ⟨b', he⟩

/-! ### Chains and ancestors -/

/-- The registered classes that a search enters. -/
def reached (r : Registry) (links : ClassInfo → List String) (a : String) : List ClassInfo :=
  (r.reach links [a] []).filterMap Prod.snd

theorem mem_reached_iff {a : String} {c : ClassInfo} :
    c ∈ r.reached links a ↔ ∃ b, r.Reaches links a b ∧ r.class? b = some c := by
  rw [← mem_reach_iff]
  simp [reached]

theorem Filed.class?_name (hr : r.Filed) {b : String} {c : ClassInfo} (hc : r.class? b = some c) :
    symbolKey c.name = symbolKey b :=
  hr _ c hc

/-- No class is listed twice, and so there are no more than are registered. -/
theorem Filed.nodup_reached (hr : r.Filed) (a : String) :
    ((r.reached links a).map (symbolKey ·.name)).Nodup ∧
      (r.reached links a).length ≤ r.classes.size := by
  have hsub : ∀ es : List (String × Option ClassInfo), (∀ e ∈ es, e.2 = r.class? e.1) →
      ((es.filterMap Prod.snd).map (symbolKey ·.name)).Sublist (es.map fun e => symbolKey e.1) := by
    intro es hes
    induction es with
    | nil => simp
    | cons e es ih =>
      obtain ⟨he, hrest⟩ := List.forall_mem_cons.1 hes
      obtain ⟨b, o⟩ := e
      cases o with
      | none => exact (ih hrest).cons _
      | some c =>
        simp only [List.filterMap_cons, List.map_cons, hr.class?_name he.symm]
        exact (ih hrest).cons_cons _
  have hnodup : ((r.reached links a).map (symbolKey ·.name)).Nodup :=
    (hsub _ fun e he => (reaches_of_mem_reach he).1).nodup (r.nodup_reachKeys [a] []).1
  refine ⟨hnodup, ?_⟩
  have hkeys : (r.reached links a).map (symbolKey ·.name) ⊆ r.classes.keys := by
    intro k hk
    obtain ⟨c, hc, rfl⟩ := List.mem_map.1 hk
    obtain ⟨b, -, hb⟩ := mem_reached_iff.1 hc
    rw [hr.class?_name hb]
    exact mem_names_of_find hb
  simpa [Table.keys, Table.size, names] using (List.subperm_of_subset hnodup hkeys).length_le

/-! ### Subclasses -/

/-- Nothing is registered at a name, or only that there may be such a class. -/
def Unknown (r : Registry) (b : String) : Prop := ∀ c, r.class? b = some c → c.placeholder = true

theorem hasUnknownAncestor_iff {a : String} :
    r.hasUnknownAncestor a = true ↔ ∃ b, r.Reaches ancestorLinks a b ∧ r.Unknown b := by
  have hunknown : ∀ o : Option ClassInfo, o.all (·.placeholder) = true ↔
      ∀ c, o = some c → c.placeholder = true := by
    intro o
    cases o <;> simp
  simp only [hasUnknownAncestor, List.any_eq_true, Prod.exists, hunknown, Unknown]
  constructor
  · rintro ⟨b, o, hb, ho⟩
    obtain ⟨b', hab, rfl⟩ := mem_reach_iff.1 ⟨b, hb⟩
    exact ⟨b', hab, ho⟩
  · rintro ⟨b, hab, ho⟩
    obtain ⟨b', hb'⟩ := mem_reach_iff.2 ⟨b, hab, rfl⟩
    exact ⟨b', _, hb', ho⟩

theorem isSubclass_iff {a b : String} :
    r.isSubclass a b = true ↔ symbolKey a = symbolKey b ∨
      (∃ c ∈ r.ancestors a, symbolKey c.name = symbolKey b) ∨
      ∃ d, r.Reaches ancestorLinks a d ∧ r.Unknown d := by
  simp only [isSubclass, Bool.or_eq_true, beq_iff_eq, List.any_eq_true, hasUnknownAncestor_iff,
    or_assoc]

/-- A class inherits from another when it leads there, or to a class that may inherit
from any. -/
theorem Filed.isSubclass_iff (hr : r.Filed) {a b : String} :
    r.isSubclass a b = true ↔
      r.Reaches ancestorLinks a b ∨ ∃ d, r.Reaches ancestorLinks a d ∧ r.Unknown d := by
  rw [Registry.isSubclass_iff]
  constructor
  · rintro (hk | ⟨c, hc, hk⟩ | hu)
    · exact .inl (.alike hk)
    · obtain ⟨d, had, hd⟩ := mem_reached_iff.1 hc
      exact .inl (had.congr ((hr.class?_name hd).symm.trans hk))
    · exact .inr hu
  · rintro (hab | hu)
    · cases hb : r.class? b with
      | none => exact .inr (.inr ⟨b, hab, by simp [Unknown, hb]⟩)
      | some c => exact .inr (.inl ⟨c, mem_reached_iff.2 ⟨b, hab, hb⟩, hr.class?_name hb⟩)
    · exact .inr (.inr hu)

theorem Filed.isSubclass_refl (hr : r.Filed) (a : String) : r.isSubclass a a = true :=
  hr.isSubclass_iff.2 (.inl (.refl a))

/-- What a class leads to, its heirs lead to, and so where it may inherit from any class
they may. -/
theorem Filed.coherent (hr : r.Filed) : r.hierarchy.Coherent := by
  refine ⟨fun {a b c} hab hbc => ?_, fun {a b} hab hb => ?_⟩
  · simp only [hierarchy, hr.isSubclass_iff] at hab hbc ⊢
    rcases hab with hab | hu
    · rcases hbc with hbc | ⟨d, hbd, hd⟩
      · exact .inl (hab.trans hbc)
      · exact .inr ⟨d, hab.trans hbd, hd⟩
    · exact .inr hu
  · simp only [hierarchy, isStringable, hasMethod, Bool.or_eq_true, hr.isSubclass_iff,
      List.any_eq_true] at hab hb ⊢
    rcases hab with hab | hu
    · rcases hb with (hbs | ⟨d, hbd, hd⟩) | ⟨c, hc, hm⟩
      · exact .inl (.inl (hab.trans hbs))
      · exact .inl (.inr ⟨d, hab.trans hbd, hd⟩)
      · obtain ⟨d, hbd, hd⟩ := mem_reached_iff.1 hc
        exact .inr ⟨c, mem_reached_iff.2 ⟨d, hab.trans hbd, hd⟩, hm⟩
    · exact .inl (.inr hu)

/-- Without inheritance the subtype test is the strictest. -/
theorem flat_within (r : Registry) : Hierarchy.flat.Within r.hierarchy := by
  refine ⟨fun {a b} hab => ?_, nofun⟩
  have hkey : symbolKey a = symbolKey b := by
    rw [symbolKey_eq, symbolKey_eq, beq_iff_eq.1 hab]
  simp [hierarchy, isSubclass, hkey]

/-- In every registry that can be built, parent chains and ancestors are finite lists of
what is reachable, each class once, a class is a subclass of what it leads to or of
anything if it leads to an unknown class, and that makes a preorder along which being
convertible to text is inherited. -/
theorem Built.hierarchy_queries (hr : r.Built) :
    (∀ a, ((r.parentChain a).map (symbolKey ·.name)).Nodup ∧
      (r.parentChain a).length ≤ r.classes.size ∧
      ∀ c, c ∈ r.parentChain a ↔ ∃ b, r.Reaches parentLink a b ∧ r.class? b = some c) ∧
    (∀ a, ((r.ancestors a).map (symbolKey ·.name)).Nodup ∧
      (r.ancestors a).length ≤ r.classes.size ∧
      ∀ c, c ∈ r.ancestors a ↔ ∃ b, r.Reaches ancestorLinks a b ∧ r.class? b = some c) ∧
    (∀ a b, r.isSubclass a b = true ↔ symbolKey a = symbolKey b ∨
      (∃ c ∈ r.ancestors a, symbolKey c.name = symbolKey b) ∨
      ∃ d, r.Reaches ancestorLinks a d ∧ r.Unknown d) ∧
    (∀ a, r.isSubclass a a = true) ∧
    (∀ a b c, r.isSubclass a b = true → r.isSubclass b c = true → r.isSubclass a c = true) ∧
    ∀ a b, r.isSubclass a b = true → r.isStringable b = true → r.isStringable a = true := by
  have hfiled := hr.filed
  have hsearch : ∀ links a, ((r.reached links a).map (symbolKey ·.name)).Nodup ∧
      (r.reached links a).length ≤ r.classes.size ∧
      ∀ c, c ∈ r.reached links a ↔ ∃ b, r.Reaches links a b ∧ r.class? b = some c :=
    fun links a => ⟨(hfiled.nodup_reached a).1, (hfiled.nodup_reached a).2,
      fun _ => mem_reached_iff⟩
  exact ⟨hsearch parentLink, hsearch ancestorLinks, fun _ _ => isSubclass_iff,
    hfiled.isSubclass_refl, fun _ _ _ => hfiled.coherent.trans,
    fun _ _ => hfiled.coherent.stringable⟩

/-- Two classes that extend each other, one of which implements an interface that was
only mentioned. -/
def cycle : Registry :=
  ((({} : Registry).addClass { name := "A", parent := some "\\b" }).addClass
    { name := "B", parent := some "A", interfaces := ["I"] }).addUnknown "\\I"

/-- The circle is walked once, and its classes may inherit from any class. -/
theorem cycle_queries :
    cycle.Built ∧ ((cycle.ancestors "a").map (symbolKey ·.name)).Nodup ∧
      cycle.isSubclass "\\A" "C" = true := by
  have hbuilt : cycle.Built := .addUnknown (.addClass (.addClass (.empty .byName) _) _) _
  obtain ⟨-, hancestors, hsubclass, -⟩ := Built.hierarchy_queries hbuilt
  have hb : cycle.Reaches ancestorLinks "\\A" "B" :=
    .link (c := { name := "A", parent := some "\\b" }) (.refl _) (by cbv)
      (by simp [ancestorLinks]) (show symbolKey "\\b" = symbolKey "B" by cbv)
  have hi : cycle.Reaches ancestorLinks "\\A" "I" :=
    .link (c := { name := "B", parent := some "A", interfaces := ["I"] }) hb (by cbv)
      (by simp [ancestorLinks]) rfl
  have hunknown : cycle.Unknown "I" := by
    have hclass : cycle.class? "I" = some (.unknown "I") := by cbv
    simp [Unknown, hclass, ClassInfo.unknown]
  exact ⟨hbuilt, (hancestors "a").1, (hsubclass _ _).2 (.inr (.inr ⟨"I", hi, hunknown⟩))⟩

end Registry

end PhpCheck
