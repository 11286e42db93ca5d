import Mathlib
import PhpCheck.Table

/-!
Tables as maps.

The entries of a table are in order, so it has one entry for a name, and two tables with the same
value at each name are the same table (`Table.ext_get?`).  A relation of the values at each name
is a relation of the entries one by one (`Table.rel_get?_iff`).
-/

namespace PhpCheck

namespace Table

variable {α : Type}

theorem find_eq_some_iff {entries : List (String × α)} (hsorted : (names entries).Pairwise (· < ·))
    {name : String} {value : α} : find entries name = some value ↔ (name, value) ∈ entries := by
  induction entries with
  | nil => simp [find]
  | cons entry rest ih =>
    obtain ⟨key, old⟩ := entry
    have hbound : ∀ other ∈ names rest, key < other := (List.pairwise_cons.1 hsorted).1
    rw [find, List.mem_cons, Prod.mk.injEq]
    split
    · rename_i hkey
      have hnew : (name, value) ∉ rest := fun hmem => by
        have hlt : key < name := hbound name (List.mem_map_of_mem hmem)
        exact String.lt_irrefl name (hkey ▸ hlt)
      simp [hkey, hnew, eq_comm]
    · rename_i hkey
      rw [ih (List.pairwise_cons.1 hsorted).2]
      simp [Ne.symm hkey]

theorem mem_values_iff {t : Table α} {value : α} :
    value ∈ t.values ↔ ∃ name, t.get? name = some value := by
  simp [values, get?, find_eq_some_iff t.sorted]

/-- Lists in the order of names that have the same members are the same. -/
theorem eq_of_mem_iff {β : Type} (f : β → String) {xs ys : List β}
    (hxs : xs.Pairwise (f · < f ·)) (hys : ys.Pairwise (f · < f ·))
    (hmem : ∀ b, b ∈ xs ↔ b ∈ ys) : xs = ys := by
  have hnodup {l : List β} (hl : l.Pairwise (f · < f ·)) : l.Nodup :=
    hl.imp fun {a b} (hlt : f a < f b) (heq : a = b) => String.lt_irrefl _ (heq ▸ hlt)
  refine ((List.perm_ext_iff_of_nodup (hnodup hxs) (hnodup hys)).2 hmem).eq_of_pairwise
    (fun a b _ _ hab hba => ?_) hxs hys
  exact absurd (String.lt_trans hab hba) (String.lt_irrefl _)

/-- A table is what it has at each name. -/
theorem ext_get? {t u : Table α} (hget : ∀ name, t.get? name = u.get? name) : t = u := by
  have hmem : ∀ entry, entry ∈ t.entries ↔ entry ∈ u.entries := fun (name, value) => by
    rw [← find_eq_some_iff t.sorted, ← find_eq_some_iff u.sorted]
    exact Eq.congr_left (hget name)
  exact ext_entries (eq_of_mem_iff Prod.fst (List.pairwise_map.1 t.sorted)
    (List.pairwise_map.1 u.sorted) hmem)

theorem insert_comm (t : Table α) {name other : String} (hne : name ≠ other) (value value' : α) :
    (t.insert name value).insert other value' = (t.insert other value').insert name value := by
  refine ext_get? fun key => ?_
  simp only [get?_insert]
  by_cases hname : name = key
  · have hother : other ≠ key := fun hother => hne (hname.trans hother.symm)
    rw [if_neg hother, if_pos hname, if_pos hname]
  · rw [if_neg hname, if_neg hname]

theorem mem_keys_iff {t : Table α} {name : String} : name ∈ t.keys ↔ (t.get? name).isSome := by
  simp [keys, names, get?, Option.isSome_iff_exists, find_eq_some_iff t.sorted]

theorem find_of_lt {key : String} {entries : List (String × α)}
    (hsorted : (names entries).Pairwise (· < ·)) (hbound : ∀ other ∈ names entries, key < other) :
    find entries key = none := by
  refine Option.eq_none_iff_forall_ne_some.2 fun value hfound => ?_
  have hmem : key ∈ names entries := List.mem_map_of_mem ((find_eq_some_iff hsorted).1 hfound)
  exact String.lt_irrefl key (hbound key hmem)

/-- Under the same names, the values at each name are related if the entries are, one by one. -/
theorem rel_find_iff {r : α → α → Prop} {xs ys : List (String × α)} (hnames : names xs = names ys)
    (hsorted : (names xs).Pairwise (· < ·)) :
    (∀ name, Option.Rel r (find xs name) (find ys name)) ↔
      ∀ p ∈ (xs.map Prod.snd).zip (ys.map Prod.snd), r p.1 p.2 := by
  induction xs generalizing ys with
  | nil =>
    obtain rfl : ys = [] := List.map_eq_nil_iff.1 hnames.symm
    simp only [find, List.map_nil, List.zip_nil_left, List.not_mem_nil, false_implies, implies_true,
      iff_true]
    exact fun _ => .none
  | cons x xs ih =>
    obtain ⟨y, ys, rfl⟩ : ∃ y ys', ys = y :: ys' := by
      cases ys with
      | nil => cases hnames
      | cons y ys => exact ⟨y, ys, rfl⟩
    obtain ⟨key, value⟩ := x
    obtain ⟨key', value'⟩ := y
    obtain ⟨rfl, htail⟩ : key = key' ∧ names xs = names ys := List.cons.inj hnames
    obtain ⟨hbound, hrest⟩ := List.pairwise_cons.1 hsorted
    have hxs : find xs key = none := find_of_lt hrest hbound
    have hys : find ys key = none := find_of_lt (htail ▸ hrest) (htail ▸ hbound)
    simp only [List.map_cons, List.zip_cons_cons, List.forall_mem_cons, ← ih htail hrest, find]
    constructor
    · refine fun h => ⟨?_, fun name => ?_⟩
      · have hkey := h key
        rw [if_pos rfl, if_pos rfl] at hkey
        cases hkey
        assumption
      · by_cases hname : key = name
        · rw [← hname, hxs, hys]
          exact .none
        · have hother := h name
          rwa [if_neg hname, if_neg hname] at hother
    · rintro ⟨hvalue, h⟩ name
      by_cases hname : key = name
      · rw [if_pos hname, if_pos hname]
        exact .some hvalue
      · rw [if_neg hname, if_neg hname]
        exact h name

theorem rel_get?_iff {r : α → α → Prop} {t u : Table α} :
    (∀ name, Option.Rel r (t.get? name) (u.get? name)) ↔
      t.keys = u.keys ∧ ∀ p ∈ t.values.zip u.values, r p.1 p.2 := by
  refine ⟨fun h => ?_, fun ⟨hkeys, h⟩ => (rel_find_iff hkeys t.sorted).2 h⟩
  have hkeys : t.keys = u.keys := by
    refine eq_of_mem_iff id t.sorted u.sorted fun name => ?_
    have hrel := h name
    rw [mem_keys_iff, mem_keys_iff]
    generalize t.get? name = a at hrel ⊢
    generalize u.get? name = b at hrel ⊢
    cases hrel <;> simp
  exact ⟨hkeys, (rel_find_iff hkeys t.sorted).1 h⟩

end Table

end PhpCheck
