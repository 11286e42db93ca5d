import PhpCheck.Registry.Basic

/-!
Which classes a class inherits from.  Names may lead to classes that are not
registered, and in circles; every name is entered once.
-/

namespace PhpCheck.Registry

/-- The registered names that a search has not entered. -/
def unseen (r : Registry) (seen : List String) : List String :=
  r.classes.keys.filter (!seen.contains ·)

theorem length_filter_lt {p q : String → Bool} {names : List String} {name : String}
    (found : name ∈ names) (old : p name) (new : ¬ q name) (sub : ∀ x, q x → p x) :
    (names.filter q).length < (names.filter p).length := by
  have split : (names.filter p).filter q = names.filter q := by
    rw [List.filter_filter]
    refine List.filter_congr fun x _ => ?_
    cases h : q x
    · rfl
    · simp [sub x h]
  rw [← split]
  exact List.length_filter_lt_length_iff_exists.2
    ⟨name, List.mem_filter.2 ⟨found, old⟩, by simpa using new⟩

theorem mem_names_of_find {α : Type} {entries : List (String × α)} {name : String} {value : α}
    (found : Table.find entries name = some value) : name ∈ names entries := by
  induction entries with
  | nil => simp [Table.find] at found
  | cons entry rest ih =>
    obtain ⟨key, old⟩ := entry
    by_cases here : key = name
    · simp [names, here]
    · simp only [Table.find, here, if_false] at found
      exact List.mem_cons_of_mem _ (ih found)

theorem unseen_lt {r : Registry} {seen : List String} {key : String}
    (known : (r.classes.get? key).isSome) (new : seen.contains key = false) :
    (r.unseen (key :: seen)).length < (r.unseen seen).length := by
  obtain ⟨c, found⟩ := Option.isSome_iff_exists.1 known
  refine length_filter_lt (mem_names_of_find found) (by simpa using new) (by simp)
    fun x later => ?_
  simp only [List.contains_cons, Bool.not_or, Bool.and_eq_true] at later
  exact later.2

theorem unseen_le (r : Registry) (seen : List String) (key : String) :
    (r.unseen (key :: seen)).length ≤ (r.unseen seen).length := by
  simp only [unseen, ← List.countP_eq_length_filter]
  refine List.countP_mono_left fun x _ later => ?_
  simp only [List.contains_cons, Bool.not_or, Bool.and_eq_true] at later
  exact later.2

/-- The names that lead on from some names by `links`, each with what is
registered for it, in the order in which a search enters them.  What a class
links to is searched before what was left aside. -/
def reach (r : Registry) (links : ClassInfo → List String) (pending seen : List String) :
    List (String × Option ClassInfo) :=
  match pending with
  | [] => []
  | name :: rest =>
    if seen.contains (symbolKey name) then r.reach links rest seen
    else
      match _found : r.class? name with
      | none => (name, none) :: r.reach links rest (symbolKey name :: seen)
      | some c => (name, some c) :: r.reach links (links c ++ rest) (symbolKey name :: seen)
termination_by ((r.unseen seen).length, pending.length)
decreasing_by
  · exact Prod.Lex.right _ (by simp)
  · rcases Nat.lt_or_eq_of_le (r.unseen_le seen (symbolKey name)) with less | same
    · exact Prod.Lex.left _ _ less
    · rw [same]
      exact Prod.Lex.right _ (by simp)
  · rename_i new
    have known : (r.classes.get? (symbolKey name)).isSome :=
      Option.isSome_iff_exists.2 ⟨c, _found⟩
    exact Prod.Lex.left _ _ (unseen_lt known (by simpa using new))

/-- The parent of a class. -/
def parentLink (c : ClassInfo) : List String := c.parent.toList

/-- What a class extends or implements: interfaces come before the parent. -/
def ancestorLinks (c : ClassInfo) : List String := c.interfaces ++ c.parent.toList

/-- A class, its parent, the parent's parent, and so on. -/
def parentChain (r : Registry) (name : String) : List ClassInfo :=
  (r.reach parentLink [name] []).filterMap Prod.snd

/-- A class and every class and interface that it extends or implements. -/
def ancestors (r : Registry) (name : String) : List ClassInfo :=
  (r.reach ancestorLinks [name] []).filterMap Prod.snd

/-- Whether a class is, or inherits from, a class whose declaration is not
known. -/
def hasUnknownAncestor (r : Registry) (name : String) : Bool :=
  (r.reach ancestorLinks [name] []).any fun (_, c) => c.all (·.placeholder)

/-- Whether the first class is the second or inherits from it.  A class with
unknown ancestors may inherit from any. -/
def isSubclass (r : Registry) (child ancestor : String) : Bool :=
  symbolKey child == symbolKey ancestor
    || (r.ancestors child).any (symbolKey ·.name == symbolKey ancestor)
    || r.hasUnknownAncestor child

/-- Whether a class or one of its ancestors has a method. -/
def hasMethod (r : Registry) (name method : String) : Bool :=
  (r.ancestors name).any fun c => (c.method? method r.order).isSome

/-- Whether instances of a class convert to text. -/
def isStringable (r : Registry) (name : String) : Bool :=
  r.isSubclass name "Stringable" || r.hasMethod name "__toString"

def hierarchy (r : Registry) : Hierarchy :=
  { isSubclass := r.isSubclass, isStringable := r.isStringable }

end PhpCheck.Registry
