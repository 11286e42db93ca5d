/-!
Finite maps from names, kept in the order of the names.  The order makes the
entries of a table a canonical form: what a table holds does not show how it was
built.
-/

namespace PhpCheck

/-- The names of some entries, in order. -/
def names {α : Type} (entries : List (String × α)) : List String := entries.map Prod.fst

/-- A finite map from names. -/
structure Table (α : Type) where
  entries : List (String × α)
  sorted : (names entries).Pairwise (· < ·) := by decide

namespace Table

variable {α : Type}

theorem ext_entries {t u : Table α} (same : t.entries = u.entries) : t = u := by
  cases t
  cases u
  cases same
  rfl

instance : Inhabited (Table α) := ⟨⟨[], by simp [names]⟩⟩

def empty : Table α := ⟨[], by simp [names]⟩

/-- The value at a name in ordered entries. -/
def find : List (String × α) → String → Option α
  | [], _ => none
  | (key, value) :: rest, name => if key = name then some value else find rest name

def get? (t : Table α) (name : String) : Option α := find t.entries name

def contains (t : Table α) (name : String) : Bool := (t.get? name).isSome

def size (t : Table α) : Nat := t.entries.length

def keys (t : Table α) : List String := names t.entries

def values (t : Table α) : List α := t.entries.map Prod.snd

/-- Puts a value at a name, in place of any value there. -/
def place (name : String) (value : α) : List (String × α) → List (String × α)
  | [] => [(name, value)]
  | (key, old) :: rest =>
    if name < key then (name, value) :: (key, old) :: rest
    else if name = key then (name, value) :: rest
    else (key, old) :: place name value rest

theorem mem_names_place {name key : String} {value : α} {entries : List (String × α)}
    (found : key ∈ names (place name value entries)) : key = name ∨ key ∈ names entries := by
  induction entries with
  | nil => simpa [place, names] using found
  | cons entry rest ih =>
    obtain ⟨first, old⟩ := entry
    unfold place at found
    split at found
    · simpa [names] using found
    · split at found
      · simp only [names, List.map_cons, List.mem_cons] at found ⊢
        rcases found with rfl | found
        · exact .inl rfl
        · exact .inr (.inr found)
      · simp only [names, List.map_cons, List.mem_cons] at found ⊢
        rcases found with rfl | found
        · exact .inr (.inl rfl)
        · exact (ih found).imp id .inr

theorem sorted_place {name : String} {value : α} {entries : List (String × α)}
    (sorted : (names entries).Pairwise (· < ·)) :
    (names (place name value entries)).Pairwise (· < ·) := by
  induction entries with
  | nil => simp [place, names]
  | cons entry rest ih =>
    obtain ⟨key, old⟩ := entry
    have bound : ∀ other ∈ names rest, key < other := (List.pairwise_cons.1 sorted).1
    have tail : (names rest).Pairwise (· < ·) := (List.pairwise_cons.1 sorted).2
    unfold place
    split
    · rename_i before
      refine List.pairwise_cons.2 ⟨fun other found => ?_, sorted⟩
      rcases List.mem_cons.1 found with rfl | found
      · exact before
      · exact String.lt_trans before (bound other found)
    · split
      · rename_i same
        subst same
        exact sorted
      · rename_i notBefore notSame
        refine List.pairwise_cons.2 ⟨fun other found => ?_, ih tail⟩
        rcases mem_names_place found with rfl | found
        · exact Std.lt_of_le_of_ne (Std.not_lt.1 notBefore) (Ne.symm notSame)
        · exact bound other found

def insert (t : Table α) (name : String) (value : α) : Table α :=
  ⟨place name value t.entries, sorted_place t.sorted⟩

def erase (t : Table α) (name : String) : Table α :=
  ⟨t.entries.filter (·.1 != name), t.sorted.sublist (List.filter_sublist.map Prod.fst)⟩

/-- Changes every value. -/
def map {β : Type} (f : String → α → β) (t : Table α) : Table β :=
  ⟨t.entries.map fun (key, value) => (key, f key value), by
    have : names (t.entries.map fun (key, value) => (key, f key value)) = names t.entries := by
      simp [names, Function.comp_def]
    simpa only [this] using t.sorted⟩

/-- Changes the value at a name, if there is one. -/
def modify (t : Table α) (name : String) (f : α → α) : Table α :=
  t.map fun key value => if key = name then f value else value

/-- Adds entries in turn; later ones win. -/
def ofList (entries : List (String × α)) : Table α :=
  entries.foldl (fun t (key, value) => t.insert key value) empty

theorem find_place (name other : String) (value : α) (entries : List (String × α)) :
    find (place name value entries) other =
      if name = other then some value else find entries other := by
  induction entries with
  | nil => simp [place, find]
  | cons entry rest ih =>
    obtain ⟨key, old⟩ := entry
    unfold place
    split
    · simp [find]
    · split
      · rename_i same
        subst same
        by_cases here : name = other <;> simp [find, here]
      · rename_i notSame
        by_cases here : key = other
        · have : name ≠ other := fun same => notSame (same.trans here.symm)
          simp [find, here, this]
        · simp [find, here, ih]

@[simp]
theorem get?_insert (t : Table α) (name other : String) (value : α) :
    (t.insert name value).get? other = if name = other then some value else t.get? other :=
  find_place name other value t.entries

theorem find_map {β : Type} (f : String → α → β) (entries : List (String × α)) (name : String) :
    find (entries.map fun entry => (entry.1, f entry.1 entry.2)) name =
      (find entries name).map (f name) := by
  induction entries with
  | nil => rfl
  | cons entry rest ih =>
    rw [List.map_cons, find, find, ih]
    by_cases here : entry.1 = name <;> simp [here]

@[simp]
theorem get?_map {β : Type} (f : String → α → β) (t : Table α) (name : String) :
    (t.map f).get? name = (t.get? name).map (f name) :=
  find_map f t.entries name

theorem place_map {β : Type} (f : String → α → β) (name : String) (value : α)
    (entries : List (String × α)) :
    (place name value entries).map (fun entry => (entry.1, f entry.1 entry.2)) =
      place name (f name value) (entries.map fun entry => (entry.1, f entry.1 entry.2)) := by
  induction entries with
  | nil => rfl
  | cons entry rest ih =>
    obtain ⟨key, old⟩ := entry
    rw [List.map_cons, place, place]
    split
    · rfl
    · split
      · rfl
      · rw [List.map_cons, ih]

theorem insert_map {β : Type} (f : String → α → β) (t : Table α) (name : String) (value : α) :
    (t.insert name value).map f = (t.map f).insert name (f name value) :=
  ext_entries (place_map f name value t.entries)

theorem place_place (name : String) (old new : α) (entries : List (String × α)) :
    place name new (place name old entries) = place name new entries := by
  induction entries with
  | nil => simp [place]
  | cons entry rest ih =>
    obtain ⟨key, value⟩ := entry
    by_cases hlt : name < key
    · simp [place, hlt]
    · by_cases heq : name = key
      · simp [place, heq]
      · simp [place, hlt, heq, ih]

/-- The value put at a name last is the one that counts. -/
@[simp]
theorem insert_insert (t : Table α) (name : String) (old new : α) :
    (t.insert name old).insert name new = t.insert name new :=
  ext_entries (place_place name old new t.entries)

@[simp]
theorem get?_empty (name : String) : (empty : Table α).get? name = none := rfl

end Table

end PhpCheck
