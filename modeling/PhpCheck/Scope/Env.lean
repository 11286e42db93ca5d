import PhpCheck.Table
import PhpCheck.Types.Union

/-!
The types of local variables at a point of a program.  Where paths of control
meet, their environments are joined variable by variable.

Joining a type with itself widens it if it holds a number that is not equal to
itself.  So paths along which nothing was written must be told from paths that
wrote the same types: environments carry the number of the snapshot that they are,
and joining a snapshot with itself changes nothing.
-/

namespace PhpCheck

structure Env where
  bindings : Table TyUnion := .empty
  /-- The number of the snapshot that this is, unless it was written to since. -/
  snapshot : Option Nat := none
deriving Inhabited

namespace Env

def empty : Env := {}

def get? (e : Env) (name : String) : Option TyUnion := e.bindings.get? name

def contains (e : Env) (name : String) : Bool := e.bindings.contains name

def set (e : Env) (name : String) (ty : TyUnion) : Env := { bindings := e.bindings.insert name ty }

/-- Unbinds a variable; if it was not bound, nothing is written. -/
def erase (e : Env) (name : String) : Env :=
  if e.contains name then { bindings := e.bindings.erase name } else e

/-- Makes an environment a snapshot of that number, unless it is one already. -/
def numbered (e : Env) (number : Nat) : Env :=
  { e with snapshot := e.snapshot.or (some number) }

/-- Whether two environments are the same snapshot. -/
def isSnapshotOf (e other : Env) : Bool := e.snapshot.isSome && e.snapshot == other.snapshot

def size (e : Env) : Nat := e.bindings.size

def isEmpty (e : Env) : Bool := e.bindings.entries.isEmpty

/-- The variables that have a type, in order. -/
def variableNames (e : Env) : List String := e.bindings.keys

/-- Adds alternatives to the type of a variable, and tells whether that changed
anything.  A union that only names the same alternatives in another order stays
as it was. -/
def update (e : Env) (name : String) (ty : TyUnion) : Env × Bool :=
  match e.get? name with
  | none => (e.set name ty, true)
  | some old =>
    let joined := old.union ty
    if joined.same old then (e, false) else (e.set name joined, true)

/-- Updates an environment with all bindings of another, unless they are the same
snapshot. -/
def mergeReport (e other : Env) : Env × Bool :=
  if e.isSnapshotOf other then (e, false)
  else other.bindings.entries.foldl
    (fun (e, changed) (name, ty) =>
      let (e, more) := e.update name ty
      (e, changed || more))
    (e, false)

/-- The join of two environments.  A variable that only one of them binds keeps
its type. -/
def merge (e other : Env) : Env := (e.mergeReport other).1

/-- Whether joining with another environment changes anything. -/
def mergeChanges (e other : Env) : Bool := (e.mergeReport other).2

/-- The join of some environments. -/
def joinAll? : List Env → Option Env
  | [] => none
  | e :: rest => some (rest.foldl merge e)

/-- The same variables with the same types. -/
def same (e other : Env) : Bool :=
  e.variableNames == other.variableNames
    && (e.bindings.values.zip other.bindings.values).all fun (a, b) => a.same b

@[simp]
theorem get?_set (e : Env) (name other : String) (ty : TyUnion) :
    (e.set name ty).get? other = if name = other then some ty else e.get? other :=
  Table.get?_insert _ _ _ _

@[simp]
theorem set_set (e : Env) (name : String) (old new : TyUnion) :
    (e.set name old).set name new = e.set name new := by
  rw [set, set, set, Table.insert_insert]

/-- Joining a snapshot with itself changes nothing. -/
theorem merge_self {e : Env} (taken : e.snapshot.isSome) : e.merge e = e := by
  simp [merge, mergeReport, isSnapshotOf, taken]

end Env

/-- Environments under names, each as a snapshot. -/
structure NamedEnvs where
  table : Table Env := .empty
  /-- The number of the next snapshot. -/
  next : Nat := 0
deriving Inhabited

namespace NamedEnvs

/-- The environment under a name, which is empty at first. -/
def get (envs : NamedEnvs) (name : String) : Env := (envs.table.get? name).getD .empty

def put (envs : NamedEnvs) (name : String) (e : Env) : NamedEnvs :=
  ⟨envs.table.insert name (e.numbered envs.next), envs.next + 1⟩

end NamedEnvs

end PhpCheck
