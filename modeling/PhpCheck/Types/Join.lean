import PhpCheck.Types.Matches

/-!
Joining types.  Two types that one type can express are merged; a union keeps
what cannot be merged, and gives up on telling alternatives apart when there
would be too many.

Arrays are merged by joining their member types, so merging and joining lean on
each other.  The nesting depth of arrays, which joining does not increase, orders
them.
-/

namespace PhpCheck

mutual

/-- How deep arrays are nested in a type. -/
def Ty.arrayDepth (t : Ty) : Nat :=
  match t with
  | .map member => member.arrayDepth + 1
  | .list member => member.arrayDepth + 1
  | .optional content _ => content.arrayDepth
  | _ => 0
termination_by structural t

def TyUnion.arrayDepth (u : TyUnion) : Nat :=
  match u with
  | ⟨members⟩ => maxArrayDepth members
termination_by structural u

def maxArrayDepth (ts : List Ty) : Nat :=
  match ts with
  | [] => 0
  | t :: ts => max t.arrayDepth (maxArrayDepth ts)
termination_by structural ts

end

/-- The most members that a union has. -/
def maxMembers : Nat := 8

/-- Whether a type can take up a sentinel as its own absence. -/
def Ty.isPromotable (t s : Ty) : Bool :=
  match t, s with
  | .mixed, _ | .void, _ | .null, _ => false
  | .bool _, .bool _ => false
  | .bool (some false), .null => false
  | _, _ => true

/-- A type made optional by a sentinel type. -/
def Ty.promote? (t s : Ty) : Option Ty :=
  if t.isPromotable s then (Sentinel.ofTy? s).map t.makeOptional else none

mutual

/-- The single type for two types, if there is one.  Member types of arrays are
joined by `join`. -/
def Ty.combineWith (join : TyUnion → TyUnion → TyUnion) (a b : Ty) : Option Ty :=
  if b.matches .flat a then some a
  else if a.matches .flat b then some b
  else match a, b with
    | .bool _, .bool _ => some (.bool none)
    | .int _, .int _ => some (.int none)
    | .float _, .float _ | .int _, .float _ | .float _, .int _ => some (.float none)
    | .string _, .string _ => some (.string none)
    | .list x, .list y => some (.list (join x y))
    | .list x, .map y | .map x, .list y | .map x, .map y => some (.map (join x y))
    | .function _, .function _ => some .callable
    | .optional x s, .optional y t =>
      (x.combineWith join y).map fun content => content.makeOptional (s.union t)
    | .optional content s, t => content.absorb join s t
    | t, .optional content s => content.absorb join s t
    | t, s => (t.promote? s).or (s.promote? t)
termination_by (a.size + b.size, 1)
decreasing_by
  all_goals simp only [Ty.size]
  all_goals first
    | exact Prod.Lex.left _ _ (by omega)

/-- The optional type with `content` and sentinel `s` that also covers `t`. -/
def Ty.absorb (join : TyUnion → TyUnion → TyUnion) (content : Ty) (s : Sentinel) (t : Ty) :
    Option Ty :=
  match Sentinel.ofTy? t with
  | some other => some (content.makeOptional (s.union other))
  | none => (content.combineWith join t).map fun content => content.makeOptional s
termination_by (content.size + t.size, 2)

end

/-- The first of some types for which `f` has a result: that result and the other
types. -/
def pick? {β : Type} (f : Ty → Option β) : List Ty → Option (β × List Ty)
  | [] => none
  | t :: ts =>
    match f t with
    | some b => some (b, ts)
    | none => (pick? f ts).map fun (b, others) => (b, t :: others)

theorem pick?_length {β : Type} {f : Ty → Option β} {ts others : List Ty} {b : β}
    (found : pick? f ts = some (b, others)) : others.length < ts.length := by
  induction ts generalizing b others with
  | nil => simp [pick?] at found
  | cons t ts ih =>
    unfold pick? at found
    split at found
    · obtain ⟨rfl, rfl⟩ := by simpa using found
      simp
    · cases rest : pick? f ts with
      | none => simp [rest] at found
      | some result =>
        obtain ⟨b', others'⟩ := result
        have shorter := ih rest
        simp only [rest, Option.map_some, Option.some.injEq, Prod.mk.injEq] at found
        obtain ⟨_, rfl⟩ := found
        simpa using shorter

/-- The member that a type merges with: the result of merging, and the members
that are left.  The first member of the same sort is tried before all others. -/
def merge? (combine : Ty → Ty → Option Ty) (members : List Ty) (t : Ty) :
    Option (Ty × List Ty) :=
  let sameSort := pick? (fun m => if m.key == t.key then some m else none) members
  match sameSort.bind fun (m, others) => (combine m t).map fun merged => (merged, others) with
  | some result => some result
  | none => pick? (combine · t) members

theorem merge?_length {combine : Ty → Ty → Option Ty} {members others : List Ty} {t merged : Ty}
    (found : merge? combine members t = some (merged, others)) :
    others.length < members.length := by
  unfold merge? at found
  simp only at found
  split at found
  · rename_i result sameSort
    obtain ⟨⟨m, rest⟩, picked, combined⟩ := Option.bind_eq_some_iff.1 sameSort
    simp only [Option.map_eq_some_iff] at combined
    obtain ⟨_, _, rfl⟩ := combined
    obtain ⟨_, rfl⟩ := by simpa using found
    exact pick?_length picked
  · exact pick?_length found

/-- Adds a type to the members of a union.  A merged type is added in turn, since
it may cover further members. -/
def addWith (combine : Ty → Ty → Option Ty) (members : List Ty) (t : Ty) : List Ty :=
  match t with
  | .void => members
  | .mixed => [.mixed]
  | t =>
    if members matches [.mixed] then members
    else
      let result := match _found : merge? combine members t with
        | some (merged, others) => addWith combine others merged
        | none => members ++ [t]
      if result.length > maxMembers then [.mixed] else result
termination_by members.length
decreasing_by exact merge?_length _found

/-- Joins unions whose arrays are nested less than `depth` deep. -/
def joinWithin : (depth : Nat) → TyUnion → TyUnion → TyUnion
  | 0, u, _ => u
  | depth + 1, u, v => ⟨v.members.foldl (addWith (Ty.combineWith (joinWithin depth))) u.members⟩

/-- The single type for two types, if there is one. -/
def Ty.combine? (a b : Ty) : Option Ty :=
  a.combineWith (joinWithin (max a.arrayDepth b.arrayDepth)) b

namespace TyUnion

/-- Adds an alternative to a union. -/
def add (u : TyUnion) (t : Ty) : TyUnion :=
  ⟨addWith (Ty.combineWith (joinWithin (max u.arrayDepth t.arrayDepth))) u.members t⟩

/-- The alternatives of both unions. -/
def union (u v : TyUnion) : TyUnion := v.members.foldl add u

end TyUnion

end PhpCheck
