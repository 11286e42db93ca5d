import PhpCheck.Types.Join
import PhpCheck.Types.Print

/-!
Operations on unions.
-/

namespace PhpCheck.TyUnion

def empty : TyUnion := ⟨[]⟩

def mixed : TyUnion := ⟨[.mixed]⟩

/-- The union of one type. -/
def of (t : Ty) : TyUnion := empty.add t

def ofList (ts : List Ty) : TyUnion := ts.foldl add empty

/-- The number of alternatives. -/
def count (u : TyUnion) : Nat := u.members.length

def isEmpty (u : TyUnion) : Bool := u.members.isEmpty

/-- Nothing can be checked of a value whose type is empty or `mixed`. -/
def isUnknown (u : TyUnion) : Bool := u.isEmpty || u.isMixed

def single? : TyUnion → Option Ty
  | ⟨[t]⟩ => some t
  | _ => none

/-- The value, when the union is one refined type. -/
def value? (u : TyUnion) : Option Constant := u.single?.bind Ty.value?

def hasKey (u : TyUnion) (key : String) : Bool := u.members.any (·.key == key)

def mayBeNull (u : TyUnion) : Bool :=
  u.members.any fun
    | .null | .mixed => true
    | .optional _ s => s.hasNull
    | _ => false

/-! ### Removing alternatives -/

/-- Which of the two sentinels a removal is about. -/
inductive Falsy where
  | null | false
deriving DecidableEq

/-- The sentinel that remains when one value is taken away. -/
def Falsy.strip (f : Falsy) (s : Sentinel) : Option Sentinel :=
  match f, s with
  | .null, .null | .false, .false => none
  | .null, .both => some .false
  | .false, .both => some .null
  | _, s => some s

/-- The sort of types that consist of the value alone. -/
def Falsy.key : Falsy → String
  | .null => "null"
  | .false => "false"

/-- A type without one of the falsy values: nothing if it had no other. -/
def Falsy.remove (f : Falsy) (t : Ty) : Option Ty :=
  match f, t with
  | .false, .bool (some Bool.false) => none
  | .false, .bool none => some (.bool (some true))
  | f, .optional content s =>
    match f.strip s with
    | some s => some (content.makeOptional s)
    | none => some content
  | f, t => if t.key == f.key then none else some t

/-- A union without one of the falsy values. -/
def without (u : TyUnion) (f : Falsy) : TyUnion := ofList (u.members.filterMap f.remove)

def withoutNull (u : TyUnion) : TyUnion := u.without .null

/-- A union without the types of a sort.  The sorts of the falsy values also take
the value away from types that have others. -/
def excluding (u : TyUnion) (key : String) : TyUnion :=
  if key == Falsy.null.key then u.without .null
  else if key == Falsy.false.key then u.without .false
  else ofList (u.members.filter (·.key != key))

/-! ### Comparing unions -/

/-- The alternatives of either union that the other accepts. -/
def intersection (h : Hierarchy) (u v : TyUnion) : TyUnion :=
  if u.isMixed then v
  else if v.isMixed then u
  else ofList (u.members.flatMap fun a => v.members.filterMap fun b =>
    if a.matches h b then some a else if b.matches h a then some b else none)

/-- What is left of a type when the types `es` are taken away.  Content and
sentinels of an optional type are taken away apart. -/
def remainder (h : Hierarchy) (es : List Ty) (t : Ty) : List Ty :=
  match t with
  | .optional content s =>
    (if matchesAny h content es then [] else [content])
      ++ s.types.filter (fun v => !matchesAny h v es)
  | t => if matchesAny h t es then [] else [t]

/-- The alternatives of `u` that `v` does not accept. -/
def difference (h : Hierarchy) (u v : TyUnion) : TyUnion :=
  ofList (u.members.flatMap (remainder h v.members))

/-- Lenient test: some alternative of `u`, or the content of one, may be used as
some alternative of `e`. -/
def matchesSome (h : Hierarchy) (u e : TyUnion) : Bool :=
  u.isUnknown || e.isUnknown
    || u.members.any fun t => matchesAny h t e.members || match t with
      | .optional content _ => matchesAny h content e.members
      | _ => false

/-! ### Refinements -/

/-- Refines a union of one type to a value of the same sort. -/
def withValue (u : TyUnion) (c : Constant) : TyUnion :=
  match u.single? with
  | some t => if t.key == c.toTy.key then of c.toTy else u
  | none => u

/-- The union without refinements. -/
def widened (u : TyUnion) : TyUnion := ofList (u.members.map Ty.widened)

/-- The alternatives that count as true. -/
def truthy (u : TyUnion) : TyUnion := ofList (u.members.filterMap Ty.truthy?)

/-- The alternatives that count as false. -/
def falsy (u : TyUnion) : TyUnion := ofList (u.members.filterMap Ty.falsy?)

/-- Equal but for refinements. -/
def sameShape (u v : TyUnion) : Bool :=
  u.widened.compliesWith .flat v.widened && v.widened.compliesWith .flat u.widened

end PhpCheck.TyUnion
