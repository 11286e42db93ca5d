import PhpCheck.Numeric.Read
import PhpCheck.Registry.Lookup
import PhpCheck.Scope.Narrowing

/-!
The types of the elements of arrays and other containers: reading one, writing
one, and going through all of them.
-/

namespace PhpCheck

namespace TyUnion

/-- Adds what an element of `t` may be.  An element of a text is a text, and what
is absent has null for its elements. -/
def addElement (found : TyUnion) : Ty → TyUnion
  | .map m | .list m => if m.isEmpty then found.add .mixed else found.union m
  | .string _ => found.add (.string none)
  | .null | .bool (some false) => found.add .null
  | .optional content _ => (addElement found content).add .null
  | _ => found.add .mixed

/-- The type of an element. -/
def element (u : TyUnion) : TyUnion :=
  let found := u.members.foldl addElement empty
  if found.isEmpty then mixed else found

/-! ### Writing -/

/-- Whether a key may be a text that does not read as an integer. -/
def isTextKey (key : TyUnion) : Bool :=
  !key.isUnknown && key.members.any fun
    | .string (some s) => (readInt64? 10 s.toList).isNone
    | .string none => true
    | _ => false

/-- An array of which one element is known. -/
def freshArray (textKey : Bool) (value : TyUnion) : Ty :=
  if textKey then .map value else .list value

/-- A container after an element was written.  What is absent becomes an array,
and what is no array stays as it is. -/
def writeElement (textKey : Bool) (value : TyUnion) (container : Ty) : Ty :=
  match container with
  | .list m | .optional (.list m) _ =>
    if textKey then .map (m.union value) else .list (m.union value)
  | .map m | .optional (.map m) _ => .map (m.union value)
  | .null | .bool (some false) => freshArray textKey value
  | other => other

/-- The type of a container after `value` was written at a key, or at its end if
there is no key.  A variable that is not bound becomes an array. -/
def withElement (current key : Option TyUnion) (value : TyUnion) : TyUnion :=
  let value := value.widened
  let textKey := key.any isTextKey
  let written := (current.getD empty).members.foldl
    (fun result t => result.add (writeElement textKey value t)) empty
  if written.isEmpty then of (freshArray textKey value) else written

end TyUnion

/-! ### Iteration -/

/-- The result type of a method; `mixed` if it is not known. -/
def Registry.methodResult (r : Registry) (className method : String) : TyUnion :=
  match r.findMember className .method method (some className) with
  | .found m | .inaccessible m =>
    match m.ty.single? with
    | some (.function f) => f.result
    | _ => m.ty
  | .missing => .mixed

/-- The types of the keys and of the values that a loop goes through. -/
structure Iteration where
  keys : TyUnion := .empty
  values : TyUnion := .empty
deriving Inhabited

namespace Iteration

/-- Adds what a loop over `t` goes through; over some values it does not go
through anything. -/
def add (r : Registry) (i : Iteration) : Ty → Iteration
  | .list m => { keys := i.keys.add (.int none), values := i.values.union m }
  | .map m =>
    { keys := (i.keys.add (.int none)).add (.string none), values := i.values.union m }
  | .optional content _ => add r i content
  | .null | .bool _ => i
  | .object className =>
    { keys := i.keys.add .mixed, values := i.values.union (r.methodResult className "current") }
  | _ => { keys := i.keys.add .mixed, values := i.values.add .mixed }

/-- What a loop over a subject goes through. -/
def of (r : Registry) (subject : TyUnion) : Iteration :=
  let i := subject.members.foldl (add r) {}
  { keys := i.keys.orElse .mixed, values := i.values.orElse .mixed }

end Iteration

/-! ### Objects -/

/-- What a member is asked of. -/
inductive Receiver where
  /-- Nothing is known of the value. -/
  | unknown
  | null
  | object (className : String)
  /-- A value without members. -/
  | scalar (ty : Ty)
deriving Inhabited

namespace Receiver

def same : Receiver → Receiver → Bool
  | .unknown, .unknown | .null, .null => true
  | .object a, .object b => a == b
  | .scalar a, .scalar b => a.same b
  | _, _ => false

def isScalar : Receiver → Bool
  | .scalar _ => true
  | _ => false

/-- Adds a receiver unless it is there already. -/
def addNew (rs : List Receiver) (r : Receiver) : List Receiver :=
  if rs.any (·.same r) then rs else rs ++ [r]

/-- Adds the receivers that a type stands for. -/
def add (rs : List Receiver) : Ty → List Receiver
  | .object name => addNew rs (.object name)
  | .function _ => addNew rs (.object "Closure")
  | .null => addNew rs .null
  | .mixed | .classOf _ => addNew rs .unknown
  | .optional content s =>
    add rs content ++ (if s.hasNull then [.null] else [])
      ++ (if s.hasFalse then [.scalar (.bool (some false))] else [])
  | other => addNew rs (.scalar other)

/-- The cases to be told apart when a member of a value is used. -/
def ofUnion (u : TyUnion) : List Receiver :=
  match u.members.foldl add [] with
  | [] => [.unknown]
  | rs => rs

end Receiver

end PhpCheck
