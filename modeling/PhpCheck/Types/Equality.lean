import PhpCheck.Types.Basic

/-!
Equality of types.  The order of the members of a union does not matter, and
floating point refinements are compared as numbers.
-/

namespace PhpCheck

/-- Two refinements are the same. -/
def sameFloat : Option Double → Option Double → Bool
  | none, none => true
  | some a, some b => a.same b
  | _, _ => false

mutual

def Ty.same (a b : Ty) : Bool :=
  match a with
  | .mixed => (b matches .mixed)
  | .void => (b matches .void)
  | .null => (b matches .null)
  | .resource => (b matches .resource)
  | .bool x => match b with
    | .bool y => x == y
    | _ => false
  | .int x => match b with
    | .int y => x == y
    | _ => false
  | .float x => match b with
    | .float y => sameFloat x y
    | _ => false
  | .string x => match b with
    | .string y => x == y
    | _ => false
  | .map x => match b with
    | .map y => x.same y
    | _ => false
  | .list x => match b with
    | .list y => x.same y
    | _ => false
  | .function x => match b with
    | .function y => x.same y
    | _ => false
  | .classOf x => match b with
    | .classOf y => x == y
    | _ => false
  | .object x => match b with
    | .object y => x == y
    | _ => false
  | .optional x s => match b with
    | .optional y t => x.same y && s == t
    | _ => false
termination_by structural a

/-- Equal unions have as many members, and each member of one is a member of the
other. -/
def TyUnion.same (a b : TyUnion) : Bool :=
  match a with
  | ⟨xs⟩ => xs.length == b.members.length && allAmong xs b.members
termination_by structural a

def allAmong (xs ys : List Ty) : Bool :=
  match xs with
  | [] => true
  | x :: xs => ys.any (fun y => x.same y) && allAmong xs ys
termination_by structural xs

def Signature.same (a b : Signature) : Bool :=
  match a with
  | ⟨name, params, result, declared, callbacks, any⟩ =>
    name == b.name && sameParams params b.params && result.same b.result
      && declared == b.declared && callbacks == b.callbacks && any == b.any
termination_by structural a

def sameParams (xs ys : List Param) : Bool :=
  match xs with
  | [] => ys.isEmpty
  | x :: xs => match ys with
    | [] => false
    | y :: ys => x.same y && sameParams xs ys
termination_by structural xs

def Param.same (a b : Param) : Bool :=
  match a with
  | ⟨name, ty, byRef, hasDefault, variadic⟩ =>
    name == b.name && sameUnion? ty b.ty && byRef == b.byRef && hasDefault == b.hasDefault
      && variadic == b.variadic
termination_by structural a

def sameUnion? (a b : Option TyUnion) : Bool :=
  match a with
  | none => b.isNone
  | some x => match b with
    | none => false
    | some y => x.same y
termination_by structural a

end

end PhpCheck
