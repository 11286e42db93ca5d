import PhpCheck.Scope.Narrowing

/-!
What checking a piece of code results in: a type, the way control leaves the
piece, and what a condition tells.
-/

namespace PhpCheck

/-- How control leaves a piece of code. -/
inductive Flow where
  /-- It goes on behind the piece. -/
  | normal
  /-- It leaves a loop or starts it over. -/
  | jump
  /-- It leaves the function or the program. -/
  | exit
deriving DecidableEq, Inhabited

namespace Flow

def isNormal (f : Flow) : Bool := f == .normal

/-- The flow of a piece with two paths. -/
def either : Flow → Flow → Flow
  | .normal, _ | _, .normal => .normal
  | .jump, _ | _, .jump => .jump
  | .exit, .exit => .exit

end Flow

/-- The result of a rule: the type of an expression, and the flow. -/
structure Inferred where
  ty : TyUnion
  flow : Flow
deriving Inhabited

namespace Inferred

/-- An expression, behind which control goes on. -/
def value (ty : TyUnion) : Inferred := ⟨ty, .normal⟩

/-- A piece of code without a value. -/
def statement (flow : Flow) : Inferred := ⟨.empty, flow⟩

end Inferred

/-- A truth value that may be known. -/
def truth (known : Option Bool) : TyUnion := .of (.bool known)

/-- A condition that was checked: its type, and the environments for its
outcomes. -/
structure Branches where
  ty : TyUnion
  split : Split
deriving Inhabited

namespace Branches

/-- A condition that tells nothing. -/
def unchanged (ty : TyUnion) (env : Env) : Branches := ⟨ty, .unchanged env⟩

/-- The outcome, where it is decided in advance. -/
def known? (b : Branches) : Option Bool :=
  match b.ty.value? with
  | some c => some c.isTruthy
  | none =>
    if b.ty.isUnknown then none
    else match b.ty.truthy.isEmpty, b.ty.falsy.isEmpty with
      | true, false => some false
      | false, true => some true
      | _, _ => none

end Branches

end PhpCheck
