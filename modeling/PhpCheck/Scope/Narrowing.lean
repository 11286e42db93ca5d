import PhpCheck.Scope.Env

/-!
What a condition tells of variables.  A condition splits an environment into the
one where it holds and the one where it does not.
-/

namespace PhpCheck

/-- The environments for the two outcomes of a condition. -/
structure Split where
  yes : Env
  no : Env
deriving Inhabited

namespace Split

/-- A condition that tells nothing.  Both outcomes have the same snapshot, if the
environment is one. -/
def unchanged (e : Env) : Split := ⟨e, e⟩

def negate (s : Split) : Split := ⟨s.no, s.yes⟩

/-- Both conditions hold; the second was split where the first one holds. -/
def both (s t : Split) : Split := ⟨t.yes, s.no.merge t.no⟩

/-- One of two conditions holds; the second was split where the first one does
not. -/
def either (s t : Split) : Split := ⟨s.yes.merge t.yes, t.no⟩

/-- The environment after a condition, whatever its outcome. -/
def joined (s : Split) : Env := s.yes.merge s.no

end Split

/-- A test of one variable. -/
inductive Narrowing where
  | truthy
  | isNull
  | isFalse
  | is (target : TyUnion)
  /-- The variable is bound and not null. -/
  | isSet
deriving Inhabited

namespace TyUnion

/-- Whether one of the alternatives includes `false`. -/
def mayBeFalse (u : TyUnion) : Bool :=
  u.members.any fun
    | .mixed | .bool none | .bool (some false) => true
    | .optional _ s => s.hasFalse
    | _ => false

/-- The single type `t`, if it is possible at all. -/
def onlyIf (possible : Bool) (t : Ty) : TyUnion := if possible then of t else empty

end TyUnion

namespace Narrowing

/-- The alternatives that pass a test and those that fail it. -/
def split (h : Hierarchy) (u : TyUnion) : Narrowing → TyUnion × TyUnion
  | .truthy => (u.truthy, u.falsy)
  | .isNull => (.onlyIf u.mayBeNull .null, u.withoutNull)
  | .isSet => (u.withoutNull, .onlyIf u.mayBeNull .null)
  | .isFalse => (.onlyIf u.mayBeFalse (.bool (some false)), u.without .false)
  | .is target =>
    if u.isMixed then (target, u) else (u.intersection h target, u.difference h target)

end Narrowing

/-- A union, or another in its place when it is empty. -/
def TyUnion.orElse (u other : TyUnion) : TyUnion := if u.isEmpty then other else u

/-- Splits an environment by a test of a variable.  An outcome that no
alternative has keeps the variable as it was.  An unbound variable is not
narrowed, but where it is set it has some type. -/
def Env.narrow (h : Hierarchy) (e : Env) (name : String) (test : Narrowing) : Split :=
  match e.get? name with
  | none => match test with
    | .isSet => ⟨e.set name .mixed, e⟩
    | _ => .unchanged e
  | some current =>
    let (yes, no) := test.split h current
    ⟨e.set name (yes.orElse current), e.set name (no.orElse current)⟩

/-- What is asked of variables. -/
inductive Condition where
  /-- Something that tells nothing of variables. -/
  | unknown
  | test (name : String) (asked : Narrowing)
  | negation (inner : Condition)
  | both (first second : Condition)
  | either (first second : Condition)
deriving Inhabited

namespace Condition

/-- Splits an environment by a condition.  The second of two conditions is asked
where the first one does not decide the outcome.  The state is the number of the
next snapshot. -/
def splitFrom (h : Hierarchy) : Condition → Env → StateM Nat Split
  | .unknown, e => return .unchanged (← snapshot e)
  | .test name asked, e => return (← snapshot e).narrow h name asked
  | .negation inner, e => return (← inner.splitFrom h e).negate
  | .both first second, e => do
    let s ← first.splitFrom h e
    return s.both (← second.splitFrom h s.yes)
  | .either first second, e => do
    let s ← first.splitFrom h e
    return s.either (← second.splitFrom h s.no)
where
  snapshot (e : Env) : StateM Nat Env := modifyGet fun next => (e.numbered next, next + 1)

/-- Splits an environment, of which no snapshots were taken yet. -/
def split (h : Hierarchy) (c : Condition) (e : Env) : Split := (c.splitFrom h e 0).1

end Condition

end PhpCheck
