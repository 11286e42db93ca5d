import PhpCheck.Scope.Names
import PhpCheck.Scope.Narrowing

/-!
The context in which a piece of code is checked.
-/

namespace PhpCheck

/-- The class whose body is being checked. -/
structure ClassContext where
  name : String
  parent : Option String := none
  /-- In a trait it is not known which class `$this` belongs to. -/
  isTrait : Bool := false
deriving DecidableEq, Inhabited

/-- The function whose body is being checked. -/
structure FunctionContext where
  /-- The name in messages. -/
  name : String
  /-- The type that results must have. -/
  declared : Option TyUnion := none
  /-- The types of the results seen so far. -/
  observed : TyUnion := .empty
  isGenerator : Bool := false
deriving Inhabited

/-- The environments in which jumps leave a loop or start it over. -/
structure Jumps where
  breaks : List Env := []
  continues : List Env := []
deriving Inhabited

structure Scope where
  env : Env := .empty
  names : NameContext := {}
  classContext : Option ClassContext := none
  isStatic : Bool := false
  function : Option FunctionContext := none
  /-- The type being written while the target of an assignment is visited. -/
  assigning : Option TyUnion := none
  /-- Reading a variable that is not bound is no mistake. -/
  probing : Bool := false
  /-- The file was included by another one. -/
  including : Bool := false
  /-- The loops around the code, innermost first. -/
  jumps : List Jumps := []
deriving Inhabited

namespace Scope

/-- The variable that holds the object a method was called on. -/
def this : String := "this"

/-- The outermost scope of a file. -/
def file (including : Bool) : Scope := { including }

/-- The scope of the body of a function or method: of the variables around it, only
`$this` is seen. -/
def functionBody (s : Scope) (function : FunctionContext) (isStatic : Bool) : Scope :=
  let env := match s.classContext, isStatic with
    | some c, false => Env.empty.set this (.of (if c.isTrait then .mixed else .object c.name))
    | _, _ => .empty
  { env, names := s.names, classContext := s.classContext, isStatic, function
    including := s.including }

/-- The scope of the body of a class. -/
def classBody (s : Scope) (c : ClassContext) : Scope :=
  { names := s.names, classContext := some c, including := s.including }

/-- The scope of an arrow function, which sees the variables around it. -/
def arrowBody (s : Scope) (function : FunctionContext) (isStatic : Bool) : Scope :=
  let body := s.functionBody function isStatic
  { body with env := match body.env.get? this with
    | some ty => s.env.set this ty
    | none => s.env.erase this }

/-- The class whose members may be used. -/
def callingClass (s : Scope) : Option String := s.classContext.map (·.name)

def bind (s : Scope) (name : String) (ty : TyUnion) : Scope :=
  { s with env := s.env.set name ty }

/-- Notes the type of a result. -/
def observeReturn (s : Scope) (ty : TyUnion) : Scope :=
  { s with function := s.function.map fun f => { f with observed := f.observed.union ty } }

/-- The types of the results seen so far. -/
def observed (s : Scope) : TyUnion := (s.function.map (·.observed)).getD .empty

def enterLoop (s : Scope) : Scope := { s with jumps := {} :: s.jumps }

/-- Leaves the innermost loop with the jumps out of its body. -/
def exitLoop (s : Scope) : Jumps × Scope :=
  match s.jumps with
  | [] => ({}, s)
  | j :: rest => (j, { s with jumps := rest })

/-- Notes that control leaves `depth` loops from here, or starts the last of them
over.  Jumps out of more loops than there are go nowhere. -/
def recordJump (s : Scope) (depth : Nat) (isContinue : Bool) : Scope :=
  if depth = 0 then s
  else { s with jumps := s.jumps.modify (depth - 1) fun j =>
    if isContinue then { j with continues := j.continues ++ [s.env] }
    else { j with breaks := j.breaks ++ [s.env] } }

end Scope

end PhpCheck
