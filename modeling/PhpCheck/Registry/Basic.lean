import PhpCheck.Registry.Class

/-!
All classes, functions and constants that are known.
-/

namespace PhpCheck

structure Registry where
  /-- Classes by `symbolKey`. -/
  classes : Table ClassInfo := .empty
  /-- Functions by `symbolKey`. -/
  functions : Table Signature := .empty
  /-- Constants by their exact name without leading backslashes. -/
  constants : Table TyUnion := .empty
  /-- How the members of the classes are gone through. -/
  order : ClassInfo.Order := .byName
deriving Inhabited

namespace Registry

/-! ### Classes -/

def class? (r : Registry) (name : String) : Option ClassInfo := r.classes.get? (symbolKey name)

def hasClass (r : Registry) (name : String) : Bool := (r.class? name).isSome

/-- A class whose declaration is known. -/
def declaredClass? (r : Registry) (name : String) : Option ClassInfo :=
  (r.class? name).filter (!·.placeholder)

/-- Puts a class in its place, whatever stands there. -/
def putClass (r : Registry) (c : ClassInfo) : Registry :=
  { r with classes := r.classes.insert (symbolKey c.name) c }

/-- Adds a class unless its declaration is known already. -/
def addClass (r : Registry) (c : ClassInfo) : Registry :=
  if (r.declaredClass? c.name).isSome then r else r.putClass c

/-- Notes that a class of this name may exist. -/
def addUnknown (r : Registry) (name : String) : Registry :=
  if r.hasClass name then r else r.putClass (.unknown name)

def modifyClass (r : Registry) (name : String) (f : ClassInfo → ClassInfo) : Registry :=
  { r with classes := r.classes.modify (symbolKey name) f }

/-- Gives a method a new signature. -/
def updateMethod (r : Registry) (className method : String) (f : Signature) : Registry :=
  r.modifyClass className fun c =>
    match [MemberKind.method, .staticMethod].find? fun kind => (c.table kind).contains method with
    | some kind => c.withTable kind
        ((c.table kind).modify method fun m => { m with ty := .of (.function f) })
    | none => c

/-! ### Functions and constants -/

def function? (r : Registry) (name : String) : Option Signature :=
  r.functions.get? (symbolKey name)

def updateFunction (r : Registry) (name : String) (f : Signature) : Registry :=
  { r with functions := r.functions.insert (symbolKey name) f }

/-- Adds a function; the first of a name stays. -/
def addFunction (r : Registry) (name : String) (f : Signature) : Registry :=
  if (r.function? name).isSome then r else r.updateFunction name f

@[simp]
theorem function?_updateFunction (r : Registry) (name other : String) (f : Signature) :
    (r.updateFunction name f).function? other =
      if symbolKey name = symbolKey other then some f else r.function? other :=
  Table.get?_insert r.functions (symbolKey name) (symbolKey other) f

theorem function?_addFunction (r : Registry) (name other : String) (f : Signature) :
    (r.addFunction name f).function? other =
      (r.function? other).or (if symbolKey name = symbolKey other then some f else none) := by
  unfold addFunction
  by_cases same : symbolKey name = symbolKey other
  · have here : r.function? name = r.function? other := by rw [function?, function?, same]
    rw [here, if_pos same]
    cases known : r.function? other <;> simp [known, same]
  · rw [if_neg same, Option.or_none]
    split
    · rfl
    · rw [function?_updateFunction, if_neg same]

@[simp, grind =]
theorem functions_addClass (r : Registry) (c : ClassInfo) :
    (r.addClass c).functions = r.functions := by
  unfold addClass
  split <;> rfl

@[simp, grind =]
theorem functions_addUnknown (r : Registry) (name : String) :
    (r.addUnknown name).functions = r.functions := by
  unfold addUnknown
  split <;> rfl

@[simp, grind =]
theorem functions_modifyClass (r : Registry) (name : String) (f : ClassInfo → ClassInfo) :
    (r.modifyClass name f).functions = r.functions := rfl

@[simp, grind =]
theorem functions_updateMethod (r : Registry) (className method : String) (f : Signature) :
    (r.updateMethod className method f).functions = r.functions := rfl

def constant? (r : Registry) (name : String) : Option TyUnion :=
  r.constants.get? (unrooted name)

/-- Adds a constant; the first of a name stays. -/
def addConstant (r : Registry) (name : String) (ty : TyUnion) : Registry :=
  if (r.constant? name).isSome then r
  else { r with constants := r.constants.insert (unrooted name) ty }

@[simp, grind =]
theorem functions_addConstant (r : Registry) (name : String) (ty : TyUnion) :
    (r.addConstant name ty).functions = r.functions := by
  unfold addConstant
  split <;> rfl

end Registry

end PhpCheck
