import PhpCheck.Check.Flow
import PhpCheck.Doc.Resolve
import PhpCheck.Registry.Lookup
import PhpCheck.Session.Basic
import PhpCheck.Tree.Node

/-!
The state of the analysis of a file, and the steps that change it.
-/

namespace PhpCheck

/-- How further files are brought into a session. -/
structure Loads where
  /-- Looks for the file that declares a name; whether one was analyzed. -/
  autoload : String → Session → Bool × Session
  /-- Analyzes a file to be included, perhaps only if that was not done before. -/
  includeFile : (path : String) → (once : Bool) → Session → IncludeOutcome × Session

/-- What stays the same during the analysis of a file. -/
structure Setting where
  file : String
  /-- The directory of the file. -/
  dir : String
  loads : Loads

/-- Why the rest of a file is not analyzed. -/
structure Abort where
  location : Location
  reason : String
deriving DecidableEq, Inhabited

structure Checker where
  session : Session
  scope : Scope
  /-- The findings, the latest first. -/
  diagnostics : List Diagnostic := []
  /-- While this is positive, findings that are not fatal are dropped. -/
  muted : Nat := 0
  /-- Where the declarations start that are known before they are reached. -/
  hoisted : List Nat := []
  /-- Classes that this file declares, by `symbolKey`. -/
  ownClasses : List String := []
  /-- Functions that this file declares, by `symbolKey`. -/
  ownFunctions : List String := []
  /-- Classes reported as missing, by `symbolKey`. -/
  missingClasses : List String := []
  /-- What the file returns, if it does. -/
  fileReturn : Option TyUnion := none
  /-- The number of the next snapshot of an environment. -/
  nextSnapshot : Nat := 0
deriving Inhabited

/-- A step of the analysis. -/
abbrev Check := ReaderT Setting (EStateM Abort Checker)

namespace Check

/-! ### The scope -/

def scope : Check Scope := do return (← get).scope

def modifyScope (f : Scope → Scope) : Check Unit := modify fun c => { c with scope := f c.scope }

def setScope (s : Scope) : Check Unit := modifyScope fun _ => s

def setEnv (e : Env) : Check Unit := modifyScope fun s => { s with env := e }

/-- A snapshot of an environment.  What is used more than once must be one. -/
def snapshot (e : Env) : Check Env := modifyGet fun c =>
  (e.numbered c.nextSnapshot, { c with nextSnapshot := c.nextSnapshot + 1 })

/-- A snapshot of the current environment. -/
def env : Check Env := do
  let e ← snapshot (← scope).env
  setEnv e
  return e

def lookup? (name : String) : Check (Option TyUnion) := do return (← scope).env.get? name

def bindVariable (name : String) (ty : TyUnion) : Check Unit := modifyScope (·.bind name ty)

def setNames (names : NameContext) : Check Unit := modifyScope fun s => { s with names }

/-- Reading what is not bound is no mistake here. -/
def tolerant : Check Bool := do
  let s ← scope
  return s.probing || s.including

/-- Takes a step in another scope, and leaves with the scope at its end.  That scope is
left also if the step ends the analysis. -/
def inScope {α : Type} (inner : Scope) (step : Check α) : Check (α × Scope) := do
  let outer ← scope
  setScope inner
  let a ← try step catch e => do
    setScope outer
    throw e
  let final ← scope
  setScope outer
  return (a, final)

/-- Takes a step while a value is being assigned. -/
def whileAssigning {α : Type} (value : TyUnion) (step : Check α) : Check α := do
  modifyScope fun s => { s with assigning := some value }
  let a ← step
  modifyScope fun s => { s with assigning := none }
  return a

/-- Takes a step in which reading what is not bound is no mistake. -/
def whileProbing {α : Type} (step : Check α) : Check α := do
  let before := (← scope).probing
  modifyScope fun s => { s with probing := true }
  let a ← step
  modifyScope fun s => { s with probing := before }
  return a

/-- Takes a step inside a loop, and leaves the loop with the jumps out of it. -/
def inLoop {α : Type} (step : Check α) : Check (α × Jumps) := do
  modifyScope Scope.enterLoop
  let a ← step
  let (jumps, outer) := (← scope).exitLoop
  setScope outer
  return (a, jumps)

/-! ### The session -/

def registry : Check Registry := do return (← get).session.registry

def hierarchy : Check Hierarchy := do return (← registry).hierarchy

def modifyRegistry (f : Registry → Registry) : Check Unit :=
  modify fun c => { c with session := c.session.modifyRegistry f }

def analyzerConfig : Check AnalyzerConfig := do return (← get).session.config.analyzer

/-- Lets the session do something. -/
def onSession {α : Type} (f : Session → α × Session) : Check α :=
  modifyGet fun c => let (a, s) := f c.session; (a, { c with session := s })

/-- Looks for the file that declares a name. -/
def autoload (name : String) : Check Bool := do onSession ((← read).loads.autoload name)

/-- The file that the target of an include stands for. -/
def resolveInclude? (target : String) : Check (Option String) := do
  return (← get).session.loader.resolveInclude? target (← read).dir

/-- Includes a file. -/
def includeFile (path : String) (once : Bool) : Check IncludeOutcome := do
  onSession ((← read).loads.includeFile path once)

/-! ### The file -/

def currentFile : Check String := do return (← read).file

def currentDir : Check String := do return (← read).dir

/-- Where the declarations start that are known before they are reached. -/
def hoistedStarts : Check (List Nat) := do return (← get).hoisted

def isHoisted (node : Node) : Check Bool := do return (← hoistedStarts).contains node.span.start

def noteHoisted (node : Node) : Check Unit :=
  modify fun c => { c with hoisted := node.span.start :: c.hoisted }

/-- Whether this file declares a class. -/
def isOwnClass (name : String) : Check Bool := do
  return (← get).ownClasses.contains (symbolKey name)

def noteClass (name : String) : Check Unit :=
  modify fun c => { c with ownClasses := symbolKey name :: c.ownClasses }

/-- Whether this file declares a function. -/
def isOwnFunction (name : String) : Check Bool := do
  return (← get).ownFunctions.contains (symbolKey name)

def noteFunction (name : String) : Check Unit :=
  modify fun c => { c with ownFunctions := symbolKey name :: c.ownFunctions }

/-- Adds to what the file returns. -/
def returnFromFile (ty : TyUnion) : Check Unit :=
  modify fun c => { c with fileReturn := some ((c.fileReturn.getD .empty).union ty) }

/-- What including the file evaluates to. -/
def fileValue : Check TyUnion := do return (← get).fileReturn.getD (.of (.int (some 1)))

/-! ### Findings -/

/-- Notes a finding at a node.  A fatal one ends the analysis of the file; others
are dropped while the checker is muted. -/
def report (kind : DiagnosticKind) (node : Node) (message : String) : Check Unit := do
  let location := Location.ofSpan (← read).file node.span
  let found : Diagnostic := ⟨kind, location, message⟩
  if kind.isFatal then
    modify fun c => { c with diagnostics := found :: c.diagnostics }
    throw ⟨location, message⟩
  else modify fun c =>
    if c.muted = 0 then { c with diagnostics := found :: c.diagnostics } else c

def isMuted : Check Bool := do return 0 < (← get).muted

def mute : Check Unit := modify fun c => { c with muted := c.muted + 1 }

def unmute : Check Unit := modify fun c => { c with muted := c.muted - 1 }

/-- Takes a step without noting what is found. -/
def quietly {α : Type} (step : Check α) : Check α := do
  mute
  let a ← step
  unmute
  return a

/-- Notes that a class is missing; whether that is to be reported, which it is
once. -/
def noteMissing (name : String) : Check Bool := modifyGet fun c =>
  if c.muted = 0 && !c.missingClasses.contains (symbolKey name) then
    (true, { c with missingClasses := symbolKey name :: c.missingClasses })
  else (false, c)

/-- Reports a missing class, once. -/
def reportMissing (name : String) (node : Node) : Check Unit := do
  if ← noteMissing name then
    report .classLoadFailure node ("class " ++ name ++ " could not be loaded")

/-- Reports a variable that is not bound.  That is done once on each path; where nothing
is reported it stays unbound, to be found undefined later. -/
def reportUndefined (name : String) (node : Node) : Check Unit := do
  report .undefinedName node
    (if name == Scope.this then "$this used outside of an object context"
      else s!"undefined variable ${name}")
  if name != Scope.this && !(← isMuted) then bindVariable name .mixed

/-- How type expressions are read in the current scope. -/
def typeContext (templates : List String) : Check TypeContext := do
  let s ← scope
  return { names := s.names, classContext := s.classContext, templates }

end Check

end PhpCheck
