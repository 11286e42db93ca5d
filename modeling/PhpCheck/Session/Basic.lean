import PhpCheck.Builtin.Basic
import PhpCheck.Loader
import PhpCheck.Report.Basic

/-!
What an analysis of several files keeps between them.  The analysis of a file may
need another file, which is then analyzed in the same session before the first
one goes on.
-/

namespace PhpCheck

/-- The result of analyzing a file. -/
structure FileOutcome where
  report : Report
  /-- What including the file evaluates to. -/
  value : TyUnion
  /-- The file was analyzed for another one, whose variables it may use. -/
  included : Bool
deriving Inhabited

/-- What came of including a file. -/
inductive IncludeOutcome where
  | analyzed (value : TyUnion)
  /-- The file was to be included once, and has been. -/
  | alreadyIncluded
  /-- The file is itself under analysis. -/
  | inProgress
  | failed
deriving Inhabited

/-- What a file is analyzed for. -/
inductive Cause where
  /-- The file was asked for. -/
  | direct
  /-- Another file includes it, and may share variables with it. -/
  | included
  /-- It is to declare a name. -/
  | autoloaded
deriving DecidableEq, Inhabited

def Cause.isInclude (c : Cause) : Bool := c == .included

/-- A change of the files under analysis. -/
inductive Event where
  | entered (path : String) (cause : Cause)
  | left (path : String) (outcome : FileOutcome)
deriving Inhabited

/-- An event, and the files under analysis right after it. -/
structure Moment where
  event : Event
  inProgress : List String
  depth : Nat
deriving Inhabited

structure Session where
  registry : Registry
  loader : Loader
  config : Config
  /-- The files under analysis, the latest first. -/
  inProgress : List String := []
  /-- Outcomes by normalized path. -/
  results : Table FileOutcome := .empty
  /-- The files in the order in which their first analysis ended. -/
  order : List String := []
  /-- How many files are under analysis. -/
  depth : Nat := 0
  /-- The names, by `symbolKey`, for which a file was looked for. -/
  attempted : List String := []
  /-- The log of analyses that started and ended, the latest first. -/
  journal : List Moment := []
deriving Inhabited

namespace Session

/-- A session that knows what is built in.  How the members of classes are gone through is not up
to it. -/
def start (config : Config) (loader : Loader) (order : ClassInfo.Order := .byName) : Session :=
  { registry := { Builtin.registry with order }, loader, config }

/-- The reports on all files. -/
def reports (s : Session) : List Report :=
  s.order.filterMap fun path => (s.results.get? path).map (·.report)

def outcome? (s : Session) (path : String) : Option FileOutcome :=
  s.results.get? (Path.normalize path)

/-- The report on a file that was analyzed for itself.  The outcome of an include
does not take its place. -/
def directReport? (s : Session) (path : String) : Option Report :=
  ((s.results.get? path).filter (!·.included)).map (·.report)

def isInProgress (s : Session) (path : String) : Bool := s.inProgress.contains path

/-- No further file may be loaded. -/
def isExhausted (s : Session) : Bool := s.config.analyzer.maxLoadDepth ≤ s.depth

/-- Notes that a file was looked for that declares a name. -/
def attempt (s : Session) (key : String) : Session := { s with attempted := key :: s.attempted }

/-- Notes an event. -/
def log (s : Session) (event : Event) : Session :=
  { s with journal := ⟨event, s.inProgress, s.depth⟩ :: s.journal }

/-- Starts the analysis of a file. -/
def enter (s : Session) (path : String) (cause : Cause) : Session :=
  let s := { s with inProgress := path :: s.inProgress, depth := s.depth + 1 }
  s.log (.entered path cause)

/-- Ends the analysis of a file. -/
def leave (s : Session) (path : String) (outcome : FileOutcome) : Session :=
  let s := { s with
    inProgress := s.inProgress.filter (· != path)
    depth := s.depth - 1
    order := if s.results.contains path then s.order else s.order ++ [path]
    results := s.results.insert path outcome }
  s.log (.left path outcome)

def modifyRegistry (s : Session) (f : Registry → Registry) : Session :=
  { s with registry := f s.registry }

end Session

end PhpCheck
