import PhpCheck.Check.Visit
import PhpCheck.Grammar.File

/-!
Analyzing files in a session.
-/

namespace PhpCheck

/-- Reads a source text, or tells what is wrong with it. -/
def parseSource (path source : String) : Except (List Diagnostic) Node :=
  let (root, errors) := parse (Source.ofString source)
  let finding (s : Span) (message : String) : Diagnostic :=
    ⟨.syntaxError, .ofSpan path s, message⟩
  if !errors.isEmpty then .error (errors.map fun e => finding e.span e.message)
  else if root.hasError then .error [finding root.span "syntax error"]
  else .ok root

namespace Session

/-- The findings of a file in order, each of them once. -/
def tidy (found : List Diagnostic) : List Diagnostic :=
  (found.mergeSort fun a b => (a.compareMessage b).isLE).eraseReps

/-- The outcome of a file in which something was found. -/
def outcomeOf (path : String) (found : List Diagnostic) (value : TyUnion) (included : Bool) :
    FileOutcome :=
  { report := (Report.ofDiagnostics path (tidy found)).sorted, value, included }

/-- Checks the tree of a file. -/
def checkTree (s : Session) (loads : Loads) (path : String) (root : Node) (included : Bool) :
    FileOutcome × Session :=
  let setting : Setting := { file := path, dir := (Path.parent? path).getD "", loads }
  match (Check.file root).run setting |>.run { session := s, scope := .file included } with
  | .ok value c => (outcomeOf path c.diagnostics value included, c.session)
  | .error _ c => (outcomeOf path c.diagnostics .mixed included, c.session)

/-- Checks a text.  One that cannot be read has its mistakes for an outcome. -/
def checkSource (s : Session) (loads : Loads) (path source : String) (included : Bool) :
    FileOutcome × Session :=
  match parseSource path source with
  | .ok root => s.checkTree loads path root included
  | .error found => ({ report := .ofDiagnostics path found, value := .mixed, included }, s)

/-- Analyzes a text as the contents of a file. -/
def run (s : Session) (loads : Loads) (path source : String) (cause : Cause) :
    FileOutcome × Session :=
  let (outcome, s) := (s.enter path cause).checkSource loads path source cause.isInclude
  (outcome, s.leave path outcome)

/-- How a file is analyzed in a session. -/
abbrev Analysis := (path source : String) → Cause → Session → FileOutcome × Session

/-- Analyzes the file that declares a name, unless it has been or is under analysis;
whether it was. -/
def loadClassBy (analyze : Analysis) (name : String) (s : Session) : Bool × Session :=
  if s.isExhausted then (false, s)
  else match (s.loader.classFile? (unrooted name)).map Path.normalize with
    | none => (false, s)
    | some path =>
      if s.results.contains path || s.isInProgress path then (false, s)
      else match s.loader.read path with
        | .ok source => (true, (analyze path source .autoloaded s).2)
        | .error _ => (false, s)

/-- Looks for the file that declares a name, once in a session; whether one was
analyzed. -/
def autoloadBy (analyze : Analysis) (name : String) (s : Session) : Bool × Session :=
  let key := symbolKey name
  if s.attempted.contains key then (false, s) else loadClassBy analyze name (s.attempt key)

/-- Analyzes a file to be included, unless it has been or is under analysis. -/
def includeBy (analyze : Analysis) (path : String) (once : Bool) (s : Session) :
    IncludeOutcome × Session :=
  let path := Path.normalize path
  if s.isInProgress path then (.inProgress, s)
  else match s.results.get? path with
    | some outcome => (if once then .alreadyIncluded else .analyzed outcome.value, s)
    | none =>
      if s.isExhausted then (.failed, s)
      else match s.loader.read path with
        | .ok source =>
          let (outcome, s) := analyze path source .included s
          (if outcome.report.isAborted then .failed else .analyzed outcome.value, s)
        | .error _ => (.failed, s)

/-- How files are loaded, given how they are analyzed. -/
def loadsBy (analyze : Analysis) : Loads :=
  { autoload := autoloadBy analyze, includeFile := includeBy analyze }

/-- Analyzes a file, where at most so many files are loaded one by another. -/
def analyzeWithin : (depth : Nat) → Analysis
  | 0 => fun path _ cause s =>
    ({ report := { file := path }, value := .mixed, included := cause.isInclude }, s)
  | depth + 1 => fun path source cause s =>
    s.run (loadsBy (analyzeWithin depth)) path source cause

/-- Analyzes a file.  One file more than the session may load at a time is allowed
for, so that the bound of the session is what counts. -/
def analyze : Analysis := fun path source cause s =>
  analyzeWithin (s.config.analyzer.maxLoadDepth + 1) path source cause s

/-- How files are loaded in a session. -/
def loads : Loads := loadsBy analyze

/-! ### Public operations -/

/-- Looks for the file that declares a name. -/
def autoload (s : Session) (name : String) : Bool × Session := loads.autoload name s

/-- Analyzes a text as the contents of a file.  A file that was analyzed before has
the same report again. -/
def analyzeSource (s : Session) (path source : String) : Report × Session :=
  let path := Path.normalize path
  match s.directReport? path with
  | some report => (report, s)
  | none =>
    let (outcome, s) := analyze path source .direct s
    (outcome.report, s)

/-- Reads a file and analyzes it. -/
def analyzeFile (s : Session) (path : String) : Except LoadError Report × Session :=
  let path := Path.normalize path
  match s.directReport? path with
  | some report => (.ok report, s)
  | none =>
    if s.isInProgress path then (.ok { file := path }, s)
    else match s.loader.read path with
      | .ok source =>
        let (outcome, s) := analyze path source .direct s
        (.ok outcome.report, s)
      | .error e => (.error e, s)

/-- Analyzes a tree as the contents of a file. -/
def analyzeTree (s : Session) (path : String) (root : Node) : Report × Session :=
  let path := Path.normalize path
  let (outcome, s) := (s.enter path .direct).checkTree loads path root false
  (outcome.report, s.leave path outcome)

end Session

end PhpCheck
