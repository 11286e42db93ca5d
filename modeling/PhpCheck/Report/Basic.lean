import PhpCheck.Config.Basic
import PhpCheck.Source.Span

/-!
Findings and reports.  Leaving findings out happens on finished reports, so that
it never changes what else is found.
-/

namespace PhpCheck

/-- Where a finding is; lines and columns count from one. -/
structure Location where
  file : String
  line : Nat
  column : Nat
deriving DecidableEq, Inhabited

namespace Location

/-- The start of a span. -/
def ofSpan (file : String) (s : Span) : Location := ⟨file, s.startLine, s.startColumn⟩

def text (l : Location) : String := l.file ++ ":" ++ toString l.line ++ ":" ++ toString l.column

def compare (a b : Location) : Ordering :=
  (Path.compare a.file b.file).then
    ((Ord.compare a.line b.line).then (Ord.compare a.column b.column))

end Location

/-- A finding. -/
structure Diagnostic where
  kind : DiagnosticKind
  location : Location
  message : String
deriving DecidableEq, Inhabited

namespace Diagnostic

def severity (d : Diagnostic) : Severity := d.kind.severity

def isError (d : Diagnostic) : Bool := d.severity == .error

def text (d : Diagnostic) : String :=
  d.location.text ++ ": [" ++ d.kind.text ++ "] " ++ d.message

/-- The order of findings in a report: by place, then by kind. -/
def compare (a b : Diagnostic) : Ordering :=
  (a.location.compare b.location).then (Ord.compare a.kind.rank b.kind.rank)

/-- The order of a report, with findings of one kind at one place by their
message. -/
def compareMessage (a b : Diagnostic) : Ordering :=
  (a.compare b).then (Ord.compare a.message b.message)

end Diagnostic

/-- What was found in a file. -/
structure Report where
  file : String
  /-- There is no error, and all of the file was analyzed. -/
  success : Bool := true
  diagnostics : List Diagnostic := []
deriving DecidableEq, Inhabited

namespace Report

def ofDiagnostics (file : String) (diagnostics : List Diagnostic) : Report :=
  { file, diagnostics, success := !diagnostics.any Diagnostic.isError }

def push (r : Report) (d : Diagnostic) : Report :=
  { r with success := r.success && !d.isError, diagnostics := r.diagnostics ++ [d] }

def errors (r : Report) : List Diagnostic := r.diagnostics.filter Diagnostic.isError

def count (r : Report) (kind : DiagnosticKind) : Nat := r.diagnostics.countP (·.kind == kind)

def kinds (r : Report) : List DiagnosticKind := r.diagnostics.map (·.kind)

/-- Whether the rest of the file was not analyzed. -/
def isAborted (r : Report) : Bool := r.diagnostics.any (·.kind.isFatal)

/-- The report without the findings that the configuration leaves out.  A file
that was not analyzed to its end stays unsuccessful. -/
def filtered (r : Report) (c : Config) : Report :=
  let kept := r.diagnostics.filter fun d => !c.isIgnored d.kind d.location.file
  let report := ofDiagnostics r.file kept
  { report with success := report.success && !r.isAborted }

/-- The report with its findings in order; findings of one kind at one place stay
as they are. -/
def sorted (r : Report) : Report :=
  { r with diagnostics := r.diagnostics.mergeSort fun a b => (a.compare b).isLE }

end Report

end PhpCheck
