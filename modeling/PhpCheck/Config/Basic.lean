import PhpCheck.Path
import PhpCheck.Report.Kind
import PhpCheck.Table

/-!
The settings of an analysis.
-/

namespace PhpCheck

structure AnalyzerConfig where
  /-- How many files may be under analysis at once, each loaded by the one before. -/
  maxLoadDepth : Nat := 16
  namingConventions : Bool := true
  /-- Too many arguments are a mistake. -/
  strictArity : Bool := true
deriving DecidableEq, Inhabited

/-- Where classes and included files are looked for. -/
structure AutoloadConfig where
  /-- Directories by the namespace they hold. -/
  namespaces : Table (List String) := .empty
  /-- Files by the class they declare. -/
  classes : Table String := .empty
  /-- Directories in which files to be included are looked for. -/
  includePath : List String := []
deriving Inhabited

/-- Findings that are left out of reports. -/
structure IgnoreConfig where
  kinds : List DiagnosticKind := []
  /-- Kinds left out for single files. -/
  files : Table (List DiagnosticKind) := .empty
deriving Inhabited

structure Config where
  analyzer : AnalyzerConfig := {}
  autoload : AutoloadConfig := {}
  ignore : IgnoreConfig := {}
  /-- The directory that relative paths start from. -/
  baseDir : String := ""
deriving Inhabited

namespace Config

def resolve (c : Config) (path : String) : String :=
  if Path.isAbsolute path then path else Path.join c.baseDir path

/-- Whether an entry of the configuration is about a file: the entry is its path,
the end of its path, or its path from the base directory. -/
def isAbout (c : Config) (entry file : String) : Bool :=
  Path.same file entry || Path.endsWith file entry || Path.same file (c.resolve entry)

/-- Whether findings of a kind in a file are left out. -/
def isIgnored (c : Config) (kind : DiagnosticKind) (file : String) : Bool :=
  (kind == .namingConventionViolation && !c.analyzer.namingConventions)
    || c.ignore.kinds.contains kind
    || c.ignore.files.entries.any fun (entry, kinds) =>
        kinds.contains kind && c.isAbout entry file

end Config

end PhpCheck
