import PhpCheck.Config.Decode
import PhpCheck.Project.FileTree
import PhpCheck.Session.Run

/-!
Analyzing the files of a project.
-/

namespace PhpCheck

/-- Why a project could not be analyzed. -/
inductive ProjectError where
  /-- The configuration cannot be read. -/
  | configUnreadable (path : String)
  /-- The configuration is malformed. -/
  | configMalformed (path : String)
  | load (error : LoadError)
deriving Inhabited

namespace ProjectError

def message : ProjectError → String
  | .configUnreadable path => "failed to load configuration: cannot read config file '" ++ path ++ "'"
  | .configMalformed path => "failed to load configuration: invalid config file '" ++ path ++ "'"
  | .load error => "failed to read input files: " ++ error.message

end ProjectError

namespace Project

/-- The file that holds the configuration unless another one is named. -/
def configFile : String := "phplint.toml"

/-- The configuration in a file, whose directory relative paths start from. -/
def loadConfig (t : FileTree) (path : String) : Except ProjectError Config :=
  match t.read path with
  | .error _ => .error (.configUnreadable path)
  | .ok text =>
    match Config.read? text ((Path.parent? path).getD "") with
    | some config => .ok config
    | none => .error (.configMalformed path)

/-- The configuration of a project: the file named, or else the usual one if it is
there. -/
def discoverConfig (t : FileTree) : Option String → Except ProjectError Config
  | some path => loadConfig t path
  | none => if t.isFile configFile then loadConfig t configFile else .ok {}

/-- The files to analyze for a path: those in a directory whose name ends like a
source file's, or the file itself. -/
def filesAt (t : FileTree) (path : String) : Except LoadError (List String) :=
  match t.entry path with
  | .file _ => .ok [path]
  | .directory names =>
    let files := (t.below names).map fun route => route.foldl Path.join path
    .ok (files.filter fun file => Path.extension? file == some "php")
  | .blocked | .missing => .error (.notFound path)

/-- The files to analyze, in order and each of them once. -/
def collect (t : FileTree) (paths : List String) : Except LoadError (List String) := do
  let files ← paths.mapM (filesAt t)
  let sorted := files.flatten.mergeSort fun a b => (Path.compare a b).isLE
  return sorted.eraseRepsBy Path.same

/-- The loader of a configuration over the files of a project. -/
def loader (t : FileTree) (config : Config) : Loader := .ofConfig config t.isFile t.read

/-- Analyzes files one after the other in one session. -/
def analyzeFiles (s : Session) : List String → Except LoadError Session
  | [] => .ok s
  | file :: rest =>
    match s.analyzeFile file with
    | (.ok _, s) => analyzeFiles s rest
    | (.error e, _) => .error e

/-- Analyzes the files at some paths.  The reports cover files loaded on the way,
without the findings that the configuration leaves out. -/
def analyzePaths (t : FileTree) (config : Config) (paths : List String) :
    Except LoadError (List Report) := do
  let files ← collect t paths
  let session ← analyzeFiles (.start config (loader t config)) files
  return session.reports.map (·.filtered config)

/-- Reports as they are shown: in the order of their files, each with its findings
in order. -/
def present (reports : List Report) : List Report :=
  (reports.map Report.sorted).mergeSort fun a b => (Path.compare a.file b.file).isLE

end Project

end PhpCheck
