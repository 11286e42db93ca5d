import PhpCheck.Project.Basic
import PhpCheck.Report.Render

/-!
The command line: its options, and what a run over a project answers.
-/

namespace PhpCheck

inductive OutputFormat where
  | text | json
deriving DecidableEq, Inhabited

namespace OutputFormat

def ofText? : String → Option OutputFormat
  | "text" => some .text
  | "json" => some .json
  | _ => none

def render : OutputFormat → List Report → String
  | .text => Reports.text
  | .json => Reports.json

end OutputFormat

structure Options where
  config : Option String := none
  format : OutputFormat := .text
  paths : List String := []
deriving Inhabited

/-- Why the arguments of a run are refused. -/
inductive UsageError where
  | unknownOption (option : String)
  | missingValue (option : String)
  | unknownFormat (value : String)
  | noPaths
deriving DecidableEq, Inhabited

namespace UsageError

def message : UsageError → String
  | .unknownOption option => "unexpected argument '" ++ option ++ "' found"
  | .missingValue option => "a value is required for '" ++ option ++ "'"
  | .unknownFormat value => "invalid value '" ++ value ++ "' for '--format'"
  | .noPaths => "a file or directory is required"

end UsageError

namespace Options

/-- Sets the option with a name. -/
def set (o : Options) (name value : String) : Except UsageError Options :=
  match name with
  | "--config" => .ok { o with config := some value }
  | "--format" => match OutputFormat.ofText? value with
    | some format => .ok { o with format }
    | none => .error (.unknownFormat value)
  | _ => .error (.unknownOption name)

/-- The name and the value of an option that are written in one argument. -/
def assigned? (argument : String) : Option (String × String) :=
  match argument.splitOn "=" with
  | name :: first :: rest => some (name, "=".intercalate (first :: rest))
  | _ => none

/-- Options that ask for more messages, of which there are none. -/
def isVerbose (argument : String) : Bool :=
  argument == "--verbose" || match argument.toList with
    | '-' :: 'v' :: rest => rest.all (· == 'v')
    | _ => false

/-- Reads the arguments behind the options read so far. -/
def readFrom (o : Options) : List String → Except UsageError Options
  | [] => .ok o
  | "--" :: rest => .ok { o with paths := o.paths ++ rest }
  | argument :: rest =>
    if isVerbose argument then o.readFrom rest
    else if argument == "--config" || argument == "--format" then
      match rest with
      | value :: rest => do (← o.set argument value).readFrom rest
      | [] => .error (.missingValue argument)
    else if "--".toList.isPrefixOf argument.toList then
      match assigned? argument with
      | some (name, value) => do (← o.set name value).readFrom rest
      | none => .error (.unknownOption argument)
    else if "-".toList.isPrefixOf argument.toList && argument != "-" then
      .error (.unknownOption argument)
    else readFrom { o with paths := o.paths ++ [argument] } rest

/-- Reads the arguments of a run, which names at least one path. -/
def read (arguments : List String) : Except UsageError Options := do
  let o ← readFrom {} arguments
  if o.paths.isEmpty then .error .noPaths else return o

end Options

/-- What a run answers. -/
structure RunOutcome where
  output : String := ""
  error : Option String := none
  /-- Zero if there is no error in any file, one if there is, and two if the files
  could not be analyzed. -/
  exitCode : UInt32 := 0
deriving Inhabited

namespace RunOutcome

def failed (message : String) : RunOutcome := { error := some message, exitCode := 2 }

def ofReports (format : OutputFormat) (reports : List Report) : RunOutcome :=
  { output := format.render reports
    exitCode := if reports.all (·.success) then 0 else 1 }

end RunOutcome

namespace Project

/-- The reports that a run is asked for. -/
def reports (t : FileTree) (o : Options) : Except ProjectError (List Report) := do
  let config ← discoverConfig t o.config
  return present (← (analyzePaths t config o.paths).mapError .load)

/-- Analyzes the files of a project. -/
def run (t : FileTree) (o : Options) : RunOutcome :=
  match reports t o with
  | .ok found => .ofReports o.format found
  | .error e => .failed ("Error: " ++ e.message)

end Project

end PhpCheck
