import PhpCheck.Config.Basic
import PhpCheck.Registry.Class

/-!
Finding and reading the files that an analysis needs.
-/

namespace PhpCheck

/-- Why a file could not be had. -/
inductive LoadError where
  | notFound (path : String)
  /-- No file declares the class. -/
  | unresolved (name : String)
  /-- The file is there, but cannot be read. -/
  | unreadable (path : String)
deriving DecidableEq, Inhabited

def LoadError.message : LoadError → String
  | .notFound path => "file not found: " ++ path
  | .unresolved name => "no file declares '" ++ name ++ "'"
  | .unreadable path => "I/O error reading '" ++ path ++ "'"

/-- A source of files.  It answers the same whenever it is asked. -/
structure Loader where
  /-- The file that is to declare a class. -/
  classFile? : String → Option String
  read : String → Except LoadError String
  isFile : String → Bool
  /-- Directories in which files to be included are looked for. -/
  includePath : List String

namespace Loader

/-- A loader without files. -/
def none : Loader :=
  { classFile? := fun _ => .none
    read := fun path => .error (.notFound path)
    isFile := fun _ => false
    includePath := [] }

instance : Inhabited Loader := ⟨none⟩

/-- Whether a target names a place relative to the file that includes it. -/
def isDotted (target : String) : Bool :=
  "./".toList.isPrefixOf target.toList || "../".toList.isPrefixOf target.toList

/-- The places in which the target of an include is looked for, seen from a
directory. -/
def candidates (l : Loader) (target dir : String) : List String :=
  if Path.isAbsolute target then [target]
  else if isDotted target then [Path.join dir target]
  else l.includePath.map (Path.join · target) ++ [Path.join dir target]

/-- The file that an include refers to. -/
def resolveInclude? (l : Loader) (target dir : String) : Option String :=
  ((l.candidates target dir).map Path.normalize).find? l.isFile

/-- Files that are given in full: their texts by normalized path, and the files of
classes by `symbolKey`. -/
def ofFiles (files classes : Table String) (includePath : List String) : Loader :=
  { classFile? := fun name => classes.get? (symbolKey name)
    read := fun path => match files.get? (Path.normalize path) with
      | some text => .ok text
      | .none => .error (.notFound path)
    isFile := fun path => files.contains (Path.normalize path)
    includePath }

/-- The rest of a name behind the namespace it starts with, in whatever case. -/
def relativeName? (space name : String) : Option String :=
  let size := space.toList.length
  let head := String.ofList (name.toList.take size)
  if sameName head space then
    some (String.ofList (name.toList.drop size))
  else .none

/-- The name of a namespace as names in it start. -/
def namespaceHead (name : String) : String :=
  let name := unrooted name
  if name.isEmpty || name.toList.getLast? == some '\\' then name else name ++ "\\"

/-- The namespaces of a configuration with their directories, long names first. -/
def namespaceDirs (c : Config) : List (String × List String) :=
  (c.autoload.namespaces.entries.map fun (name, dirs) => (namespaceHead name, dirs.map c.resolve))
    |>.mergeSort fun a b => a.1.utf8ByteSize ≥ b.1.utf8ByteSize

/-- The files that may declare a class, by the namespaces it is in. -/
def namespaceFiles (spaces : List (String × List String)) (name : String) : List String :=
  spaces.flatMap fun (space, dirs) => match relativeName? space name with
    | some rest =>
      let path := String.ofList (rest.toList.map fun c => if c == '\\' then '/' else c) ++ ".php"
      dirs.map (Path.join · path)
    | .none => []

/-- The loader of a configuration, over given files.  Classes listed one by one
come before namespaces. -/
def ofConfig (c : Config) (isFile : String → Bool) (read : String → Except LoadError String) :
    Loader :=
  let classes := c.autoload.classes.entries.foldl
    (fun t (name, file) => t.insert (symbolKey name) (c.resolve file)) Table.empty
  let spaces := namespaceDirs c
  { classFile? := fun name =>
      (classes.get? (symbolKey name)).or ((namespaceFiles spaces (unrooted name)).find? isFile)
    read, isFile
    includePath := c.autoload.includePath.map c.resolve }

end Loader

end PhpCheck
