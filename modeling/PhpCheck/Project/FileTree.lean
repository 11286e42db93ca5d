import PhpCheck.Loader

/-!
A tree of files, seen from a directory in it.
-/

namespace PhpCheck

/-- Files by the names on the way to them, with slashes between. -/
structure FileTree where
  files : Table String := .empty
deriving Inhabited

namespace FileTree

/-- What a path leads to. -/
inductive Entry where
  | file (text : String)
  | directory (names : List String)
  /-- A file stands where a directory would have to be. -/
  | blocked
  | missing
deriving Inhabited

def ofList (files : List (String × String)) : FileTree :=
  { files := .ofList (files.map fun (path, text) => (Path.normalize path, text)) }

/-- The names of the files, each as the names on the way to it. -/
def routes (t : FileTree) : List (List String) :=
  t.files.keys.map fun path => (Path.pieces path).map Piece.text

def isDirectory (t : FileTree) (names : List String) : Bool :=
  names.isEmpty || t.routes.any fun route => names.isPrefixOf route && names.length < route.length

def file? (t : FileTree) (names : List String) : Option String :=
  (t.files.get? (Path.ofPieces (names.map Piece.name)))

/-- Follows a path from a directory in the tree.  Every step but the last has to
end in a directory, and no step may leave the tree. -/
def follow (t : FileTree) (names : List String) : List Piece → Entry
  | [] =>
    if t.isDirectory names then .directory names
    else match t.file? names with
      | some text => .file text
      | none => .missing
  | p :: rest =>
    if t.isDirectory names then
      match p with
      | .root => .missing
      | .here => t.follow names rest
      | .up => if names.isEmpty then .missing else t.follow names.dropLast rest
      | .name text => t.follow (names ++ [text]) rest
    else if (t.file? names).isSome then .blocked
    else .missing

/-- What a path leads to.  A path that ends in a slash leads to a directory. -/
def entry (t : FileTree) (path : String) : Entry :=
  let wantsDirectory := path.toList.getLast?.any Path.isSlash
  if path.isEmpty then .missing
  else match t.follow [] (Path.pieces path), wantsDirectory with
    | .file _, true => .blocked
    | found, _ => found

def isFile (t : FileTree) (path : String) : Bool :=
  match t.entry path with
  | .file _ => true
  | _ => false

def read (t : FileTree) (path : String) : Except LoadError String :=
  match t.entry path with
  | .file text => .ok text
  | .missing => .error (.notFound path)
  | .directory _ | .blocked => .error (.unreadable path)

/-- The files below a directory, by the names on the way from it. -/
def below (t : FileTree) (names : List String) : List (List String) :=
  t.routes.filterMap fun route =>
    if names.isPrefixOf route && names.length < route.length then some (route.drop names.length)
    else none

end FileTree

end PhpCheck
