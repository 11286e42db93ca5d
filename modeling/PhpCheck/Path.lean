/-!
Paths to files.  A path is kept as it was written; what it points at is given by
its pieces.
-/

namespace PhpCheck

/-- A step of a path. -/
inductive Piece where
  | root
  /-- A dot in front of a relative path. -/
  | here
  | up
  | name (text : String)
deriving DecidableEq, Inhabited

namespace Piece

def text : Piece → String
  | .root => "/"
  | .here => "."
  | .up => ".."
  | .name text => text

/-- The sort of a piece, which decides between pieces of different sorts. -/
def rank : Piece → Nat
  | .root => 0
  | .here => 1
  | .up => 2
  | .name _ => 3

/-- The order of pieces: by their sort, names among themselves by their text. -/
def compare (p q : Piece) : Ordering :=
  (Ord.compare p.rank q.rank).then (Ord.compare p.text q.text)

/-- The piece that a part between two slashes stands for; empty parts and dots
stand for nothing. -/
def ofPart? : List Char → Option Piece
  | [] | ['.'] => none
  | ['.', '.'] => some .up
  | part => some (.name (String.ofList part))

end Piece

namespace Path

def isSlash (c : Char) : Bool := c == '/'

/-- The steps of a path. -/
def pieces (path : String) : List Piece :=
  let parts := path.toList.splitOnP isSlash
  match parts with
  | [] :: _ :: _ => .root :: parts.filterMap Piece.ofPart?
  | ['.'] :: rest => .here :: rest.filterMap Piece.ofPart?
  | _ => parts.filterMap Piece.ofPart?

/-- The path that takes some steps. -/
def ofPieces : List Piece → String
  | .root :: rest => "/" ++ "/".intercalate (rest.map Piece.text)
  | ps => "/".intercalate (ps.map Piece.text)

def isAbsolute (path : String) : Bool := path.toList.head?.any isSlash

/-- Paths with the same steps. -/
def same (p q : String) : Bool := pieces p == pieces q

/-- The order of paths, step by step. -/
def compare (p q : String) : Ordering :=
  go (pieces p) (pieces q)
where
  go : List Piece → List Piece → Ordering
    | [], [] => .eq
    | [], _ :: _ => .lt
    | _ :: _, [] => .gt
    | p :: ps, q :: qs => (p.compare q).then (go ps qs)

/-- Whether the last steps of a path are those of another. -/
def endsWith (path ending : String) : Bool := (pieces ending).isSuffixOf (pieces path)

/-- A path as seen from a directory. -/
def join (dir path : String) : String :=
  if isAbsolute path || dir.isEmpty then path
  else if dir.toList.getLast?.any isSlash then dir ++ path
  else dir ++ "/" ++ path

/-- Takes one step after the steps `taken`, the last of which comes first.  A step
up undoes the step before it, also one that itself goes up. -/
def step (taken : List Piece) : Piece → List Piece
  | .here => taken
  | .up => match taken with
    | [] => [.up]
    | [.root] => [.up, .root]
    | _ :: before => before
  | p => p :: taken

/-- The path without detours. -/
def normalize (path : String) : String := ofPieces ((pieces path).foldl step []).reverse

/-- Drops slashes and lone dots from the end of a path, which is given from its
end. -/
def trimEnd : List Char → List Char
  | ['/'] => ['/']
  | '/' :: before => trimEnd before
  | '.' :: '/' :: before => trimEnd ('/' :: before)
  | cs => cs

/-- The path without its last step; none if there is no step to leave out. -/
def parent? (path : String) : Option String :=
  match (pieces path).getLast? with
  | none | some .root => none
  | some _ =>
    let kept := (trimEnd path.toList.reverse).dropWhile (!isSlash ·)
    some (String.ofList (trimEnd kept).reverse)

/-- The name that a path ends in. -/
def fileName? (path : String) : Option String :=
  match (pieces path).getLast? with
  | some (.name text) => some text
  | _ => none

/-- The part of a file's name behind its last dot.  A dot in front of a name does
not count. -/
def extension? (path : String) : Option String :=
  (fileName? path).bind fun name =>
    let ending := name.toList.reverse.takeWhile (· != '.')
    if ending.length + 1 < name.length then some (String.ofList ending.reverse) else none

end Path

end PhpCheck
