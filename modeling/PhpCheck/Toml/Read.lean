import PhpCheck.Toml.Scalar

/-!
Reading TOML documents.
-/

namespace PhpCheck.Toml

/-- What follows a comment, if one starts here.  It extends to the end of the
line. -/
def skipComment? : List Char → Option (List Char)
  | '#' :: rest =>
    match rest.dropWhile isPlain with
    | [] => some []
    | rest => if (lineBreak? rest).isSome then some rest else none
  | cs => some cs

/-- Passes over blanks, comments and line breaks.  Every round takes a
character. -/
def skipLines? : Nat → List Char → Option (List Char)
  | 0, cs => some cs
  | rounds + 1, cs => do
    let cs ← skipComment? (skipBlanks cs)
    match lineBreak? cs with
    | some rest => skipLines? rounds rest
    | none => return cs

/-- What follows the line break at the end of a line. -/
def endLine? (cs : List Char) : Option (List Char) := do
  match ← skipComment? (skipBlanks cs) with
  | [] => return []
  | rest => lineBreak? rest

/-- The rest of an array. -/
def listRest (value : Reader Value) : Nat → Reader (List Value)
  | 0, _ => none
  | rounds + 1, cs => do
    match ← skipLines? cs.length cs with
    | ']' :: rest => return ([], rest)
    | cs =>
      let (first, cs) ← value cs
      match ← skipLines? cs.length cs with
      | ',' :: rest =>
        let (more, rest) ← listRest value rounds rest
        return (first :: more, rest)
      | ']' :: rest => return ([first], rest)
      | _ => none

/-- A key with its value. -/
def pair (value : Reader Value) : Reader (List String × Value) := fun cs => do
  let (path, cs) ← key cs
  match cs with
  | '=' :: rest =>
    let (v, rest) ← value (skipBlanks rest)
    return ((path, v), rest)
  | _ => none

/-- The rest of a table written as a value, of which some entries are known.  It may
go on over several lines, and a comma may follow its last entry. -/
def tableRest (value : Reader Value) : Nat → Entries → Reader Entries
  | 0, _, _ => none
  | rounds + 1, es, cs => do
    match ← skipLines? cs.length cs with
    | '\x7d' :: rest => return (es, rest)
    | cs =>
      let ((path, v), cs) ← pair value cs
      let es ← es.define v path
      match ← skipLines? cs.length cs with
      | ',' :: rest => tableRest value rounds es rest
      | '\x7d' :: rest => return (es, rest)
      | _ => none

/-- Lists and tables may stand so deep within each other. -/
def maxDepth : Nat := 80

/-- A value in which lists and tables nest at most `depth` deep. -/
def value : (depth : Nat) → Reader Value
  | 0, c :: rest => if c == '"' || c == '\'' then textValue (c :: rest) else scalar (c :: rest)
  | depth + 1, c :: rest =>
    if c == '"' || c == '\'' then textValue (c :: rest)
    else if c == '[' then
      (listRest (value depth) (rest.length + 1) rest).map fun (vs, rest) => (.list vs, rest)
    else if c == '\x7b' then
      (tableRest (value depth) (rest.length + 1) [] rest).map fun (es, rest) =>
        (.table .inline es, rest)
    else scalar (c :: rest)
  | _, [] => none
where
  textValue : Reader Value := fun cs =>
    (quotedText cs).map fun (text, rest) => (.text text, rest)

/-- The path in a header, which ends in so many brackets. -/
def header (brackets : List Char) (cs : List Char) : Option (List String × List Char) := do
  let (path, cs) ← key cs
  if brackets.isPrefixOf cs then return (path, ← endLine? (cs.drop brackets.length)) else none

/-- The lines of a document, of which the entries so far and the table open are
known.  Every round takes a line. -/
def body : Nat → Entries → List String → List Char → Option Entries
  | 0, _, _, _ => none
  | rounds + 1, es, opened, cs => do
    match ← skipLines? cs.length cs with
    | [] => return es
    | '[' :: '[' :: rest =>
      let (path, rest) ← header [']', ']'] rest
      body rounds (← es.openElement path) path rest
    | '[' :: rest =>
      let (path, rest) ← header [']'] rest
      body rounds (← es.openTable path) path rest
    | cs =>
      let ((path, v), rest) ← pair (value maxDepth) cs
      body rounds (← Entries.within (Entries.define v path) opened es) opened (← endLine? rest)

/-- Reads a document; none if it is malformed. -/
def read? (text : String) : Option Entries :=
  let cs := match text.toList with
    | '\ufeff' :: rest => rest
    | cs => cs
  body (cs.length + 1) [] [] cs

end PhpCheck.Toml
