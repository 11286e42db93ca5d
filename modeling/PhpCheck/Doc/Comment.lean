import PhpCheck.Doc.TypeExpr

/-!
The tags of doc comments that tell types.
-/

namespace PhpCheck

/-- What a doc comment tells of types. -/
structure DocComment where
  params : List (String × TypeExpr) := []
  returns : Option TypeExpr := none
  /-- Types of variables; one without a name is for whatever follows. -/
  vars : List (Option String × TypeExpr) := []
  properties : List (String × TypeExpr) := []
  templates : List String := []
deriving Inhabited

namespace DocComment

/-! ### Texts after a tag -/

def isOpening (c : Char) : Bool := c == '<' || c == '(' || c == '\x7b' || c == '['

def isClosing (c : Char) : Bool := c == '>' || c == ')' || c == '\x7d' || c == ']'

def isOperator (c : Char) : Bool := c == '|' || c == '&'

/-- The type at the head of a text and what follows it.  The type ends at white
space outside of brackets, unless an operator, a comma or the colon of a result
type stands beside it.  `taken` holds what was read, the last character first. -/
def splitType (taken : List Char) (depth : Int) (afterColon : Bool) :
    List Char → List Char × List Char
  | [] => (taken.reverse, [])
  | c :: rest =>
    let next (depth : Int) (afterColon : Bool) := splitType (c :: taken) depth afterColon rest
    if isOpening c then next (depth + 1) afterColon
    else if isClosing c then next (depth - 1) afterColon
    else if c == ':' && depth == 0 then next depth true
    else if isOperator c && depth == 0 then next depth false
    else if isSpace c && depth ≤ 0 then
      let after := rest.dropWhile isSpace
      let before := (taken.dropWhile isSpace).head?
      if afterColon then next depth false
      else if after.head?.any isOperator || before.any fun b => isOperator b || b == ',' then
        next depth afterColon
      else (taken.reverse, after)
    else next depth afterColon

def isVariableChar (c : Char) : Bool := isAlphanumeric c || c == '_'

/-- What follows any number of copies of a word. -/
def dropWord (word : List Char) : Nat → List Char → List Char
  | 0, cs => cs
  | rounds + 1, cs =>
    if !word.isEmpty && word.isPrefixOf cs then dropWord word rounds (cs.drop word.length) else cs

/-- A text without copies of a word at its start. -/
def stripStart (word : String) (cs : List Char) : List Char := dropWord word.toList cs.length cs

/-- A text without copies of a word at its end. -/
def stripEnd (word : String) (cs : List Char) : List Char :=
  (dropWord word.toList.reverse cs.length cs.reverse).reverse

/-- The name of the variable at the head of a text. -/
def leadingVariable? (cs : List Char) : Option String :=
  match stripStart "..." (stripStart "&" (cs.dropWhile isSpace)) with
  | '$' :: rest =>
    let name := rest.takeWhile isVariableChar
    if name.isEmpty then none else some (String.ofList name)
  | _ => none

/-! ### Tags -/

inductive Tag where
  | param | returns | var | property | template
deriving DecidableEq

/-- The words for tags; a longer one comes before its beginning. -/
def tagWords : List (String × Tag) :=
  [("param", .param), ("return", .returns), ("var", .var), ("property-read", .property),
    ("property-write", .property), ("property", .property), ("template", .template)]

/-- The tag that a line starts with, and the text behind it.  A word character
must not follow the tag. -/
def tag? : List Char → Option (Tag × List Char)
  | '@' :: rest => tagWords.findSome? fun (word, tag) =>
    if word.toList.isPrefixOf rest then
      let after := rest.drop word.length
      if after.head?.any isWordChar then none else some (tag, trimmed after)
    else none
  | _ => none

/-- Takes one tag in.  The name of a variable may come before its type. -/
def add (d : DocComment) (tag : Tag) (text : List Char) : DocComment :=
  let typed :=
    let (ty, rest) := splitType [] 0 false text
    (TypeExpr.read? ty).map fun t => (t, leadingVariable? rest)
  match tag with
  | .template =>
    let name := (text.dropWhile isSpace).takeWhile (!isSpace ·)
    if name.isEmpty then d else { d with templates := d.templates ++ [String.ofList name] }
  | .var =>
    match leadingVariable? text with
    | some name =>
      let after := stripStart name (stripStart "$" (text.dropWhile isSpace))
      match TypeExpr.read? (splitType [] 0 false (trimmed after)).1 with
      | some t => { d with vars := d.vars ++ [(some name, t)] }
      | none => d
    | none =>
      match typed with
      | some (t, name) => { d with vars := d.vars ++ [(name, t)] }
      | none => d
  | .param =>
    match typed with
    | some (t, some name) => { d with params := d.params ++ [(name, t)] }
    | _ => d
  | .returns =>
    match typed with
    | some (t, _) => { d with returns := some t }
    | none => d
  | .property =>
    match typed with
    | some (t, some name) => { d with properties := d.properties ++ [(name, t)] }
    | _ => d

/-- The lines of a text. -/
def lines (cs : List Char) : List (List Char) := cs.splitOnP (· == '\n')

/-- Reads the tags of a doc comment, which stand at the start of lines. -/
def read (comment : String) : DocComment :=
  let body := stripEnd "*/" (stripStart "/**" (trimmed comment.toList))
  (lines body).foldl (fun d line =>
    match tag? (trimmed (stripStart "*" (trimmed line))) with
    | some (tag, text) => d.add tag text
    | none => d) {}

/-! ### Queries -/

def param? (d : DocComment) (name : String) : Option TypeExpr := d.params.lookup name

/-- The type for a variable; one without a name is for any variable. -/
def var? (d : DocComment) (name : Option String) : Option TypeExpr :=
  ((d.vars.find? fun (n, _) => n.isSome && n == name).or
    (d.vars.find? fun (n, _) => n.isNone)).map Prod.snd

/-- Whether the comment tells no type of anything. -/
def isEmpty (d : DocComment) : Bool :=
  d.params.isEmpty && d.returns.isNone && d.vars.isEmpty && d.properties.isEmpty

end DocComment

end PhpCheck
