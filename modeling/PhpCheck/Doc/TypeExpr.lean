import PhpCheck.Text.Letter

/-!
Type expressions, as doc comments and declarations write them.
-/

namespace PhpCheck

inductive TypeExpr where
  /-- A type or class, with type arguments. -/
  | named (name : String) (args : List TypeExpr)
  /-- A quoted text or a number, as written. -/
  | literal (text : String)
  | union (members : List TypeExpr)
  | intersection (members : List TypeExpr)
  | nullable (inner : TypeExpr)
  | arrayOf (inner : TypeExpr)

namespace TypeExpr

instance : Inhabited TypeExpr := ⟨.literal ""⟩

mutual

def text (t : TypeExpr) : String :=
  match t with
  | .named name [] => name
  | .named name (first :: rest) => name ++ "<" ++ first.text ++ textAll ", " rest ++ ">"
  | .literal text => text
  | .union [] | .intersection [] => ""
  | .union (first :: rest) => first.text ++ textAll "|" rest
  | .intersection (first :: rest) => first.text ++ textAll "&" rest
  | .nullable inner => "?" ++ inner.text
  | .arrayOf inner => inner.text ++ "[]"
termination_by structural t

/-- Expressions, each with a separator in front of it. -/
def textAll (separator : String) (ts : List TypeExpr) : String :=
  match ts with
  | [] => ""
  | t :: ts => separator ++ t.text ++ textAll separator ts
termination_by structural ts

end

/-! ### Reading -/

/-- Reads something from the head of a text. -/
abbrev Reader (α : Type) := List Char → Option (α × List Char)

def skipSpace (cs : List Char) : List Char := cs.dropWhile isSpace

/-- What follows a character, if that comes next after white space. -/
def eat? (c : Char) (cs : List Char) : Option (List Char) :=
  match skipSpace cs with
  | d :: rest => if d = c then some rest else none
  | [] => none

/-- Further items, each after a separator.  Every round takes a character, so the
length of the text bounds their number. -/
def further (separator : Char) (item : Reader TypeExpr) : Nat → Reader (List TypeExpr)
  | 0, cs => some ([], cs)
  | rounds + 1, cs =>
    match eat? separator cs with
    | none => some ([], skipSpace cs)
    | some cs => do
      let (first, cs) ← item cs
      let (rest, cs) ← further separator item rounds cs
      return (first :: rest, cs)

/-- Items with a separator between them. -/
def separatedBy (separator : Char) (item : Reader TypeExpr) : Reader (List TypeExpr) := fun cs => do
  let (first, cs) ← item cs
  let (rest, cs) ← further separator item cs.length cs
  return (first :: rest, cs)

/-- One member stands for itself. -/
def group (f : List TypeExpr → TypeExpr) : List TypeExpr → TypeExpr
  | [t] => t
  | ts => f ts

/-- Brackets after a type. -/
def brackets (t : TypeExpr) : List Char → TypeExpr × List Char
  | '[' :: ']' :: rest => brackets (.arrayOf t) rest
  | c :: rest => if isSpace c then brackets t rest else (t, c :: rest)
  | [] => (t, [])

/-- A type with brackets after it. -/
def bracketed (atom : Reader TypeExpr) : Reader TypeExpr := fun cs => do
  let (t, cs) ← atom cs
  return brackets t cs

def intersectionOf (atom : Reader TypeExpr) : Reader TypeExpr := fun cs => do
  let (ts, cs) ← separatedBy '&' (bracketed atom) cs
  return (group .intersection ts, cs)

def unionOf (atom : Reader TypeExpr) : Reader TypeExpr := fun cs => do
  let (ts, cs) ← separatedBy '|' (intersectionOf atom) cs
  return (group .union ts, cs)

/-- A quoted literal with its quotes. -/
def quoted (quote : Char) (cs : List Char) : Option (TypeExpr × List Char) :=
  match cs.dropWhile (· != quote) with
  | [] => none
  | _ :: rest => some (.literal (String.ofList (quote :: cs.takeWhile (· != quote) ++ [quote])), rest)

def isNumberChar (c : Char) : Bool := c.isDigit || c == '.' || c == '_'

def isNameChar (c : Char) : Bool := isAlphanumeric c || c == '_' || c == '\\' || c == '-'

def isConstantChar (c : Char) : Bool := isAlphanumeric c || c == '_' || c == '*'

/-- The name of a constant after its class is passed over. -/
def skipConstant : List Char → List Char
  | ':' :: ':' :: rest => rest.dropWhile isConstantChar
  | cs => cs

/-- What follows a bracket that is closed again, after `depth` more were
opened. -/
def closed? (opening closing : Char) (depth : Nat) : List Char → Option (List Char)
  | [] => none
  | c :: rest =>
    if c = opening then closed? opening closing (depth + 1) rest
    else if c = closing then
      match depth with
      | 0 => some rest
      | depth + 1 => closed? opening closing depth rest
    else closed? opening closing depth rest

/-- Type arguments; shapes of arrays and parameters of functions are passed over,
together with the result of a function. -/
def arguments (atom : Reader TypeExpr) : Reader (List TypeExpr)
  | '<' :: cs => do
    let (args, cs) ← separatedBy ',' (unionOf atom) cs
    return (args, ← eat? '>' cs)
  | '\x7b' :: cs => do return ([], ← closed? '\x7b' '\x7d' 0 cs)
  | '(' :: cs => do
    let cs ← closed? '(' ')' 0 cs
    match eat? ':' cs with
    | none => return ([], cs)
    | some cs =>
      let (_, cs) ← bracketed atom cs
      return ([], cs)
  | cs => some ([], cs)

/-- A name with what belongs to it. -/
def namedType (atom : Reader TypeExpr) : Reader TypeExpr := fun cs =>
  let (sigil, body) := match cs with
    | '$' :: rest => (['$'], rest)
    | _ => ([], cs)
  let name := sigil ++ body.takeWhile isNameChar
  if name.isEmpty then none
  else do
    let (args, cs) ← arguments atom (skipConstant (body.dropWhile isNameChar))
    return (.named (String.ofList name) args, cs)

/-- A type without brackets or operators after it, nested less than `depth`
deep. -/
def atom : (depth : Nat) → Reader TypeExpr
  | 0, _ => none
  | depth + 1, cs =>
    match skipSpace cs with
    | [] => none
    | c :: rest =>
      if c == '?' then do
        let (t, cs) ← bracketed (atom depth) rest
        return (.nullable t, cs)
      else if c == '(' then do
        let (t, cs) ← unionOf (atom depth) rest
        return (t, ← eat? ')' cs)
      else if c == '\'' || c == '"' then quoted c rest
      else if c.isDigit || c == '-' then
        some (.literal (String.ofList (c :: rest.takeWhile isNumberChar)),
          rest.dropWhile isNumberChar)
      else namedType (atom depth) (c :: rest)

/-- Reads a text that is a type expression and nothing else.  Every nested
expression takes a character, so the length of the text bounds the nesting. -/
def read? (text : List Char) : Option TypeExpr :=
  let cs := trimmed text
  match unionOf (atom (cs.length + 1)) cs with
  | some (t, rest) => if (skipSpace rest).isEmpty then some t else none
  | none => none

end TypeExpr

end PhpCheck
