import PhpCheck.Registry.Class

/-!
From the names written in a file to qualified names: the namespace and the
imports in force.
-/

namespace PhpCheck

/-- What a name refers to; each sort has imports of its own. -/
inductive SymbolKind where
  | classLike | function | constant
deriving DecidableEq, Inhabited

/-- The sort that the word after `use` selects. -/
def SymbolKind.ofModifier : Option String → SymbolKind
  | some "function" => .function
  | some "const" => .constant
  | _ => .classLike

/-- The namespace and the imports in force. -/
structure NameContext where
  home : Option String := none
  classes : Table String := .empty
  functions : Table String := .empty
  constants : Table String := .empty
deriving Inhabited

namespace NameContext

def isSeparator (c : Char) : Bool := c == '\\'

/-- The part of a name before its first backslash, and the part behind it. -/
def splitFirst (name : String) : String × Option String :=
  match name.toList.span (!isSeparator ·) with
  | (first, []) => (String.ofList first, none)
  | (first, _ :: rest) => (String.ofList first, some (String.ofList rest))

/-- The part of a name behind its last backslash. -/
def lastSegment (name : String) : String :=
  String.ofList (name.toList.reverse.takeWhile (!isSeparator ·)).reverse

/-- The rest of a name that starts with a text. -/
def after? (start name : String) : Option String :=
  if start.toList.isPrefixOf name.toList then
    some (String.ofList (name.toList.drop start.length))
  else none

/-- Enters a namespace, which drops the imports. -/
def enter (name : Option String) : NameContext :=
  let trimmed := name.map fun n =>
    String.ofList ((n.toList.dropWhile isSeparator).reverse.dropWhile isSeparator).reverse
  { home := trimmed.filter (!·.isEmpty) }

/-- Imports a qualified name under its last part or under another name.  Only the
names of constants tell upper and lower case apart. -/
def addImport (c : NameContext) (kind : SymbolKind) (qualified : String)
    (shortName : Option String) : NameContext :=
  let target := unrooted qualified
  let short := shortName.getD (lastSegment target)
  match kind with
  | .classLike => { c with classes := c.classes.insert short.toLower target }
  | .function => { c with functions := c.functions.insert short.toLower target }
  | .constant => { c with constants := c.constants.insert short target }

/-- A name inside the namespace. -/
def qualify (c : NameContext) (name : String) : String :=
  match c.home with
  | some ns => ns ++ "\\" ++ name
  | none => name

/-- The qualified name of a class. -/
def resolveClass (c : NameContext) (name : String) : String :=
  match after? "\\" name with
  | some rooted => rooted
  | none =>
    match after? "namespace\\" name with
    | some rest => c.qualify rest
    | none =>
      let (first, rest) := splitFirst name
      match c.classes.get? first.toLower, rest with
      | some target, some rest => target ++ "\\" ++ rest
      | some target, none => target
      | none, _ => c.qualify name

/-- The qualified names that an unqualified one may stand for: an import, or else
a name of the namespace before a global one. -/
def candidates (c : NameContext) (name : String) (imported : Option String) : List String :=
  match after? "\\" name with
  | some rooted => [rooted]
  | none =>
    if name.toList.any isSeparator then [c.resolveClass name]
    else
      match imported with
      | some target => [target]
      | none => if c.home.isSome then [c.qualify name, name] else [name]

/-- The qualified names that the name of a function may stand for. -/
def resolveFunction (c : NameContext) (name : String) : List String :=
  c.candidates name (c.functions.get? name.toLower)

/-- The qualified names that the name of a constant may stand for. -/
def resolveConstant (c : NameContext) (name : String) : List String :=
  c.candidates name (c.constants.get? name)

end NameContext

end PhpCheck
