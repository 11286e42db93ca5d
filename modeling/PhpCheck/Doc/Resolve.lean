import PhpCheck.Doc.TypeExpr
import PhpCheck.Numeric.Read
import PhpCheck.Scope.Basic

/-!
From type expressions to types.
-/

namespace PhpCheck

/-- What names in a type expression refer to. -/
structure TypeContext where
  names : NameContext := {}
  classContext : Option ClassContext := none
  /-- Type parameters, which stand for any type. -/
  templates : List String := []
deriving Inhabited

namespace TypeContext

/-- The class that `self` and its like refer to. -/
def currentClass (c : TypeContext) : Ty :=
  match c.classContext with
  | some k => if k.isTrait then .mixed else .object k.name
  | none => .mixed

/-- The type of a literal. -/
def literalTy (text : String) : Ty :=
  let cs := text.toList
  let isQuote (c : Char) : Bool := c == '\'' || c == '"'
  if cs.length ≥ 2 && cs.head?.any isQuote && cs.getLast?.any isQuote then
    .string (some (String.ofList (cs.drop 1).dropLast))
  else
    let digits := cs.filter (· != '_')
    match readInt64? 10 digits, Double.read? digits with
    | some i, _ => .int (some i)
    | none, some d => .float (some d)
    | none, none => .mixed

def endsWith (ending word : String) : Bool := ending.toList.isSuffixOf word.toList

/-- A type given by a name and its arguments. -/
def resolveNamed (c : TypeContext) (name : String) (args : List TyUnion) : TyUnion :=
  let arg (i : Nat) : TyUnion := args[i]?.getD .empty
  let word := name.toLower
  match word with
  | "int" | "integer" => .of (.int none)
  | "float" | "double" => .of (.float none)
  | "string" => .of (.string none)
  | "bool" | "boolean" => .of (.bool none)
  | "true" => .of (.bool (some true))
  | "false" => .of (.bool (some false))
  | "null" => .of .null
  | "void" | "never" | "never-return" | "never-returns" | "no-return" | "noreturn" => .empty
  | "mixed" | "object" => .mixed
  | "resource" | "closed-resource" | "open-resource" => .of .resource
  | "callable" | "pure-callable" => .of .callable
  | "array" | "non-empty-array" | "associative-array" =>
    .of (.map (if args.length ≤ 1 then arg 0 else arg 1))
  | "list" | "non-empty-list" => .of (.list (arg 0))
  | "iterable" => .ofList [.map (arg (args.length - 1)), .object "Traversable"]
  | "scalar" => .ofList [.int none, .float none, .string none, .bool none]
  | "numeric" => .ofList [.int none, .float none, .string none]
  | "array-key" => .ofList [.int none, .string none]
  | "self" | "static" | "$this" => .of c.currentClass
  | "parent" =>
    match c.classContext.bind (·.parent) with
    | some parent => .of (.object parent)
    | none => .mixed
  | _ =>
    if endsWith "-string" word then .of (.string none)
    else if endsWith "-int" word || "int-".toList.isPrefixOf word.toList then .of (.int none)
    else if endsWith "-float" word then .of (.float none)
    else if endsWith "-bool" word then .of (.bool none)
    else if c.templates.contains name then .mixed
    else .of (.object (c.names.resolveClass name))

mutual

/-- The type that an expression denotes.  Of an intersection only the first part
is kept. -/
def resolve (c : TypeContext) (t : TypeExpr) : TyUnion :=
  match t with
  | .named name args => c.resolveNamed name (c.resolveAll args)
  | .literal text => .of (literalTy text)
  | .union members => (c.resolveAll members).foldl TyUnion.union .empty
  | .intersection [] => .mixed
  | .intersection (first :: _) => c.resolve first
  | .nullable inner => (c.resolve inner).add .null
  | .arrayOf inner => .of (.list (c.resolve inner))
termination_by structural t

def resolveAll (c : TypeContext) (ts : List TypeExpr) : List TyUnion :=
  match ts with
  | [] => []
  | t :: ts => c.resolve t :: c.resolveAll ts
termination_by structural ts

end

/-- The type that a text denotes, if it is a type expression. -/
def resolveText? (c : TypeContext) (text : String) : Option TyUnion :=
  (TypeExpr.read? text.toList).map c.resolve

end TypeContext

end PhpCheck
