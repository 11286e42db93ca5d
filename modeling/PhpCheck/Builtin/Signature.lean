import PhpCheck.Doc.Comment
import PhpCheck.Doc.Resolve

/-!
Signatures in the notation of the language: parameters with their types, marks
for references and variadic parameters, and defaults.
-/

namespace PhpCheck.Builtin

/-- Where a scan of a parameter list stands. -/
inductive Place where
  /-- Between quotes inside of `depth` brackets; `escaped` after a backslash. -/
  | quoted (depth : Int) (quote : Char) (escaped : Bool)
  /-- Inside of `depth` brackets. -/
  | plain (depth : Int)

/-- The place after a character. -/
def Place.next (p : Place) (c : Char) : Place :=
  match p with
  | .quoted depth q true => .quoted depth q false
  | .quoted depth q false =>
    if c == '\\' then .quoted depth q true
    else if c == q then .plain depth
    else .quoted depth q false
  | .plain depth =>
    if c == '"' || c == '\'' then .quoted depth c false
    else if c == '<' || c == '(' || c == '[' then .plain (depth + 1)
    else if c == '>' || c == ')' || c == ']' then .plain (depth - 1)
    else .plain depth

/-- Splits a text at the commas outside of quotes and brackets. -/
def splitParams (place : Place) (current : List Char) : List Char → List (List Char)
  | [] => if (trimmed current).isEmpty then [] else [current.reverse]
  | c :: rest =>
    match place, c with
    | .plain 0, ',' => current.reverse :: splitParams place [] rest
    | _, _ => splitParams (place.next c) (c :: current) rest

/-- Reads a parameter. -/
def readParam? (context : TypeContext) (text : List Char) : Option Param :=
  let declaration := text.takeWhile (· != '=')
  match declaration.dropWhile (· != '$') with
  | [] => none
  | _ :: name =>
    let type := trimmed (declaration.takeWhile (· != '$'))
    let plain := trimmed (DocComment.stripEnd "..." type)
    let bare := trimmed (DocComment.stripEnd "&" plain)
    some {
      name := String.ofList (trimmed name)
      ty := if bare.isEmpty then none else context.resolveText? (String.ofList bare)
      byRef := plain.getLast? == some '&'
      hasDefault := text.contains '='
      variadic := "...".toList.isSuffixOf type }

/-- Whether values of a type are called back. -/
def takesCallback : Ty → Bool
  | .function _ => true
  | .optional content _ => takesCallback content
  | _ => false

/-- Reads a signature.  Parameters that take functions are noted. -/
def readSignature (context : TypeContext) (name params result : String) : Signature :=
  let params := (splitParams (.plain 0) [] params.toList).filterMap (readParam? context)
  let callbacks := params.zipIdx.filterMap fun (p, i) =>
    if p.ty.any fun u => u.members.any takesCallback then some i else none
  { Signature.ofParams name params ((context.resolveText? result).getD .mixed) with
    declared := true, callbacks }

end PhpCheck.Builtin
