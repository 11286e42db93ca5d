import PhpCheck.Types.Basic

/-!
The text of types in messages.
-/

namespace PhpCheck

mutual

def Ty.text (t : Ty) : String :=
  match t with
  | .mixed => "mixed"
  | .void => "void"
  | .bool (some true) => "true"
  | .bool (some false) => "false"
  | .bool none => "bool"
  | .int _ => "int"
  | .float _ => "float"
  | .string _ => "string"
  | .null => "null"
  | .resource => "resource"
  | .list ⟨[]⟩ => "array"
  | .list ⟨[.optional content s]⟩ => "list<" ++ optionalText content.text s ++ ">"
  | .list ⟨[single]⟩ => single.text ++ "[]"
  | .list ⟨first :: rest⟩ => "list<" ++ first.text ++ membersText rest ++ ">"
  | .map ⟨[]⟩ => "array"
  | .map ⟨first :: rest⟩ => "array<" ++ first.text ++ membersText rest ++ ">"
  | .function signature => signature.text
  | .classOf name => "class-string<" ++ name ++ ">"
  | .object name => name
  | .optional content s => optionalText content.text s

where
  /-- A content with its sentinels after it. -/
  optionalText (content : String) : Sentinel → String
    | .false => content ++ "|false"
    | .null => content ++ "|null"
    | .both => content ++ "|false|null"

/-- The members of a union, each with a bar in front of it. -/
def membersText (ts : List Ty) : String :=
  match ts with
  | [] => ""
  | t :: ts => "|" ++ t.text ++ membersText ts

def TyUnion.text (u : TyUnion) : String :=
  match u with
  | ⟨[]⟩ => "void"
  | ⟨first :: rest⟩ => first.text ++ membersText rest

def Signature.text (s : Signature) : String :=
  match s with
  | ⟨_, params, result, _, _, any⟩ =>
    if any then "callable" else "callable(" ++ paramsText params ++ "): " ++ result.text

def paramsText (ps : List Param) : String :=
  match ps with
  | [] => ""
  | [p] => p.text
  | p :: ps => p.text ++ ", " ++ paramsText ps

/-- The type of a parameter, with dots after a variadic one and an equals sign
after one that may be left out. -/
def Param.text (p : Param) : String :=
  match p with
  | ⟨_, ty, _, hasDefault, variadic⟩ =>
    unionText? ty ++ (if variadic then "..." else if hasDefault then "=" else "")

def unionText? (u : Option TyUnion) : String :=
  match u with
  | none => "mixed"
  | some u => u.text

end

end PhpCheck
