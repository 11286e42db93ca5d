import PhpCheck.Report.Basic

/-!
Reports as they are written out: one line for each finding, or a JSON document.
-/

namespace PhpCheck

/-- A JSON value laid out over lines, given how far its lines are indented. -/
abbrev JsonBlock := (depth : Nat) → String

namespace JsonBlock

def hexDigit (n : Nat) : Char := (Nat.toDigits 16 n).headD '0'

/-- A character inside quotes.  Control characters are written as escapes, and all
others but the quote and the backslash stand for themselves. -/
def escape (c : Char) : List Char :=
  match c with
  | '"' => ['\\', '"']
  | '\\' => ['\\', '\\']
  | '\n' => ['\\', 'n']
  | '\r' => ['\\', 'r']
  | '\t' => ['\\', 't']
  | '\x08' => ['\\', 'b']
  | '\x0c' => ['\\', 'f']
  | _ =>
    if c.toNat < 32 then ['\\', 'u', '0', '0', hexDigit (c.toNat / 16), hexDigit (c.toNat % 16)]
    else [c]

def quoted (text : String) : String :=
  "\"" ++ String.ofList (text.toList.flatMap escape) ++ "\""

def string (value : String) : JsonBlock := fun _ => quoted value

def number (value : Nat) : JsonBlock := fun _ => toString value

def truth (value : Bool) : JsonBlock := fun _ => if value then "true" else "false"

def indent (depth : Nat) : String := String.ofList (List.replicate (2 * depth) ' ')

/-- Parts between brackets, each on a line of its own. -/
def enclosed (first last : String) (parts : List JsonBlock) : JsonBlock := fun depth =>
  if parts.isEmpty then first ++ last
  else
    let lines := parts.map fun part => "\n" ++ indent (depth + 1) ++ part (depth + 1)
    first ++ ",".intercalate lines ++ "\n" ++ indent depth ++ last

def list (items : List JsonBlock) : JsonBlock := enclosed "[" "]" items

def record (fields : List (String × JsonBlock)) : JsonBlock :=
  enclosed "\x7b" "\x7d" (fields.map fun (key, value) depth => quoted key ++ ": " ++ value depth)

end JsonBlock

open JsonBlock in
def Diagnostic.json (d : Diagnostic) : JsonBlock :=
  record [("kind", string d.kind.text), ("severity", string d.severity.text),
    ("message", string d.message), ("file", string d.location.file),
    ("line", number d.location.line), ("column", number d.location.column)]

open JsonBlock in
def Report.json (r : Report) : JsonBlock :=
  record [("file", string r.file), ("success", truth r.success),
    ("diagnostics", list (r.diagnostics.map Diagnostic.json))]

namespace Reports

/-- One line for each finding. -/
def text (reports : List Report) : String :=
  String.join ((reports.flatMap (·.diagnostics)).map fun d => d.text ++ "\n")

/-- All reports as one document. -/
def json (reports : List Report) : String :=
  JsonBlock.list (reports.map Report.json) 0 ++ "\n"

end Reports

end PhpCheck
