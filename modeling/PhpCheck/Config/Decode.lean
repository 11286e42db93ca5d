import PhpCheck.Config.Basic
import PhpCheck.Toml.Read

/-!
Settings from a document.  Settings that are absent have their default, unknown
ones are passed over, and a value of the wrong sort spoils the document.
-/

namespace PhpCheck

open Toml (Value Entries)

namespace Toml.Value

def text? : Value → Option String
  | .text s => some s
  | _ => none

def truth? : Value → Option Bool
  | .truth b => some b
  | _ => none

/-- A number that fits in 64 bits without a sign. -/
def count? : Value → Option Nat
  | .integer n => if 0 ≤ n && n.toNat < UInt64.size then some n.toNat else none
  | _ => none

/-- A moment counts as a table with its text as the only entry. -/
def entries? : Value → Option Entries
  | .table _ es => some es
  | .moment m => some [("$__toml_private_datetime", .text m.text)]
  | _ => none

def tableOf? {α : Type} (f : Value → Option α) (v : Value) : Option (Table α) := do
  let entries ← (← v.entries?).mapM fun (key, v) => (f v).map fun a => (key, a)
  return .ofList entries

/-- The members of a list, which may be tables under one name. -/
def members? : Value → Option (List Value)
  | .list vs => some vs
  | .tables elements => some (elements.map (.table .header))
  | _ => none

def listOf? {α : Type} (f : Value → Option α) (v : Value) : Option (List α) := do
  (← v.members?).mapM f

def isEmpty : Value → Bool
  | .list [] | .table _ [] => true
  | _ => false

/-- A kind is written as its name, or as a table with nothing under its name. -/
def kind? : Value → Option DiagnosticKind
  | .text name => DiagnosticKind.ofText? name
  | .table _ [(name, v)] => if v.isEmpty then DiagnosticKind.ofText? name else none
  | _ => none

/-- A group of settings, which is a table or a list of the settings in order.  What
stands under unknown names must be well formed too, but not what follows the last
setting of a list. -/
def group? (names : List String) (v : Value) : Option Entries :=
  match v.members? with
  | some vs => some (names.zip vs)
  | none => v.entries?.filter (·.all fun (name, v) => names.contains name || v.inRange)

end Toml.Value

/-- The setting at a key, or its default. -/
def Toml.Entries.setting {α : Type} (es : Entries) (key : String) (f : Value → Option α)
    (default : α) : Option α :=
  match es.lookup key with
  | some v => f v
  | none => some default

namespace Config

open Toml.Value Toml.Entries

def analyzerOf? (v : Value) : Option AnalyzerConfig := do
  let es ← v.group? ["max_load_depth", "naming_conventions", "strict_arity"]
  let default : AnalyzerConfig := {}
  return {
    maxLoadDepth := ← setting es "max_load_depth" count? default.maxLoadDepth
    namingConventions := ← setting es "naming_conventions" truth? default.namingConventions
    strictArity := ← setting es "strict_arity" truth? default.strictArity }

def autoloadOf? (v : Value) : Option AutoloadConfig := do
  let es ← v.group? ["psr4", "classmap", "include_path"]
  return {
    namespaces := ← setting es "psr4" (tableOf? (listOf? text?)) .empty
    classes := ← setting es "classmap" (tableOf? text?) .empty
    includePath := ← setting es "include_path" (listOf? text?) [] }

def ignoreOf? (v : Value) : Option IgnoreConfig := do
  let es ← v.group? ["kinds", "files"]
  return {
    kinds := ← setting es "kinds" (listOf? kind?) []
    files := ← setting es "files" (tableOf? (listOf? kind?)) .empty }

/-- The settings that a document makes. -/
def ofValue? (v : Value) (baseDir : String) : Option Config := do
  let es ← v.group? ["analyzer", "autoload", "ignore"]
  return {
    analyzer := ← setting es "analyzer" analyzerOf? {}
    autoload := ← setting es "autoload" autoloadOf? {}
    ignore := ← setting es "ignore" ignoreOf? {}
    baseDir }

/-- The settings in a document. -/
def read? (text baseDir : String) : Option Config :=
  (Toml.read? text).bind fun es => ofValue? (.table .header es) baseDir

end Config

end PhpCheck
