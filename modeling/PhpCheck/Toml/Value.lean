import PhpCheck.Numeric.Double
import PhpCheck.Toml.Moment

/-!
Values of a TOML document, and how the lines of a document build up its tables.
-/

namespace PhpCheck.Toml

/-- How a table came about, which decides on what may still be added to it. -/
inductive Origin where
  /-- Named on the way to another table. -/
  | implied
  /-- Opened by a header of its own. -/
  | header
  /-- Named on the way to a value. -/
  | dotted
  /-- Written as a value. -/
  | inline
deriving DecidableEq, Inhabited

inductive Value where
  | text (value : String)
  | integer (value : Int)
  | truth (value : Bool)
  /-- A number with a fraction; none if no number is that large. -/
  | real (value : Option Double)
  | moment (value : Moment)
  | list (members : List Value)
  | table (origin : Origin) (entries : List (String × Value))
  /-- Tables opened one after another under the same name. -/
  | tables (elements : List (List (String × Value)))
deriving Inhabited

abbrev Entries := List (String × Value)

/-- Integers that fit in 128 bits, with a sign or without. -/
def inInt128 (n : Int) : Bool := -(Nat.pow 2 127 : Int) ≤ n && n < (Nat.pow 2 128 : Int)

mutual

/-- Whether all numbers in a value can be represented. -/
def Value.inRange : Value → Bool
  | .integer n => inInt128 n
  | .real value => value.isSome
  | .list members => membersInRange members
  | .table _ entries => entriesInRange entries
  | .tables elements => elementsInRange elements
  | .text _ | .truth _ | .moment _ => true

def membersInRange : List Value → Bool
  | [] => true
  | v :: rest => v.inRange && membersInRange rest

def entriesInRange : List (String × Value) → Bool
  | [] => true
  | (_, v) :: rest => v.inRange && entriesInRange rest

def elementsInRange : List (List (String × Value)) → Bool
  | [] => true
  | es :: rest => entriesInRange es && elementsInRange rest

end

namespace Entries

/-- Changes the value at a key, or adds one. -/
def alter (f : Option Value → Option Value) (key : String) : Entries → Option Entries
  | [] => (f none).map fun v => [(key, v)]
  | (k, v) :: rest =>
    if k = key then (f (some v)).map fun v => (k, v) :: rest
    else (alter f key rest).map ((k, v) :: ·)

/-- Changes the last of some tables. -/
def alterLast (f : Entries → Option Entries) : List Entries → Option (List Entries)
  | [] => none
  | [last] => (f last).map fun last => [last]
  | first :: rest => (alterLast f rest).map (first :: ·)

/-- Changes what a header names on its way.  Values that were written out are
complete. -/
def descend (f : Entries → Option Entries) : Option Value → Option Value
  | none => (f []).map (.table .implied)
  | some (.table .inline _) => none
  | some (.table origin inner) => (f inner).map (.table origin)
  | some (.tables elements) => (alterLast f elements).map .tables
  | some _ => none

/-- Gives a dotted key its value.  It must be new, and so must the tables on the
way, unless dotted keys named them before. -/
def define (v : Value) : List String → Entries → Option Entries
  | [], _ => none
  | [key], es => alter (fun old => if old.isSome then none else some v) key es
  | key :: next :: rest, es =>
    let inner := define v (next :: rest)
    alter (fun
      | none => (inner []).map (.table .dotted)
      | some (.table .dotted es) => (inner es).map (.table .dotted)
      | some (.table .implied es) =>
        if rest.isEmpty then none else (inner es).map (.table .implied)
      | some (.tables elements) =>
        if rest.isEmpty then none else (alterLast inner elements).map .tables
      | some _ => none) key es

/-- Opens a table.  It must be new, but for having been named on the way to
another one. -/
def openTable : List String → Entries → Option Entries
  | [], _ => none
  | [key], es => alter (fun
      | none => some (.table .header [])
      | some (.table .implied inner) => some (.table .header inner)
      | some _ => none) key es
  | key :: rest, es => alter (descend (openTable rest)) key es

/-- Opens one more of the tables under a name. -/
def openElement : List String → Entries → Option Entries
  | [], _ => none
  | [key], es => alter (fun
      | none => some (.tables [[]])
      | some (.tables elements) => some (.tables (elements ++ [[]]))
      | some _ => none) key es
  | key :: rest, es => alter (descend (openElement rest)) key es

/-- Changes the table that a header opened. -/
def within (f : Entries → Option Entries) : List String → Entries → Option Entries
  | [], es => f es
  | key :: rest, es => alter (descend (within f rest)) key es

end Entries

end PhpCheck.Toml
