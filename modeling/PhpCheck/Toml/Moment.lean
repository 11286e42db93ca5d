import PhpCheck.Numeric.Read

/-!
Dates and times of day, as a TOML document writes them.  Reading checks them
against the calendar, and writing gives every moment one spelling.
-/

namespace PhpCheck.Toml

structure Date where
  year : Nat
  month : Nat
  day : Nat
deriving DecidableEq, Inhabited

namespace Date

def isLeap (year : Nat) : Bool := year % 4 == 0 && (year % 100 != 0 || year % 400 == 0)

/-- The number of days of a month. -/
def days (year month : Nat) : Nat :=
  if month == 2 then if isLeap year then 29 else 28
  else if month == 4 || month == 6 || month == 9 || month == 11 then 30
  else 31

/-- Whether the calendar has such a day. -/
def isValid (d : Date) : Bool :=
  1 ≤ d.month && d.month ≤ 12 && 1 ≤ d.day && d.day ≤ days d.year d.month

end Date

structure TimeOfDay where
  hour : Nat
  minute : Nat
  second : Nat
  nanosecond : Nat
deriving DecidableEq, Inhabited

/-- A minute may have a leap second. -/
def TimeOfDay.isValid (t : TimeOfDay) : Bool := t.hour ≤ 23 && t.minute ≤ 59 && t.second ≤ 60

/-- How local time differs from universal time. -/
inductive Offset where
  | universal
  | minutes (value : Int)
deriving DecidableEq, Inhabited

/-- A date, a time of day, or a date with a time of day.  Only the last has an
offset. -/
inductive Moment where
  | date (date : Date)
  | time (time : TimeOfDay)
  | both (date : Date) (time : TimeOfDay) (offset : Option Offset)
deriving DecidableEq, Inhabited

/-! ### Reading -/

/-- Reads something from the head of a text. -/
abbrev Reader (α : Type) := List Char → Option (α × List Char)

/-- A number of exactly so many digits; no further digit follows. -/
def digitsOf (count : Nat) : Reader Nat := fun cs => do
  let digits := cs.takeWhile Char.isDigit
  if digits.length = count then return (← readNat? 10 digits, cs.drop count) else none

/-- What follows a character at the head of a text. -/
def skipChar? (c : Char) : List Char → Option (List Char)
  | d :: rest => if d = c then some rest else none
  | [] => none

def date : Reader Date := fun cs => do
  let (year, cs) ← digitsOf 4 cs
  let (month, cs) ← digitsOf 2 (← skipChar? '-' cs)
  let (day, cs) ← digitsOf 2 (← skipChar? '-' cs)
  let d : Date := { year, month, day }
  if d.isValid then return (d, cs) else none

/-- Two numbers of two digits with a colon between them. -/
def clock : Reader (Nat × Nat) := fun cs => do
  let (first, cs) ← digitsOf 2 cs
  let (second, cs) ← digitsOf 2 (← skipChar? ':' cs)
  return ((first, second), cs)

/-- Billionths from the digits of a fraction; what is smaller is dropped. -/
def nanoseconds? (digits : List Char) : Option Nat :=
  if digits.isEmpty then none else readNat? 10 ((digits.take 9).rightpad 9 '0')

/-- A fraction of a second, if one starts here. -/
def fraction : Reader Nat
  | '.' :: rest => (nanoseconds? (rest.takeWhile Char.isDigit)).map fun n =>
      (n, rest.dropWhile Char.isDigit)
  | cs => some (0, cs)

/-- A time of day, which may lack its seconds. -/
def timeOfDay : Reader TimeOfDay := fun cs => do
  let ((hour, minute), cs) ← clock cs
  let ((second, nanosecond), cs) ← match cs with
    | ':' :: rest => do
      let (second, cs) ← digitsOf 2 rest
      let (nanosecond, cs) ← fraction cs
      pure ((second, nanosecond), cs)
    | cs => pure ((0, 0), cs)
  let t : TimeOfDay := { hour, minute, second, nanosecond }
  if t.isValid then return (t, cs) else none

/-- An offset of less than a day. -/
def offset (negative : Bool) : Reader Offset := fun cs => do
  let ((hours, minutes), cs) ← clock cs
  if hours > 23 || minutes > 59 then none
  let total : Int := hours * 60 + minutes
  return (.minutes (if negative then -total else total), cs)

/-- An offset, if one starts here. -/
def offset? : Reader (Option Offset)
  | 'Z' :: rest | 'z' :: rest => some (some .universal, rest)
  | '+' :: rest => (offset false rest).map fun (o, rest) => (some o, rest)
  | '-' :: rest => (offset true rest).map fun (o, rest) => (some o, rest)
  | cs => some (none, cs)

/-- Reads a whole text as a moment. -/
def moment? (cs : List Char) : Option Moment :=
  match date cs with
  | some (d, []) => some (.date d)
  | some (d, mark :: rest) => do
    if !(mark == 'T' || mark == 't' || mark == ' ') then none
    let (t, rest) ← timeOfDay rest
    let (o, rest) ← offset? rest
    if rest.isEmpty then return .both d t o else none
  | none => do
    let (t, rest) ← timeOfDay cs
    if rest.isEmpty then return .time t else none

/-! ### Writing -/

/-- A number with zeros before it, up to a width. -/
def padded (width n : Nat) : String :=
  String.ofList ((Nat.toDigits 10 n).leftpad width '0')

def Date.text (d : Date) : String :=
  padded 4 d.year ++ "-" ++ padded 2 d.month ++ "-" ++ padded 2 d.day

/-- The zeros at the end of a fraction are left out, and so is a fraction of
nothing. -/
def TimeOfDay.text (t : TimeOfDay) : String :=
  let places := ((padded 9 t.nanosecond).toList.reverse.dropWhile (· == '0')).reverse
  padded 2 t.hour ++ ":" ++ padded 2 t.minute ++ ":" ++ padded 2 t.second
    ++ (if places.isEmpty then "" else "." ++ String.ofList places)

def Offset.text : Offset → String
  | .universal => "Z"
  | .minutes m =>
    (if m < 0 then "-" else "+") ++ padded 2 (m.natAbs / 60) ++ ":" ++ padded 2 (m.natAbs % 60)

def Moment.text : Moment → String
  | .date d => d.text
  | .time t => t.text
  | .both d t o => d.text ++ "T" ++ t.text ++ (o.map Offset.text).getD ""

end PhpCheck.Toml
