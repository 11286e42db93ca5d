import PhpCheck.Check.Monad

/-!
How names are to be written.
-/

namespace PhpCheck

/-- How the names of a sort of symbols are written. -/
inductive Convention where
  | classLike | method | constant
deriving DecidableEq, Inhabited

namespace Convention

/-- Whether a name starts with a character of one class, and has only characters
of another behind it. -/
def startsThen (first rest : Char → Bool) : List Char → Bool
  | [] => false
  | c :: cs => first c && cs.all rest

/-- Drops underscores from the head of a name, but at most so many. -/
def dropUnderscores : Nat → List Char → List Char
  | n + 1, '_' :: cs => dropUnderscores n cs
  | _, cs => cs

/-- Whether a name is written as it should be.  A method may have up to two
underscores in front. -/
def admits (c : Convention) (name : String) : Bool :=
  match c with
  | .classLike => startsThen Char.isUpper (fun c => c.isAlphanum || c == '_') name.toList
  | .method => startsThen Char.isLower Char.isAlphanum (dropUnderscores 2 name.toList)
  | .constant =>
    startsThen Char.isUpper (fun c => c.isUpper || c.isDigit || c == '_') name.toList

end Convention

namespace Check

/-- Reports a name that is not written as it should be. -/
def checkName (c : Convention) (name : String) (node : Node) (message : String) : Check Unit := do
  if (← analyzerConfig).namingConventions && !c.admits name then
    report .namingConventionViolation node message

def checkConstantName (name : String) (node : Node) : Check Unit :=
  checkName .constant name node s!"constant {name} should be UPPER_CASE"

end Check

end PhpCheck
