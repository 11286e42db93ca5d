/-!
The kinds of findings.
-/

namespace PhpCheck

inductive Severity where
  | warning | error
deriving DecidableEq, Inhabited

def Severity.text : Severity → String
  | .warning => "warning"
  | .error => "error"

/-- What a finding is about. -/
inductive DiagnosticKind where
  /-- A variable, constant, function or class that is not bound is read. -/
  | undefinedName
  /-- A class has no such member. -/
  | noSuchMember
  /-- A member exists, but may not be used here. -/
  | scopeViolation
  | argumentArityMismatch
  | argumentTypeMismatch
  | returnTypeMismatch
  /-- What is assigned has no value. -/
  | assignmentWithoutValue
  /-- A value does not fit the property it is written to. -/
  | assignmentTypeMismatch
  /-- A documented type contradicts the declared one. -/
  | documentationMismatch
  | namingConventionViolation
  /-- The construct is not analyzed at all. -/
  | unsupportedConstruct
  /-- No file declares a class. -/
  | classLoadFailure
  /-- A file to be included is not there. -/
  | includeFailure
  /-- Two traits define the same member. -/
  | traitCollision
  | syntaxError
deriving DecidableEq, Inhabited

namespace DiagnosticKind

/-- All kinds, in the order in which findings at one place are listed. -/
def all : List DiagnosticKind :=
  [.undefinedName, .noSuchMember, .scopeViolation, .argumentArityMismatch,
   .argumentTypeMismatch, .returnTypeMismatch, .assignmentWithoutValue,
   .assignmentTypeMismatch, .documentationMismatch, .namingConventionViolation,
   .unsupportedConstruct, .classLoadFailure, .includeFailure, .traitCollision, .syntaxError]

def rank (k : DiagnosticKind) : Nat := all.idxOf k

def text : DiagnosticKind → String
  | .undefinedName => "UndefinedName"
  | .noSuchMember => "NoSuchMember"
  | .scopeViolation => "ScopeViolation"
  | .argumentArityMismatch => "ArgumentArityMismatch"
  | .argumentTypeMismatch => "ArgumentTypeMismatch"
  | .returnTypeMismatch => "ReturnTypeMismatch"
  | .assignmentWithoutValue => "AssignmentWithoutValue"
  | .assignmentTypeMismatch => "AssignmentTypeMismatch"
  | .documentationMismatch => "DocumentationMismatch"
  | .namingConventionViolation => "NamingConventionViolation"
  | .unsupportedConstruct => "UnsupportedConstruct"
  | .classLoadFailure => "ClassLoadFailure"
  | .includeFailure => "IncludeFailure"
  | .traitCollision => "TraitCollision"
  | .syntaxError => "SyntaxError"

def ofText? (text : String) : Option DiagnosticKind := all.find? (·.text == text)

def severity : DiagnosticKind → Severity
  | .namingConventionViolation | .traitCollision | .classLoadFailure => .warning
  | _ => .error

/-- The rest of the file is not analyzed. -/
def isFatal : DiagnosticKind → Bool
  | .unsupportedConstruct | .syntaxError => true
  | _ => false

end DiagnosticKind

end PhpCheck
