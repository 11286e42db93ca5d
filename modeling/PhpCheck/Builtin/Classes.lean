import PhpCheck.Builtin.Signature
import PhpCheck.Registry.Basic

/-!
Classes and interfaces that every program may use.
-/

namespace PhpCheck.Builtin

/-- A method: how it is called, its parameters and its result. -/
structure MethodStub where
  name : String
  params : String := ""
  result : String
  isStatic : Bool := false

/-- A class or interface. -/
structure ClassStub where
  name : String
  kind : ClassKind := .ordinary
  parent : Option String := none
  interfaces : List String := []
  methods : List MethodStub := []
  /-- Properties, for heirs only, with their types. -/
  properties : List (String × String) := []
  dynamic : Bool := false

/-- A method without parameters. -/
def plain (name result : String) : MethodStub := { name, result }

def method (name params result : String) : MethodStub := { name, params, result }

def constructor (params : String) : MethodStub := method "__construct" params "void"

def iteratorMethods : List MethodStub :=
  [plain "current" "mixed", plain "key" "mixed", plain "next" "void", plain "rewind" "void",
   plain "valid" "bool"]

def throwableMethods : List MethodStub :=
  [plain "getMessage" "string", plain "getCode" "mixed", plain "getFile" "string",
   plain "getLine" "int", plain "getTrace" "array", plain "getTraceAsString" "string",
   plain "getPrevious" "?Throwable", plain "__toString" "string"]

def exceptionMethods : List MethodStub :=
  constructor "string $message = \"\", int $code = 0, ?Throwable $previous = null"
    :: throwableMethods

def exceptionProperties : List (String × String) :=
  [("message", "string"), ("code", "mixed"), ("file", "string"), ("line", "int")]

def arrayAccessMethods : List MethodStub :=
  [method "offsetExists" "mixed $offset" "bool", method "offsetGet" "mixed $offset" "mixed",
   method "offsetSet" "mixed $offset, mixed $value" "void",
   method "offsetUnset" "mixed $offset" "void"]

def dateMethods : List MethodStub :=
  [constructor "string $datetime = \"now\", ?DateTimeZone $timezone = null",
   method "format" "string $format" "string", plain "getTimestamp" "int",
   method "setTimestamp" "int $timestamp" "static",
   method "modify" "string $modifier" "static|false",
   method "setTimezone" "DateTimeZone $timezone" "static",
   plain "getTimezone" "DateTimeZone|false",
   { name := "createFromFormat"
     params := "string $format, string $datetime, ?DateTimeZone $timezone = null"
     result := "static|false", isStatic := true }]

def interfaces : List ClassStub :=
  [{ name := "Traversable" },
   { name := "Iterator", interfaces := ["Traversable"], methods := iteratorMethods },
   { name := "IteratorAggregate", interfaces := ["Traversable"]
     methods := [plain "getIterator" "Traversable"] },
   { name := "ArrayAccess", methods := arrayAccessMethods },
   { name := "Countable", methods := [plain "count" "int"] },
   { name := "JsonSerializable", methods := [plain "jsonSerialize" "mixed"] },
   { name := "Stringable", methods := [plain "__toString" "string"] },
   { name := "Throwable", interfaces := ["Stringable"], methods := throwableMethods },
   { name := "DateTimeInterface"
     methods := [method "format" "string $format" "string", plain "getTimestamp" "int"] }]

def classes : List ClassStub :=
  [{ name := "stdClass", dynamic := true },
   { name := "Exception", interfaces := ["Throwable"], methods := exceptionMethods
     properties := exceptionProperties },
   { name := "Error", interfaces := ["Throwable"], methods := exceptionMethods
     properties := exceptionProperties },
   { name := "ErrorException", parent := some "Exception"
     methods :=
      [constructor ("string $message = \"\", int $code = 0, int $severity = 1, " ++
         "?string $filename = null, ?int $line = null, ?Throwable $previous = null"),
       plain "getSeverity" "int"] },
   { name := "Closure"
     methods :=
      [{ name := "bind"
         params := "Closure $closure, ?object $newThis, " ++
           "object|string|null $newScope = \"static\""
         result := "?Closure", isStatic := true },
       method "bindTo" "?object $newThis, object|string|null $newScope = \"static\"" "?Closure",
       method "call" "object $newThis, mixed ...$args" "mixed",
       { name := "fromCallable", params := "callable $callback", result := "Closure"
         isStatic := true },
       method "__invoke" "mixed ...$args" "mixed"] },
   { name := "Generator", interfaces := ["Iterator"]
     methods := iteratorMethods ++ [method "send" "mixed $value" "mixed", plain "getReturn" "mixed"] },
   { name := "ArrayIterator", interfaces := ["Iterator", "ArrayAccess", "Countable"]
     methods :=
      [constructor "array|object $array = [], int $flags = 0", plain "getArrayCopy" "array",
       plain "count" "int"] },
   { name := "ArrayObject", interfaces := ["IteratorAggregate", "ArrayAccess", "Countable"]
     methods :=
      [constructor ("array|object $array = [], int $flags = 0, " ++
         "string $iteratorClass = \"ArrayIterator\""),
       plain "getArrayCopy" "array", plain "getIterator" "Iterator", plain "count" "int"] },
   { name := "DateTimeZone"
     methods := [constructor "string $timezone", plain "getName" "string"] },
   { name := "DateTime", interfaces := ["DateTimeInterface"], methods := dateMethods },
   { name := "DateTimeImmutable", interfaces := ["DateTimeInterface"], methods := dateMethods }]

/-- Exceptions that add nothing to what they extend. -/
def exceptions : List (String × String) :=
  [("LogicException", "Exception"), ("RuntimeException", "Exception"),
   ("JsonException", "Exception"), ("InvalidArgumentException", "LogicException"),
   ("DomainException", "LogicException"), ("LengthException", "LogicException"),
   ("OutOfRangeException", "LogicException"), ("BadFunctionCallException", "LogicException"),
   ("BadMethodCallException", "BadFunctionCallException"),
   ("OutOfBoundsException", "RuntimeException"), ("RangeException", "RuntimeException"),
   ("OverflowException", "RuntimeException"), ("UnderflowException", "RuntimeException"),
   ("UnexpectedValueException", "RuntimeException"), ("TypeError", "Error"),
   ("ValueError", "Error"), ("ArithmeticError", "Error"),
   ("DivisionByZeroError", "ArithmeticError"), ("ArgumentCountError", "TypeError")]

/-- What a stub declares. -/
def ClassStub.toClass (s : ClassStub) : ClassInfo :=
  let context : TypeContext := { classContext := some { name := s.name, parent := s.parent } }
  let start := (ClassInfo.ofName s.name s.kind).withInterfaces s.interfaces
  let c : ClassInfo := { start with
    parent := s.parent, dynamic := s.dynamic, isAbstract := s.kind == .interface }
  let c := s.methods.foldl (fun c m =>
    c.addMethod (readSignature context m.name m.params m.result) .everyone m.isStatic) c
  s.properties.foldl (fun c (name, type) =>
    let ty := (context.resolveText? type).getD .mixed
    c.addMember .property { name, ty, declared := some ty, visibility := .heirs, owner := s.name }) c

/-- All classes and interfaces. -/
def allClasses : List ClassInfo :=
  (interfaces.map fun s => { s with kind := .interface }.toClass)
    ++ classes.map ClassStub.toClass
    ++ exceptions.map fun (name, parent) => { name, parent := some parent : ClassStub }.toClass

end PhpCheck.Builtin
