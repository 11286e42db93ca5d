import PhpCheck.Builtin.Classes
import PhpCheck.Builtin.Functions

/-!
The registry that every program starts from.
-/

namespace PhpCheck.Builtin

/-- Constants whose value is an integer. -/
def intConstants : List (String × Int64) :=
  [("E_ERROR", 1), ("E_WARNING", 2), ("E_PARSE", 4), ("E_NOTICE", 8), ("E_USER_ERROR", 256),
   ("E_USER_WARNING", 512), ("E_USER_NOTICE", 1024), ("E_STRICT", 2048),
   ("E_DEPRECATED", 8192), ("E_USER_DEPRECATED", 16384), ("E_ALL", 32767),
   ("SORT_REGULAR", 0), ("SORT_NUMERIC", 1), ("SORT_STRING", 2), ("SORT_FLAG_CASE", 8),
   ("COUNT_RECURSIVE", 1), ("JSON_HEX_TAG", 1), ("JSON_PRETTY_PRINT", 128),
   ("JSON_UNESCAPED_SLASHES", 64), ("JSON_UNESCAPED_UNICODE", 256),
   ("JSON_THROW_ON_ERROR", 4194304), ("ENT_QUOTES", 3), ("ENT_HTML5", 48),
   ("PREG_PATTERN_ORDER", 1), ("PREG_SET_ORDER", 2), ("PREG_SPLIT_NO_EMPTY", 1),
   ("FILE_APPEND", 8), ("FILE_IGNORE_NEW_LINES", 2), ("LOCK_EX", 2),
   ("ARRAY_FILTER_USE_KEY", 2), ("ARRAY_FILTER_USE_BOTH", 1), ("FILTER_VALIDATE_INT", 257),
   ("FILTER_VALIDATE_EMAIL", 274), ("FILTER_DEFAULT", 516)]

/-- Other constants. -/
def constants : List (String × Ty) :=
  [("PHP_EOL", .string (some "\n")), ("PHP_INT_MAX", .int (some Int64.maxValue)),
   ("PHP_INT_MIN", .int (some Int64.minValue)), ("PHP_INT_SIZE", .int (some 8)),
   ("PHP_FLOAT_EPSILON", .float (some ⟨0x3cb0000000000000⟩)),
   ("PHP_FLOAT_MAX", .float (some ⟨0x7fefffffffffffff⟩)),
   ("PHP_FLOAT_MIN", .float (some ⟨0x0010000000000000⟩)), ("PHP_FLOAT_DIG", .int (some 15)),
   ("PHP_VERSION", .string none), ("PHP_MAJOR_VERSION", .int none),
   ("PHP_MINOR_VERSION", .int none), ("PHP_OS", .string none), ("PHP_OS_FAMILY", .string none),
   ("DIRECTORY_SEPARATOR", .string (some "/")), ("PATH_SEPARATOR", .string (some ":")),
   ("M_PI", .float (some ⟨0x400921fb54442d18⟩)), ("M_E", .float (some ⟨0x4005bf0a8b145769⟩)),
   ("NAN", .float none), ("INF", .float none), ("STDIN", .resource), ("STDOUT", .resource),
   ("STDERR", .resource)]

def functions : List (String × String × String) :=
  stringFunctions ++ regexFunctions ++ arrayFunctions ++ mathFunctions ++ typeFunctions
    ++ outputFunctions ++ fileFunctions ++ timeFunctions

/-- The classes, functions and constants that every program may use. -/
def registry : Registry :=
  let r := functions.foldl (fun r (name, params, result) =>
    r.addFunction name (readSignature {} name params result)) ({} : Registry)
  let r := constants.foldl (fun r (name, ty) => r.addConstant name (.of ty)) r
  let r := intConstants.foldl (fun r (name, n) => r.addConstant name (.of (.int (some n)))) r
  allClasses.foldl Registry.addClass r

end PhpCheck.Builtin
