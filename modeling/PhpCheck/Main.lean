import PhpCheck.CommandLine

/-!
The program.  It is given the names of the files of a project on standard input,
one on a line, and the paths to analyze as arguments.
-/

namespace PhpCheck

/-- Reads lines to the end of the input. -/
partial def readLines (input : IO.FS.Stream) (lines : Array String) : IO (Array String) := do
  let line ← input.getLine
  if line.isEmpty then return lines
  else readLines input (lines.push (String.ofList (line.toList.filter fun c => c != '\n' && c != '\r')))

/-- Reads the files with the given names, leaving out those that cannot be read. -/
def readFiles (names : List String) : IO FileTree := do
  let files ← names.filterMapM fun (name : String) => do
    match ← (IO.FS.readFile name).toBaseIO with
    | .ok text => return some (name, text)
    | .error _ => return none
  return .ofList files

end PhpCheck

open PhpCheck in
def main (arguments : List String) : IO UInt32 := do
  match Options.read arguments with
  | .error e =>
    IO.eprintln ("error: " ++ e.message)
    return 2
  | .ok options =>
    let names ← readLines (← IO.getStdin) #[]
    let outcome := Project.run (← readFiles (names.toList.filter (!·.isEmpty))) options
    IO.print outcome.output
    match outcome.error with
    | some message => IO.eprintln message
    | none => pure ()
    return outcome.exitCode
