import PhpCheck.Source.Text

/-!
What can be wrong with a source text, with the wording of each report.
-/

namespace PhpCheck

/-- Why a text is refused. -/
inductive SyntaxFault where
  | unexpectedToken (found expected : String)
  | unexpectedEnd (expected : String)
  | unterminatedString
  | unterminatedComment
  | unterminatedHeredoc (label : String)
  | heredocWithoutLabel
  | heredocLabelQuote
  | heredocWithoutNewline
  | enumCase
  | insteadofWithoutTrait
  | nestingTooDeep (limit : Nat)
  | unrecognizedCharacter
  /-- A bound on the reading was reached before its end.  No text has this fault. -/
  | stalled
deriving DecidableEq, Inhabited

namespace SyntaxFault

/-- The class of a fault, as reports list it. -/
def name : SyntaxFault → String
  | .unexpectedToken .. => "UnexpectedToken"
  | .unexpectedEnd .. => "UnexpectedEof"
  | .unterminatedString => "UnterminatedString"
  | .unterminatedComment => "UnterminatedComment"
  | .unterminatedHeredoc _ => "UnterminatedHeredoc"
  | .heredocWithoutLabel | .heredocLabelQuote | .heredocWithoutNewline | .enumCase
  | .insteadofWithoutTrait => "InvalidSyntax"
  | .nestingTooDeep _ => "NestingTooDeep"
  | .unrecognizedCharacter => "LexerError"
  | .stalled => "Stalled"

def message : SyntaxFault → String
  | .unexpectedToken found expected => s!"unexpected '{found}', expected {expected}"
  | .unexpectedEnd expected => s!"unexpected end of file, expected {expected}"
  | .unterminatedString => "unterminated string literal"
  | .unterminatedComment => "unterminated comment"
  | .unterminatedHeredoc label => s!"unterminated heredoc '{label}'"
  | .heredocWithoutLabel => "expected heredoc label after '<<<'"
  | .heredocLabelQuote => "unterminated heredoc label quote"
  | .heredocWithoutNewline => "expected newline after heredoc label"
  | .enumCase => "enum cases are not supported"
  | .insteadofWithoutTrait => "'insteadof' requires a Trait::method reference"
  | .nestingTooDeep limit => s!"nesting deeper than {limit} levels"
  | .unrecognizedCharacter => "unrecognized character"
  | .stalled => "reading makes no progress"

end SyntaxFault

/-- A fault and the place where it was found. -/
structure SyntaxError where
  fault : SyntaxFault
  span : Span
deriving DecidableEq, Inhabited

namespace SyntaxError

def message (e : SyntaxError) : String := e.fault.message

/-- A line without the carriage return that belongs to its line end. -/
def withoutReturn (line : List Char) : List Char :=
  if line.getLast? == some '\r' then line.dropLast else line

/-- Lines of a text without their line ends.  A carriage return before a line
feed belongs to the line end, and a final line end opens no further line. -/
def linesOf (text : List Char) : List (List Char) :=
  let lines := text.splitOnP (· == '\n')
  let ended := lines.dropLast.map withoutReturn
  match lines.getLast? with
  | none | some [] => ended
  | some last => ended ++ [last]

/-- The offending source line with a row of carets under the fault.  Empty when
the text has no such line. -/
def context (e : SyntaxError) (src : Source) : String :=
  match (linesOf src.chars)[e.span.startLine - 1]? with
  | none => ""
  | some line =>
    let column := e.span.startColumn - 1
    let width :=
      if e.span.startLine = e.span.endLine then max (e.span.endColumn - e.span.startColumn) 1
      else 1
    let width := max (min width (byteSize line - column)) 1
    let number := toString e.span.startLine
    let gutter := "".pushn ' ' number.length
    let text := String.ofList line
    let marks := ("".pushn ' ' column).pushn '^' width
    s!"  {number} | {text}\n  {gutter} | {marks}"

/-- Message and context of every error, with a blank line between errors. -/
def report (errors : List SyntaxError) (src : Source) : String :=
  "\n\n".intercalate (errors.map fun e => e.message ++ "\n" ++ e.context src)

end SyntaxError

end PhpCheck
