import PhpCheck.Grammar.Statement

/-!
Whole files.  The productions are tied together by descending one nesting level
at a time, so the nesting limit is also what makes reading end.
-/

namespace PhpCheck

namespace Grammar

/-- The grammar with `depth` nesting levels left.  `code` reads code embedded in
quoted text, which starts at the outermost level again. -/
def descend (code : Nat → Nat → Parse Node) : (depth : Nat) → Below
  | _, .code start stop => code start stop
  | 0, _ => do
    throw { fault := .nestingTooDeep maxNesting, span := ← currentSpan }
  | depth + 1, .expression min => binary (descend code depth) min
  | depth + 1, .statement => statement (descend code depth)

/-- An expression that must be followed by the end of the text. -/
def wholeExpression (below : Below) : Parse Node := do
  let value ← below.expression
  match (← get).current with
  | none => return value
  | some tok =>
    throw
      { fault := .unexpectedToken tok.text "end of interpolated expression", span := tok.span }

/-- Reads a byte range of the text as an expression of its own.  Its faults are
added to those of the text around it, and a failure leaves an error node. -/
def embedded (below : Below) (start stop : Nat) : Parse Node := do
  let src := (← read).truncate stop
  let inner := State.ofLexemes (tokenizeCode src start)
  match wholeExpression below src inner with
  | .ok value after =>
    modify fun s => { s with errors := s.errors ++ after.errors }
    return value
  | .error e after =>
    modify fun s => { s with errors := s.errors ++ after.errors ++ [e] }
    return Node.ofKind .error e.span []

/-- Reads embedded code that may hold quoted text with embedded code again, up
to `levels` times. -/
def embeddedCode : (levels : Nat) → Nat → Nat → Parse Node
  | 0, start, stop => do
    let span ← spanOf start stop
    note { fault := .stalled, span }
    return Node.ofKind .error span []
  | levels + 1, start, stop => embedded (descend (embeddedCode levels) maxNesting) start stop

/-- The grammar at the outermost level.  Quoted text within quoted text gets
shorter each time, so the size of the text bounds the levels. -/
def top (src : Source) : Below := descend (embeddedCode src.size) maxNesting

end Grammar

/-- The tree of a source text and the faults found in it. -/
def parse (src : Source) : Node × List SyntaxError :=
  let file : Grammar.Parse (List Node) := Grammar.statementsUntil (Grammar.top src) []
  match file src (Grammar.State.ofLexemes (tokenize src)) with
  | .ok statements s =>
    (Node.ofKind .sourceFile (src.span 0 src.size) statements, s.errors)
  | .error e s => (Node.ofKind .sourceFile (src.span 0 src.size) [], s.errors ++ [e])

end PhpCheck
