import PhpCheck.Token.Precedence
import PhpCheck.Token.Scanner
import PhpCheck.Tree.Node

/-!
The state of a reading of tokens into a tree, and the steps that all productions
are made of.  A failed production keeps the tokens it consumed, so that recovery
goes on from where it stopped.
-/

namespace PhpCheck.Grammar

/-- How deep expressions and statements may nest. -/
def maxNesting : Nat := 128

/-- The state between two tokens. -/
structure State where
  /-- The token to be read next; none at the end of the text. -/
  current : Option Token
  /-- The doc comment directly in front of `current`. -/
  doc : Option Token
  /-- Where the last consumed token ended. -/
  prevEnd : Nat
  /-- What follows `current`, comments and lexical faults included. -/
  rest : List Lexeme
  /-- The faults found so far. -/
  errors : List SyntaxError
deriving Inhabited

/-- A production over a source text.  Its failure keeps the state. -/
abbrev Parse := ReaderT Source (EStateM SyntaxError State)

/-- What a production may ask of the grammar one nesting level further down. -/
inductive Goal where
  /-- An expression whose operators bind at least as tightly as `min`. -/
  | expression (min : Precedence)
  | statement
  /-- An expression that makes up the whole of a byte range inside quoted text. -/
  | code (start stop : Nat)
deriving DecidableEq

/-- The grammar one nesting level further down. -/
abbrev Below := Goal → Parse Node

def Below.expression (below : Below) : Parse Node := below (.expression .lowest)

namespace State

/-- The state at the next token that is no comment.  Faults on the way are
noted, and the last doc comment on the way is kept. -/
def settle (prevEnd : Nat) : (doc : Option Token) → (errors : List SyntaxError) →
    List Lexeme → State
  | doc, errors, [] => { current := none, doc, prevEnd, rest := [], errors }
  | doc, errors, .error e :: rest => settle prevEnd doc (errors ++ [e]) rest
  | doc, errors, .ok tok :: rest =>
    if tok.kind = .lineComment then settle prevEnd doc errors rest
    else if tok.kind = .docComment then settle prevEnd (some tok) errors rest
    else { current := some tok, doc, prevEnd, rest, errors }

/-- The state in front of the first of some tokens. -/
def ofLexemes (lexemes : List Lexeme) : State := settle 0 none [] lexemes

/-- The state after the current token. -/
def advance (s : State) : State :=
  settle ((s.current.map (·.span.stop)).getD s.prevEnd) none s.errors s.rest

/-- The `n`-th token of a list, comments and faults not counted. -/
def nthToken? : Nat → List Lexeme → Option Token
  | _, [] => none
  | n, .error _ :: rest => nthToken? n rest
  | n, .ok tok :: rest =>
    if tok.kind.isComment then nthToken? n rest
    else match n with
      | 0 => some tok
      | n + 1 => nthToken? n rest

end State

/-! ### Reading tokens -/

/-- Consumes the current token and returns it. -/
def advance : Parse (Option Token) := do
  let s ← get
  set s.advance
  return s.current

def kind? : Parse (Option TokenKind) := do return (← get).current.map (·.kind)

def atEnd : Parse Bool := do return (← get).current.isNone

def check (kind : TokenKind) : Parse Bool := do return (← kind?) == some kind

def checkAny (kinds : List TokenKind) : Parse Bool := do return (← kind?).any kinds.contains

/-- Consumes the current token if it is of a kind. -/
def eat (kind : TokenKind) : Parse (Option Token) := do
  if ← check kind then advance else return none

/-- Consumes the current token if it is of a kind and says whether it was. -/
def eats (kind : TokenKind) : Parse Bool := do return (← eat kind).isSome

/-- The token `n` places after the current one. -/
def peekNth (n : Nat) : Parse (Option Token) := do return State.nthToken? n (← get).rest

def peek? : Parse (Option TokenKind) := do return (← peekNth 0).map (·.kind)

/-! ### Places -/

def spanOf (start stop : Nat) : Parse Span := do return (← read).span start stop

/-- Where the current token begins. -/
def here : Parse Nat := do return ((← get).current.map (·.span.start)).getD (← read).size

def currentSpan : Parse Span := do
  match (← get).current with
  | some tok => return tok.span
  | none => spanOf (← read).size (← read).size

/-- From `start` to the end of the last consumed token. -/
def spanFrom (start : Nat) : Parse Span := do spanOf start (max (← get).prevEnd start)

/-! ### Failing -/

/-- Fails at the current token. -/
def unexpected {α : Type} (expected : String) : Parse α := do
  match (← get).current with
  | some tok => throw { fault := .unexpectedToken tok.text expected, span := tok.span }
  | none => throw { fault := .unexpectedEnd expected, span := ← currentSpan }

/-- Consumes a token of the kind that must stand here. -/
def expect (kind : TokenKind) (what : String) : Parse Token := do
  match ← eat kind with
  | some tok => return tok
  | none => unexpected what

/-- The end of a statement: a semicolon, or nothing before a closing tag or at
the end of the text. -/
def expectSemicolon : Parse Unit := do
  if (← eats .semicolon) || (← check .closeTag) || (← atEnd) then return ()
  else unexpected "';'"

/-- Fails because a bound was reached. -/
def stall {α : Type} : Parse α := do throw { fault := .stalled, span := ← currentSpan }

def note (e : SyntaxError) : Parse Unit := modify fun s => { s with errors := s.errors ++ [e] }

/-- Runs a production and returns its failure as a value. -/
def attempt {α : Type} (p : Parse α) : Parse (Except SyntaxError α) := fun src s =>
  match p src s with
  | .ok a s => .ok (.ok a) s
  | .error e s => .ok (.error e) s

/-! ### Repetition -/

/-- How a round of a repetition ends. -/
inductive Round (α : Type) where
  | more (a : α)
  | done (a : α)

/-- Repeats `round` until it is done, in at most `fuel` rounds. -/
def rounds {α : Type} (round : α → Parse (Round α)) : (fuel : Nat) → α → Parse α
  | 0, _ => stall
  | fuel + 1, a => do
    match ← round a with
    | .more a => rounds round fuel a
    | .done a => return a

/-- Repeats `round` until it is done.  Every round but the last consumes a token,
so the tokens left bound their number. -/
def repeated {α : Type} (init : α) (round : α → Parse (Round α)) : Parse α := do
  rounds round ((← get).rest.length + 2) init

/-- Items separated by commas up to a token that `stop` recognises, which is not
consumed.  A comma may stand after the last item. -/
def commaList {α : Type} (stop : Parse Bool) (item : Parse α) : Parse (List α) := do
  let items ← repeated [] fun items => do
    if (← atEnd) || (← stop) then return .done items
    let items := (← item) :: items
    if ← eats .comma then return .more items
    return .done items
  return items.reverse

/-- One or more items with a separator between them. -/
def separated {α : Type} (separator : TokenKind) (item : Parse α) : Parse (List α) := do
  let first ← item
  let items ← repeated [first] fun items => do
    if ← eats separator then return .more ((← item) :: items)
    return .done items
  return items.reverse

/-! ### Small nodes -/

/-- A node over what was consumed since `start`. -/
def nodeFrom (kind : NodeKind) (start : Nat) (children : List Node) : Parse Node := do
  return Node.ofKind kind (← spanFrom start) children

def flag (span : Span) : Node := Node.ofKind .flag span []

/-- A flag at the place of a token, in a role, when there is such a token. -/
def flagField (field : String) (tok : Option Token) : List Node :=
  match tok with
  | some tok => [(flag tok.span).inField field]
  | none => []

/-- A child in a role, when there is one. -/
def optField (field : String) (child : Option Node) : List Node :=
  match child with
  | some child => [child.inField field]
  | none => []

/-- Takes the doc comment in front of the current token. -/
def takeDoc : Parse (Option Node) := do
  let s ← get
  set { s with doc := none }
  return s.doc.map fun tok => Node.leaf .docComment tok.span tok.text

end PhpCheck.Grammar
