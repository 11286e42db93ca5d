import PhpCheck.Token.Error
import PhpCheck.Token.Number

/-!
Cutting a source text into tokens.  Outside tags the text is taken whole up to
the next opening tag; inside, the longest token at the head is taken after
blanks.  Comments, quoted text and heredocs are tokens too, so their extent is
found here, including the code that quoted text may embed.
-/

namespace PhpCheck

/-- A token with its place and its text. -/
structure Token where
  kind : TokenKind
  span : Span
  text : String
deriving DecidableEq, Inhabited

/-- What cutting off one token gives: the token, or the fault in its place. -/
abbrev Lexeme := Except SyntaxError Token

/-- A position in a text: its byte offset and the characters from there on. -/
structure Cursor where
  offset : Nat
  rest : List Char
deriving DecidableEq, Inhabited

namespace Cursor

/-- The position at which `rest`, a tail of what is left here, begins. -/
def upTo (c : Cursor) (rest : List Char) : Cursor :=
  { offset := c.offset + byteSize (c.rest.take (c.rest.length - rest.length)), rest }

/-- The position `n` characters further on. -/
def skip (c : Cursor) (n : Nat) : Cursor :=
  { offset := c.offset + byteSize (c.rest.take n), rest := c.rest.drop n }

end Cursor

/-! ### Punctuation and operators -/

/-- Punctuation and operators, longest first, so that the first entry found at
the head of a text is the longest. -/
def symbols : List (String × TokenKind) :=
  [("...", .ellipsis), ("?->", .nullsafeArrow), ("**=", .starStarEq), ("<<=", .ltLtEq),
   (">>=", .gtGtEq), ("??=", .questionQuestionEq), ("===", .eqEqEq), ("!==", .notEqEq),
   ("<=>", .spaceship), ("?>", .closeTag), ("::", .doubleColon), ("->", .arrow),
   ("=>", .fatArrow), ("+=", .plusEq), ("-=", .minusEq), ("*=", .starEq),
   ("/=", .slashEq), (".=", .dotEq), ("%=", .percentEq), ("&=", .ampEq), ("|=", .pipeEq),
   ("^=", .caretEq), ("==", .eqEq), ("!=", .notEq), ("<>", .ltGt), ("<=", .ltEq),
   (">=", .gtEq), ("**", .starStar), ("++", .plusPlus), ("--", .minusMinus),
   ("&&", .ampAmp), ("||", .pipePipe), ("<<", .ltLt), (">>", .gtGt),
   ("??", .questionQuestion), ("(", .lParen), (")", .rParen), ("[", .lBracket),
   ("]", .rBracket), ("\x7b", .lBrace), ("\x7d", .rBrace), (",", .comma),
   (";", .semicolon), (":", .colon), ("\\", .backslash), ("$", .dollar), ("@", .atSign),
   ("=", .eq), ("<", .lt), (">", .gt), ("+", .plus), ("-", .minus), ("*", .star),
   ("/", .slash), ("%", .percent), (".", .dot), ("!", .bang), ("&", .amp), ("|", .pipe),
   ("^", .caret), ("~", .tilde), ("?", .question)]

def symbol? (text : List Char) : Option (TokenKind × List Char) :=
  (symbols.find? fun entry => entry.1.toList.isPrefixOf text).map fun entry =>
    (entry.2, text.drop entry.1.length)

/-! ### Comments -/

/-- A line comment runs up to the line feed or the closing tag. -/
def lineCommentEnd : List Char → List Char
  | [] => []
  | '?' :: '>' :: rest => '?' :: '>' :: rest
  | c :: rest => if c == '\n' then c :: rest else lineCommentEnd rest

/-- What follows the end mark of a block comment. -/
def blockCommentEnd? : List Char → Option (List Char)
  | [] => none
  | '*' :: '/' :: rest => some rest
  | _ :: rest => blockCommentEnd? rest

/-! ### Quoted text -/

/-- What a scan over quoted text stands in: text in single quotes, text that may
embed code, or code between brackets.  Each remembers where it was opened. -/
inductive Enclosure where
  | plain (since : Nat)
  | template (quote : Char) (since : Nat)
  | code (opening closing : Char) (depth : Nat) (since : Nat)
deriving DecidableEq

namespace Enclosure

def since : Enclosure → Nat
  | .plain n => n
  | .template _ n => n
  | .code _ _ _ n => n

/-- Finds the end of the innermost enclosure `top`, then of those around it.
A backslash in quoted text hides the character after it; code is read up to its
closing bracket, stepping over quoted text inside.  Fails with the place where
the innermost open enclosure began. -/
def close (top : Enclosure) (around : List Enclosure) :
    (offset : Nat) → List Char → Except Nat Cursor
  | _, [] => .error top.since
  | offset, c :: rest =>
    let next := offset + c.utf8Size
    let leave : Except Nat Cursor := match around with
      | [] => .ok { offset := next, rest }
      | outer :: others => outer.close others next rest
    match top with
    | .plain since =>
      if c == '\\' then
        match rest with
        | [] => .error since
        | hidden :: rest => top.close around (next + hidden.utf8Size) rest
      else if c == '\'' then leave
      else top.close around next rest
    | .template quote since =>
      if c == '\\' then
        match rest with
        | [] => .error since
        | hidden :: rest => top.close around (next + hidden.utf8Size) rest
      else if c == quote then leave
      else match rest with
        | d :: more =>
          if c == '{' && d == '$' then
            (Enclosure.code '{' '}' 0 offset).close (top :: around) next (d :: more)
          else if c == '$' && d == '{' then
            (Enclosure.code '{' '}' 0 next).close (top :: around) (next + 1) more
          else top.close around next (d :: more)
        | [] => .error since
    | .code opening closing depth since =>
      if c == '\'' then (Enclosure.plain offset).close (top :: around) next rest
      else if c == '"' then (Enclosure.template '"' offset).close (top :: around) next rest
      else if c == opening then
        (Enclosure.code opening closing (depth + 1) since).close around next rest
      else if c == closing then
        match depth with
        | 0 => leave
        | depth + 1 => (Enclosure.code opening closing depth since).close around next rest
      else top.close around next rest

end Enclosure

/-! ### Heredocs -/

/-- What follows the closing label: the first line that begins, after
indentation, with the label and no further name character. -/
def heredocEnd? (label : List Char) : (lineStart : Bool) → List Char → Option (List Char)
  | lineStart, text =>
    let line := text.dropWhile isIndent
    let after := line.drop label.length
    if lineStart && label.isPrefixOf line && !(after.head?.any isNameChar) then some after
    else match text with
      | [] => none
      | c :: rest => heredocEnd? label (c == '\n') rest

/-- The extent of a heredoc whose opening mark has been read.  A label in single
quotes makes it a text without embedded code. -/
def heredoc (src : Source) (start : Nat) (c : Cursor) :
    Except SyntaxError (TokenKind × List Char) :=
  let fail (fault : SyntaxFault) (rest : List Char) : Except SyntaxError (TokenKind × List Char) :=
    .error { fault, span := src.span start (c.upTo rest).offset }
  let text := c.rest.dropWhile isIndent
  let quote := text.head?.filter fun q => q == '\'' || q == '"'
  let text := if quote.isSome then text.drop 1 else text
  let label := text.takeWhile isNameChar
  let text := text.dropWhile isNameChar
  if label.isEmpty then fail .heredocWithoutLabel text
  else if quote.isSome && text.head? != quote then fail .heredocLabelQuote text
  else
    let text := if quote.isSome then text.drop 1 else text
    let body? := match text with
      | '\r' :: '\n' :: rest => some rest
      | '\n' :: rest => some rest
      | _ => none
    match body? with
    | none => fail .heredocWithoutNewline text
    | some body =>
      match heredocEnd? label true body with
      | some rest => .ok (if quote == some '\'' then .nowdoc else .heredoc, rest)
      | none =>
        .error
          { fault := .unterminatedHeredoc (String.ofList label)
            span := src.span start src.size }

/-- Where the body of a heredoc lies within the token's text, and how far its
closing label is indented. -/
structure HeredocBody where
  offset : Nat
  size : Nat
  indent : Nat
deriving DecidableEq

/-- The parts of a heredoc's text.  The body begins after the first line and
ends before the line end in front of the closing label. -/
def heredocBody? (text : List Char) : Option HeredocBody :=
  let first := text.takeWhile (· != '\n')
  if first.length = text.length then none
  else
    let closing := (text.reverse.takeWhile (· != '\n')).reverse
    let upToLast := text.take (text.length - closing.length - 1)
    let offset := byteSize first + 1
    let size := byteSize (if upToLast.getLast? == some '\r' then upToLast.dropLast else upToLast)
    some { offset, size := size - offset, indent := byteSize (closing.takeWhile isIndent) }

/-! ### One token -/

/-- Whether the text at hand is outside or inside tags. -/
inductive Mode where
  | markup | code
deriving DecidableEq, Inhabited

/-- The state of a scan: the mode and the position reached. -/
structure Scanner where
  mode : Mode
  cursor : Cursor
deriving DecidableEq, Inhabited

namespace Scanner

/-- A scan from the beginning of a file, outside tags. -/
def ofSource (src : Source) : Scanner :=
  { mode := .markup, cursor := { offset := 0, rest := src.chars } }

/-- A scan of code from a byte offset on. -/
def inCode (src : Source) (start : Nat) : Scanner :=
  { mode := .code, cursor := { offset := min start src.size, rest := dropBytes start src.chars } }

/-- Text before the next opening tag. -/
def markupLength : List Char → Nat
  | '<' :: '?' :: _ => 0
  | [] => 0
  | _ :: rest => markupLength rest + 1

/-- The opening tag at the head of a text: its kind and its length. -/
def openingTag (text : List Char) : TokenKind × Nat :=
  if text.take 3 == ['<', '?', '='] then (.openTagWithEcho, 3)
  else if (text.take 5).map Char.toLower == "<?php".toList then (.openTag, 5)
  else (.openTag, 2)

def token (src : Source) (kind : TokenKind) (first last : Cursor) : Token :=
  { kind
    span := src.span first.offset last.offset
    text := String.ofList (first.rest.take (first.rest.length - last.rest.length)) }

/-- The position at the end of a text. -/
def atEnd (src : Source) : Cursor := { offset := src.size, rest := [] }

/-- The token at the head of code, or the fault there, with the position after
it.  A fault in the extent of a token leaves nothing to scan. -/
def headToken (src : Source) (c : Cursor) (head : Char) (tail : List Char) : Lexeme × Cursor :=
  let upTo (kind : TokenKind) (last : Cursor) : Lexeme × Cursor := (.ok (token src kind c last), last)
  let quoted (kind : TokenKind) (inside : Enclosure) (opening : Nat) : Lexeme × Cursor :=
    match inside.close [] (c.offset + opening) (c.rest.drop opening) with
    | .ok last => upTo kind last
    | .error since =>
      (.error { fault := .unterminatedString, span := src.span since src.size }, atEnd src)
  if head == '\'' then quoted .stringLiteral (.plain c.offset) 1
  else if head == '"' then quoted .templateString (.template '"' c.offset) 1
  else if head == '\x60' then quoted .shellCommand (.template '\x60' c.offset) 1
  else if head == '#' && tail.head? == some '[' then
    quoted .lineComment (.code '[' ']' 0 (c.offset + 1)) 2
  else if head == '#' then upTo .lineComment (c.upTo (lineCommentEnd tail))
  else if head == '/' && tail.head? == some '/' then
    upTo .lineComment (c.upTo (lineCommentEnd (tail.drop 1)))
  else if head == '/' && tail.head? == some '*' then
    match blockCommentEnd? (tail.drop 1) with
    | some rest =>
      let last := c.upTo rest
      let text := c.rest.take (c.rest.length - rest.length)
      let isDoc := text.take 3 == "/**".toList && text.length != 4
      upTo (if isDoc then .docComment else .lineComment) last
    | none =>
      (.error { fault := .unterminatedComment, span := src.span c.offset src.size }, atEnd src)
  else if c.rest.take 3 == "<<<".toList then
    match heredoc src c.offset (c.skip 3) with
    | .ok (kind, rest) => upTo kind (c.upTo rest)
    | .error e => (.error e, atEnd src)
  else match Number.scan? c.rest with
    | some (kind, rest) => upTo kind (c.upTo rest)
    | none =>
      if isNameStart head then
        let last := c.upTo (tail.dropWhile isNameChar)
        let word := String.ofList (head :: tail.takeWhile isNameChar)
        upTo ((TokenKind.keyword? word).getD .identifier) last
      else if head == '$' && tail.head?.any isNameStart then
        upTo .variableName (c.upTo (tail.dropWhile isNameChar))
      else match symbol? c.rest with
        | some (kind, rest) => upTo kind (c.upTo rest)
        | none =>
          let last := c.skip 1
          (.error { fault := .unrecognizedCharacter, span := src.span c.offset last.offset }, last)

/-- A line end directly after a closing tag belongs to the tag. -/
def afterClosingTag (c : Cursor) : Cursor :=
  match c.rest with
  | '\r' :: '\n' :: _ => c.skip 2
  | '\n' :: _ => c.skip 1
  | _ => c

/-- Cuts off the next token.  Nothing is left when the text holds only blanks,
which are passed over. -/
def next (src : Source) (s : Scanner) : Option Lexeme × Scanner :=
  match s.mode with
  | .markup =>
    match s.cursor.rest with
    | [] => (none, s)
    | text =>
      let before := markupLength text
      if before = 0 then
        let (kind, size) := openingTag text
        let last := s.cursor.skip size
        (some (.ok (token src kind s.cursor last)), { mode := .code, cursor := last })
      else
        let last := s.cursor.skip before
        (some (.ok (token src .inlineHtml s.cursor last)), { s with cursor := last })
  | .code =>
    let c := s.cursor.upTo (s.cursor.rest.dropWhile isBlank)
    match c.rest with
    | [] => (none, { s with cursor := c })
    | head :: tail =>
      let (lexeme, last) := headToken src c head tail
      match lexeme with
      | .ok tok =>
        if tok.kind = .closeTag then
          (some lexeme, { mode := .markup, cursor := afterClosingTag last })
        else (some lexeme, { s with cursor := last })
      | .error _ => (some lexeme, { s with cursor := last })

/-- Up to `fuel` further tokens. -/
def takeUpTo (src : Source) : (fuel : Nat) → Scanner → List Lexeme
  | 0, _ => []
  | fuel + 1, s =>
    match s.next src with
    | (none, _) => []
    | (some lexeme, s) => lexeme :: takeUpTo src fuel s

/-- All further tokens.  Each takes at least one character, so their number is
at most that of the characters left. -/
def all (src : Source) (s : Scanner) : List Lexeme :=
  takeUpTo src s.cursor.rest.length s

end Scanner

/-- The tokens of a whole file. -/
def tokenize (src : Source) : List Lexeme := (Scanner.ofSource src).all src

/-- The tokens of code that begins at a byte offset. -/
def tokenizeCode (src : Source) (start : Nat) : List Lexeme := (Scanner.inCode src start).all src

end PhpCheck
