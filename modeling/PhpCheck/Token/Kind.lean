/-!
The kinds of token and how the grammar groups them.
-/

namespace PhpCheck

/-- The kind of a token.  Keywords stand first after the tags, then
punctuation, operators, literals and names. -/
inductive TokenKind where
  | openTag | openTagWithEcho | closeTag | inlineHtml | kwAbstract | kwAnd | kwArray | kwAs
  | kwBreak | kwCallable | kwCase | kwCatch | kwClass | kwClone | kwConst | kwContinue
  | kwDeclare | kwDefault | kwDie | kwDo | kwEcho | kwElse | kwElseif | kwEmpty
  | kwEnddeclare | kwEndfor | kwEndforeach | kwEndif | kwEndswitch | kwEndwhile | kwEval
  | kwExit | kwExtends | kwFinal | kwFinally | kwFn | kwFor | kwForeach | kwFunction
  | kwGlobal | kwGoto | kwIf | kwImplements | kwInclude | kwIncludeOnce | kwInstanceof
  | kwInsteadof | kwInterface | kwIsset | kwList | kwMatch | kwNamespace | kwNew | kwOr
  | kwPrint | kwPrivate | kwProtected | kwPublic | kwReadonly | kwRequire | kwRequireOnce
  | kwReturn | kwStatic | kwSwitch | kwThrow | kwTrait | kwTry | kwUnset | kwUse | kwVar
  | kwWhile | kwXor | kwYield | lParen | rParen | lBracket | rBracket | lBrace | rBrace
  | comma | semicolon | doubleColon | colon | backslash | ellipsis | arrow | nullsafeArrow
  | fatArrow | dollar | atSign | eq | plusEq | minusEq | starEq | slashEq | dotEq | percentEq
  | starStarEq | ampEq | pipeEq | caretEq | ltLtEq | gtGtEq | questionQuestionEq | eqEq
  | eqEqEq | notEq | ltGt | notEqEq | lt | gt | ltEq | gtEq | spaceship | plus | minus
  | star | slash | percent | starStar | dot | plusPlus | minusMinus | ampAmp | pipePipe
  | bang | amp | pipe | caret | tilde | ltLt | gtGt | question | questionQuestion
  | lineComment | docComment | stringLiteral | templateString | heredoc | nowdoc
  | shellCommand | hexLiteral | binaryLiteral | octalLiteral | decimalLiteral
  | floatLiteral | variableName | identifier
deriving DecidableEq, Inhabited

namespace TokenKind

/-- The name under which a kind is listed. -/
def name : TokenKind → String
  | .openTag => "OpenTag"
  | .openTagWithEcho => "OpenTagWithEcho"
  | .closeTag => "CloseTag"
  | .inlineHtml => "InlineHtml"
  | .kwAbstract => "KwAbstract"
  | .kwAnd => "KwAnd"
  | .kwArray => "KwArray"
  | .kwAs => "KwAs"
  | .kwBreak => "KwBreak"
  | .kwCallable => "KwCallable"
  | .kwCase => "KwCase"
  | .kwCatch => "KwCatch"
  | .kwClass => "KwClass"
  | .kwClone => "KwClone"
  | .kwConst => "KwConst"
  | .kwContinue => "KwContinue"
  | .kwDeclare => "KwDeclare"
  | .kwDefault => "KwDefault"
  | .kwDie => "KwDie"
  | .kwDo => "KwDo"
  | .kwEcho => "KwEcho"
  | .kwElse => "KwElse"
  | .kwElseif => "KwElseif"
  | .kwEmpty => "KwEmpty"
  | .kwEnddeclare => "KwEnddeclare"
  | .kwEndfor => "KwEndfor"
  | .kwEndforeach => "KwEndforeach"
  | .kwEndif => "KwEndif"
  | .kwEndswitch => "KwEndswitch"
  | .kwEndwhile => "KwEndwhile"
  | .kwEval => "KwEval"
  | .kwExit => "KwExit"
  | .kwExtends => "KwExtends"
  | .kwFinal => "KwFinal"
  | .kwFinally => "KwFinally"
  | .kwFn => "KwFn"
  | .kwFor => "KwFor"
  | .kwForeach => "KwForeach"
  | .kwFunction => "KwFunction"
  | .kwGlobal => "KwGlobal"
  | .kwGoto => "KwGoto"
  | .kwIf => "KwIf"
  | .kwImplements => "KwImplements"
  | .kwInclude => "KwInclude"
  | .kwIncludeOnce => "KwIncludeOnce"
  | .kwInstanceof => "KwInstanceof"
  | .kwInsteadof => "KwInsteadof"
  | .kwInterface => "KwInterface"
  | .kwIsset => "KwIsset"
  | .kwList => "KwList"
  | .kwMatch => "KwMatch"
  | .kwNamespace => "KwNamespace"
  | .kwNew => "KwNew"
  | .kwOr => "KwOr"
  | .kwPrint => "KwPrint"
  | .kwPrivate => "KwPrivate"
  | .kwProtected => "KwProtected"
  | .kwPublic => "KwPublic"
  | .kwReadonly => "KwReadonly"
  | .kwRequire => "KwRequire"
  | .kwRequireOnce => "KwRequireOnce"
  | .kwReturn => "KwReturn"
  | .kwStatic => "KwStatic"
  | .kwSwitch => "KwSwitch"
  | .kwThrow => "KwThrow"
  | .kwTrait => "KwTrait"
  | .kwTry => "KwTry"
  | .kwUnset => "KwUnset"
  | .kwUse => "KwUse"
  | .kwVar => "KwVar"
  | .kwWhile => "KwWhile"
  | .kwXor => "KwXor"
  | .kwYield => "KwYield"
  | .lParen => "LParen"
  | .rParen => "RParen"
  | .lBracket => "LBracket"
  | .rBracket => "RBracket"
  | .lBrace => "LBrace"
  | .rBrace => "RBrace"
  | .comma => "Comma"
  | .semicolon => "Semicolon"
  | .doubleColon => "DoubleColon"
  | .colon => "Colon"
  | .backslash => "Backslash"
  | .ellipsis => "Ellipsis"
  | .arrow => "Arrow"
  | .nullsafeArrow => "NullsafeArrow"
  | .fatArrow => "FatArrow"
  | .dollar => "Dollar"
  | .atSign => "At"
  | .eq => "Eq"
  | .plusEq => "PlusEq"
  | .minusEq => "MinusEq"
  | .starEq => "StarEq"
  | .slashEq => "SlashEq"
  | .dotEq => "DotEq"
  | .percentEq => "PercentEq"
  | .starStarEq => "StarStarEq"
  | .ampEq => "AmpEq"
  | .pipeEq => "PipeEq"
  | .caretEq => "CaretEq"
  | .ltLtEq => "LtLtEq"
  | .gtGtEq => "GtGtEq"
  | .questionQuestionEq => "QuestionQuestionEq"
  | .eqEq => "EqEq"
  | .eqEqEq => "EqEqEq"
  | .notEq => "NotEq"
  | .ltGt => "LtGt"
  | .notEqEq => "NotEqEq"
  | .lt => "Lt"
  | .gt => "Gt"
  | .ltEq => "LtEq"
  | .gtEq => "GtEq"
  | .spaceship => "Spaceship"
  | .plus => "Plus"
  | .minus => "Minus"
  | .star => "Star"
  | .slash => "Slash"
  | .percent => "Percent"
  | .starStar => "StarStar"
  | .dot => "Dot"
  | .plusPlus => "PlusPlus"
  | .minusMinus => "MinusMinus"
  | .ampAmp => "AmpAmp"
  | .pipePipe => "PipePipe"
  | .bang => "Bang"
  | .amp => "Amp"
  | .pipe => "Pipe"
  | .caret => "Caret"
  | .tilde => "Tilde"
  | .ltLt => "LtLt"
  | .gtGt => "GtGt"
  | .question => "Question"
  | .questionQuestion => "QuestionQuestion"
  | .lineComment => "LineComment"
  | .docComment => "DocComment"
  | .stringLiteral => "StringLiteral"
  | .templateString => "TemplateString"
  | .heredoc => "Heredoc"
  | .nowdoc => "Nowdoc"
  | .shellCommand => "ShellCommand"
  | .hexLiteral => "HexLiteral"
  | .binaryLiteral => "BinaryLiteral"
  | .octalLiteral => "OctalLiteral"
  | .decimalLiteral => "DecimalLiteral"
  | .floatLiteral => "FloatLiteral"
  | .variableName => "Variable"
  | .identifier => "Identifier"

/-- The reserved words, in lower case, with their kinds. -/
def keywords : List (String × TokenKind) :=
  [("abstract", .kwAbstract), ("and", .kwAnd), ("array", .kwArray), ("as", .kwAs),
   ("break", .kwBreak), ("callable", .kwCallable), ("case", .kwCase), ("catch", .kwCatch),
   ("class", .kwClass), ("clone", .kwClone), ("const", .kwConst),
   ("continue", .kwContinue), ("declare", .kwDeclare), ("default", .kwDefault),
   ("die", .kwDie), ("do", .kwDo), ("echo", .kwEcho), ("else", .kwElse),
   ("elseif", .kwElseif), ("empty", .kwEmpty), ("enddeclare", .kwEnddeclare),
   ("endfor", .kwEndfor), ("endforeach", .kwEndforeach), ("endif", .kwEndif),
   ("endswitch", .kwEndswitch), ("endwhile", .kwEndwhile), ("eval", .kwEval),
   ("exit", .kwExit), ("extends", .kwExtends), ("final", .kwFinal),
   ("finally", .kwFinally), ("fn", .kwFn), ("for", .kwFor), ("foreach", .kwForeach),
   ("function", .kwFunction), ("global", .kwGlobal), ("goto", .kwGoto), ("if", .kwIf),
   ("implements", .kwImplements), ("include", .kwInclude),
   ("include_once", .kwIncludeOnce), ("instanceof", .kwInstanceof),
   ("insteadof", .kwInsteadof), ("interface", .kwInterface), ("isset", .kwIsset),
   ("list", .kwList), ("match", .kwMatch), ("namespace", .kwNamespace), ("new", .kwNew),
   ("or", .kwOr), ("print", .kwPrint), ("private", .kwPrivate),
   ("protected", .kwProtected), ("public", .kwPublic), ("readonly", .kwReadonly),
   ("require", .kwRequire), ("require_once", .kwRequireOnce), ("return", .kwReturn),
   ("static", .kwStatic), ("switch", .kwSwitch), ("throw", .kwThrow), ("trait", .kwTrait),
   ("try", .kwTry), ("unset", .kwUnset), ("use", .kwUse), ("var", .kwVar),
   ("while", .kwWhile), ("xor", .kwXor), ("yield", .kwYield)]

/-- The keyword that a word spells in any case. -/
def keyword? (word : String) : Option TokenKind :=
  (keywords.find? (·.1 == word.toLower)).map (·.2)

def isKeyword (k : TokenKind) : Bool := keywords.any (·.2 == k)

/-- Identifiers and reserved words may both name a member (`$a->list`,
`Foo::class`). -/
def isMemberName (k : TokenKind) : Bool := k == .identifier || k.isKeyword

/-- The operator that a compound assignment applies. -/
def compoundOperator? : TokenKind → Option String
  | .plusEq => some "+"
  | .minusEq => some "-"
  | .starEq => some "*"
  | .slashEq => some "/"
  | .dotEq => some "."
  | .percentEq => some "%"
  | .starStarEq => some "**"
  | .ampEq => some "&"
  | .pipeEq => some "|"
  | .caretEq => some "^"
  | .ltLtEq => some "<<"
  | .gtGtEq => some ">>"
  | .questionQuestionEq => some "??"
  | _ => none

def isCompoundAssignment (k : TokenKind) : Bool := k.compoundOperator?.isSome

def isAssignment (k : TokenKind) : Bool := k == .eq || k.isCompoundAssignment

def isLiteral (k : TokenKind) : Bool :=
  [hexLiteral, binaryLiteral, octalLiteral, decimalLiteral, floatLiteral, stringLiteral,
    templateString, heredoc, nowdoc].contains k

/-- Words that may stand before a class or a class member. -/
def isModifier (k : TokenKind) : Bool :=
  [kwPublic, kwProtected, kwPrivate, kwStatic, kwAbstract, kwFinal, kwReadonly,
    kwVar].contains k

def isComment (k : TokenKind) : Bool := k == .lineComment || k == .docComment

end TokenKind

end PhpCheck
