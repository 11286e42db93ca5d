import PhpCheck.Proofs.Token.Lossless
import PhpCheck.Token.Precedence
import PhpCheck.Tree.Node

/-!
Trees of binary operators, and how they are written.

A tree is written with as few parentheses as its operators allow, which depends on how
tightly they bind and how they group (`InfixTree.render`).  The tokens of what is
written are those of the tree from left to right (`InfixTree.splits_render`), and the
tokens of a file that consists of it are those and the ones around them (`tokenize_file`).
-/

namespace PhpCheck

/-! ### Trees and what they are written as -/

/-- A letter and further characters of a name. -/
def isName : List Char → Bool
  | [] => false
  | c :: rest => isNameStart c && rest.all isNameChar

/-- What may follow the dollar sign of a variable. -/
structure VariableName where
  text : String
  isName : isName text.toList = true

/-- An operator between two expressions, with how tightly it binds and how it groups. -/
structure InfixOperator where
  kind : TokenKind
  text : String
  level : Precedence
  grouping : Associativity
  binary : kind.binary? = some (level, grouping)
  ne_instanceof : kind ≠ .kwInstanceof
  spelled : (text, kind) ∈ symbols ++ TokenKind.keywords

/-- The level at which the right operand of an operator is read. -/
def InfixOperator.rightMin (op : InfixOperator) : Precedence :=
  if op.grouping == .right then op.level else op.level.next

/-- Variables and operators between them. -/
inductive InfixTree where
  | leaf (name : VariableName)
  | node (left : InfixTree) (op : InfixOperator) (right : InfixTree)

namespace InfixTree

/-- On the left of an operator, what binds less tightly needs parentheses, and what binds as
tightly and groups to the right. -/
def enclosedLeft (op : InfixOperator) : InfixTree → Bool
  | leaf _ => false
  | node _ child _ => child.level.rank < op.level.rank ||
      (child.level == op.level && child.grouping == .right)

/-- On the right of an operator, what binds less tightly needs parentheses, and what binds as
tightly and does not group to the right. -/
def enclosedRight (op : InfixOperator) : InfixTree → Bool
  | leaf _ => false
  | node _ child _ => child.level.rank < op.level.rank ||
      (child.level == op.level && child.grouping != .right)

/-- A text, in parentheses where it is enclosed. -/
def parens (enclosed : Bool) (text : String) : String :=
  if enclosed then "(" ++ text ++ ")" else text

/-- The text of a tree, with blanks around operators. -/
def render : InfixTree → String
  | leaf name => "$" ++ name.text
  | node left op right =>
    parens (left.enclosedLeft op) left.render ++ " " ++ op.text ++ " " ++
      parens (right.enclosedRight op) right.render

/-- A tree as a node, without places. -/
def toNode : InfixTree → Node
  | leaf name => Node.leaf .variableName default name.text
  | node left op right =>
    Node.ofKind .binaryExpression default
      [left.toNode.inField "left", (Node.leaf .operator default op.text).inField "operator",
       right.toNode.inField "right"]

/-- How many levels of expressions are open at once within the one that is read. -/
def nesting : InfixTree → Nat
  | leaf _ => 0
  | node left op right =>
    max (left.nesting + (left.enclosedLeft op).toNat)
      (right.nesting + 1 + (right.enclosedRight op).toNat)

/-! ### Words -/

/-- The kind and the text of a token. -/
abbrev Word := TokenKind × String

/-- Words, in parentheses where they are enclosed. -/
def enclose (enclosed : Bool) (words : List Word) : List Word :=
  if enclosed then (.lParen, "(") :: (words ++ [(.rParen, ")")]) else words

/-- The words of a tree. -/
def words : InfixTree → List Word
  | leaf name => [(.variableName, "$" ++ name.text)]
  | node left op right =>
    enclose (left.enclosedLeft op) left.words ++
      (op.kind, op.text) :: enclose (right.enclosedRight op) right.words

end InfixTree

/-- A token without its place. -/
def Token.word (t : Token) : InfixTree.Word := (t.kind, t.text)

/-! ### The words of a text -/

/-- From one position in code to another, some tokens are cut off. -/
inductive Cuts (src : Source) : Cursor → List Token → Cursor → Prop
  | nil (c : Cursor) : Cuts src c [] c
  | cons {c d e : Cursor} {t : Token} {ts : List Token}
      (ht : Scanner.next src { mode := .code, cursor := c } =
        (some (.ok t), { mode := .code, cursor := d }))
      (hts : Cuts src d ts e) : Cuts src c (t :: ts) e

theorem Cuts.append {src : Source} {c d e : Cursor} {ts more : List Token} (hts : Cuts src c ts d)
    (hmore : Cuts src d more e) : Cuts src c (ts ++ more) e := by
  induction hts with
  | nil => exact hmore
  | cons ht _ ih => exact .cons ht (ih hmore)

/-- In code, `text` is cut into words when `rest` follows. -/
def Splits (text : List Char) (words : List InfixTree.Word) (rest : List Char) : Prop :=
  ∀ (src : Source) (c : Cursor), c.rest = text ++ rest →
    ∃ ts d, Cuts src c ts d ∧ ts.map Token.word = words ∧ d.rest = rest

theorem Splits.append {text more rest : List Char} {words others : List InfixTree.Word}
    (htext : Splits text words (more ++ rest)) (hmore : Splits more others rest) :
    Splits (text ++ more) (words ++ others) rest := by
  intro src c hc
  obtain ⟨ts, d, hts, rfl, hd⟩ := htext src c (by rw [hc, List.append_assoc])
  obtain ⟨us, e, hus, rfl, he⟩ := hmore src d hd
  exact ⟨ts ++ us, e, hts.append hus, List.map_append, he⟩

/-- At the head of `text ++ rest` stands a token of a kind, with that text. -/
structure Lexes (kind : TokenKind) (text rest : List Char) : Prop where
  head : ∃ x more, text = x :: more ∧ isBlank x = false
  kind_ne : kind ≠ .closeTag
  cut : ∀ (src : Source) (c : Cursor) (head : Char) (tail : List Char), c.rest = head :: tail →
    head :: tail = text ++ rest →
      Scanner.headToken src c head tail =
        (.ok (Scanner.token src kind c (c.upTo rest)), c.upTo rest)

/-- Blanks in front of a token are passed over. -/
theorem Lexes.splits {kind : TokenKind} {blanks text rest : List Char}
    (ht : Lexes kind text rest) (hb : ∀ x ∈ blanks, isBlank x = true) :
    Splits (blanks ++ text) [(kind, String.ofList text)] rest := by
  intro src c hc
  obtain ⟨x, more, rfl, hx⟩ := ht.head
  have hdrop : c.rest.dropWhile isBlank = x :: (more ++ rest) := by
    rw [hc, List.append_assoc, List.dropWhile_append_of_pos hb, List.cons_append,
      List.dropWhile_cons_of_neg (by rw [hx]; nofun)]
  let first := c.upTo (x :: (more ++ rest))
  have hcut := ht.cut src first x (more ++ rest) rfl rfl
  have hnext : Scanner.next src { mode := .code, cursor := c } =
      (some (.ok (Scanner.token src kind first (first.upTo rest))),
        { mode := .code, cursor := first.upTo rest }) := by
    rw [Scanner.next]
    dsimp only
    rw [hdrop]
    dsimp only [Cursor.upTo, first] at hcut ⊢
    rw [hcut]
    dsimp only [Scanner.token]
    rw [if_neg ht.kind_ne]
  refine ⟨[_], _, .cons hnext (.nil _), ?_, rfl⟩
  have htake : first.rest.take (first.rest.length - rest.length) = x :: more := by
    show (x :: more ++ rest).take ((x :: more ++ rest).length - rest.length) = x :: more
    rw [List.length_append, Nat.add_sub_cancel, List.take_left]
  exact congrArg (fun text => [(kind, String.ofList text)]) htake

theorem Lexes.splits_self {kind : TokenKind} {text rest : List Char} (ht : Lexes kind text rest) :
    Splits text [(kind, String.ofList text)] rest :=
  ht.splits fun _ hx => absurd hx List.not_mem_nil

/-! ### Single tokens -/

/-- Where nothing else begins, the longest symbol is taken. -/
theorem Scanner.headToken_symbol {src : Source} {c : Cursor} {head : Char} {tail rest : List Char}
    {kind : TokenKind} (hc : c.rest = head :: tail)
    (hother : (head == '\'' || head == '"' || head == '\x60' || head == '#' ||
      head == '/' && (tail.head? == some '/' || tail.head? == some '*') ||
      (head :: tail).take 3 == "<<<".toList || isNameStart head ||
      head == '$' && tail.head?.any isNameStart) = false)
    (hnumber : Number.scan? (head :: tail) = none)
    (hsymbol : symbol? (head :: tail) = some (kind, rest)) :
    headToken src c head tail = (.ok (token src kind c (c.upTo rest)), c.upTo rest) := by
  simp only [Bool.or_eq_false_iff, Bool.and_or_distrib_left] at hother
  obtain ⟨⟨⟨⟨⟨⟨⟨hplain, htemplate⟩, hshell⟩, hhash⟩, hline, hblock⟩, hlabel⟩, hname⟩, hvariable⟩ :=
    hother
  rw [headToken]
  simp only [hc, hplain, htemplate, hshell, hhash, hline, hblock, hlabel, hname, hvariable,
    hnumber, hsymbol, Bool.false_and, Bool.false_eq_true, if_false]

theorem lexes_symbol {kind : TokenKind} {head : Char} {more rest : List Char}
    (hother : (head == '\'' || head == '"' || head == '\x60' || head == '#' ||
      head == '/' && ((more ++ rest).head? == some '/' || (more ++ rest).head? == some '*') ||
      (head :: (more ++ rest)).take 3 == "<<<".toList || isNameStart head ||
      head == '$' && (more ++ rest).head?.any isNameStart) = false)
    (hnumber : Number.scan? (head :: (more ++ rest)) = none)
    (hsymbol : symbol? (head :: (more ++ rest)) = some (kind, rest))
    (hblank : isBlank head = false) (hk : kind ≠ .closeTag) : Lexes kind (head :: more) rest where
  head := ⟨_, _, rfl, hblank⟩
  kind_ne := hk
  cut := by
    rintro src c _ _ hc ⟨⟩
    exact Scanner.headToken_symbol hc hother hnumber hsymbol

theorem lexes_lParen (rest : List Char) : Lexes .lParen ['('] rest :=
  lexes_symbol rfl rfl rfl rfl nofun

theorem lexes_rParen (rest : List Char) : Lexes .rParen [')'] rest :=
  lexes_symbol rfl rfl rfl rfl nofun

theorem lexes_semicolon (rest : List Char) : Lexes .semicolon [';'] rest :=
  lexes_symbol rfl rfl rfl rfl nofun

section

variable {head : Char} {name rest : List Char}

/-- A name ends where no character of a name follows. -/
theorem takeWhile_name (hname : ∀ x ∈ name, isNameChar x = true)
    (hrest : rest.head?.any isNameChar = false) :
    (name ++ rest).takeWhile isNameChar = name ∧ (name ++ rest).dropWhile isNameChar = rest := by
  rw [List.takeWhile_append_of_pos hname, List.dropWhile_append_of_pos hname]
  cases rest with
  | nil => exact ⟨List.append_nil name, rfl⟩
  | cons x rest =>
    have hx : ¬isNameChar x = true := by simpa using hrest
    rw [List.takeWhile_cons_of_neg hx, List.dropWhile_cons_of_neg hx]
    exact ⟨List.append_nil name, rfl⟩

/-- A variable is a dollar sign and a name. -/
theorem lexes_variable (hhead : isNameStart head = true) (hname : ∀ x ∈ name, isNameChar x = true)
    (hrest : rest.head?.any isNameChar = false) :
    Lexes .variableName ('$' :: head :: name) rest where
  head := ⟨_, _, rfl, rfl⟩
  kind_ne := nofun
  cut := by
    rintro src c _ _ hc ⟨⟩
    have hchar : isNameChar head = true := by
      simp only [isNameStart, isNameChar, Char.isAlphanum, Bool.or_eq_true] at hhead ⊢
      exact hhead.imp_left (·.imp_left .inl)
    obtain ⟨-, hdrop⟩ := takeWhile_name (List.forall_mem_cons.2 ⟨hchar, hname⟩) hrest
    rw [Scanner.headToken, hc]
    show (if isNameStart head = true then _ else _) = _
    rw [if_pos hhead]
    rw [List.cons_append] at hdrop
    show ((.ok (Scanner.token src .variableName c (c.upTo ((head :: (name ++ rest)).dropWhile
      isNameChar))), c.upTo ((head :: (name ++ rest)).dropWhile isNameChar)) : Lexeme × Cursor) = _
    rw [hdrop]

end

/-- The symbols that may stand between two expressions. -/
def infixSymbols : List (List Char × TokenKind) :=
  [(['?', '?'], .questionQuestion), (['|', '|'], .pipePipe), (['&', '&'], .ampAmp),
   (['|'], .pipe), (['^'], .caret), (['&'], .amp), (['=', '='], .eqEq),
   (['=', '=', '='], .eqEqEq), (['!', '='], .notEq), (['<', '>'], .ltGt),
   (['!', '=', '='], .notEqEq), (['<', '=', '>'], .spaceship), (['<'], .lt), (['>'], .gt),
   (['<', '='], .ltEq), (['>', '='], .gtEq), (['.'], .dot), (['<', '<'], .ltLt),
   (['>', '>'], .gtGt), (['+'], .plus), (['-'], .minus), (['*'], .star), (['/'], .slash),
   (['%'], .percent), (['*', '*'], .starStar)]

/-- The words that may stand between two expressions, the test of a class left out. -/
def infixKeywords : List (List Char × TokenKind) :=
  [(['o', 'r'], .kwOr), (['x', 'o', 'r'], .kwXor), (['a', 'n', 'd'], .kwAnd)]

theorem spelled_mem : ∀ entry ∈ symbols ++ TokenKind.keywords, entry.2.binary? ≠ none →
    entry.2 ≠ .kwInstanceof → (entry.1.toList, entry.2) ∈ infixSymbols ++ infixKeywords := by
  decide +kernel

theorem lexes_infixSymbols : ∀ entry ∈ infixSymbols, ∀ rest,
    Lexes entry.2 entry.1 (' ' :: rest) := by
  intro entry hentry rest
  simp only [infixSymbols, List.mem_cons, List.not_mem_nil, or_false] at hentry
  rcases hentry with rfl | rfl | rfl | rfl | rfl | rfl | rfl | rfl | rfl | rfl | rfl | rfl | rfl |
      rfl | rfl | rfl | rfl | rfl | rfl | rfl | rfl | rfl | rfl | rfl | rfl <;>
    exact lexes_symbol rfl rfl rfl rfl nofun

/-- Operators are spelled in lower case. -/
theorem toLower_infix {text : List Char} {kind : TokenKind}
    (hentry : (text, kind) ∈ infixSymbols ++ infixKeywords) :
    (String.ofList text).toLower = String.ofList text := by
  have hall : ∀ entry ∈ infixSymbols ++ infixKeywords, entry.1.map Char.toLower = entry.1 := by
    decide
  rw [← String.toList_inj, String.toLower, String.toList_map, String.toList_ofList]
  exact hall _ hentry

theorem keyword?_infixKeywords {text : List Char} {kind : TokenKind}
    (hentry : (text, kind) ∈ infixKeywords) :
    TokenKind.keyword? (String.ofList text) = some kind := by
  rw [TokenKind.keyword?, toLower_infix (List.mem_append_right _ hentry)]
  have hall : ∀ entry ∈ infixKeywords,
      (TokenKind.keywords.find? (·.1 == String.ofList entry.1)).map (·.2) = some entry.2 := by
    decide +kernel
  exact hall _ hentry

theorem lexes_infixKeywords : ∀ entry ∈ infixKeywords, ∀ rest,
    Lexes entry.2 entry.1 (' ' :: rest) := by
  intro entry hentry rest
  have hkeyword := keyword?_infixKeywords hentry
  simp only [infixKeywords, List.mem_cons, List.not_mem_nil, or_false] at hentry
  rcases hentry with rfl | rfl | rfl <;>
    (refine ⟨⟨_, _, rfl, rfl⟩, nofun, ?_⟩
     rintro src c head tail hc ⟨⟩
     rw [Scanner.headToken, hc]
     exact congrArg (fun kind : Option TokenKind =>
      ((.ok (Scanner.token src (kind.getD .identifier) c (c.upTo (' ' :: rest))),
        c.upTo (' ' :: rest)) : Lexeme × Cursor)) hkeyword)

namespace InfixOperator

variable (op : InfixOperator)

theorem mem_infix : (op.text.toList, op.kind) ∈ infixSymbols ++ infixKeywords :=
  spelled_mem _ op.spelled (by rw [op.binary]; nofun) op.ne_instanceof

theorem lexes (rest : List Char) : Lexes op.kind op.text.toList (' ' :: rest) := by
  rcases List.mem_append.1 op.mem_infix with hop | hop
  · exact lexes_infixSymbols _ hop rest
  · exact lexes_infixKeywords _ hop rest

theorem toLower_text : op.text.toLower = op.text := by
  have hlower := toLower_infix op.mem_infix
  rwa [String.ofList_toList] at hlower

end InfixOperator

/-! ### The words of a tree -/

namespace InfixTree

theorem toList_parens (enclosed : Bool) (text : String) :
    (parens enclosed text).toList =
      if enclosed then '(' :: (text.toList ++ [')']) else text.toList := by
  cases enclosed <;> simp [parens]

/-- A text in parentheses is cut into its words and the parentheses. -/
theorem splits_parens {text : String} {words : List Word} {blanks rest : List Char}
    (enclosed : Bool) (hb : ∀ x ∈ blanks, isBlank x = true)
    (htext : ∀ blanks rest, (∀ x ∈ blanks, isBlank x = true) →
      rest.head?.any isNameChar = false → Splits (blanks ++ text.toList) words rest)
    (hrest : rest.head?.any isNameChar = false) :
    Splits (blanks ++ (parens enclosed text).toList) (enclose enclosed words) rest := by
  rw [toList_parens, enclose]
  cases enclosed with
  | false => exact htext blanks rest hb hrest
  | true =>
    have hopen := (lexes_lParen (text.toList ++ [')'] ++ rest)).splits hb
    have hinner := htext [] (')' :: rest) (fun _ hx => absurd hx List.not_mem_nil) rfl
    have hclose := (lexes_rParen rest).splits_self
    simpa using hopen.append (hinner.append hclose)

/-- The words of a tree are those of its text. -/
theorem splits_render (T : InfixTree) {blanks rest : List Char}
    (hb : ∀ x ∈ blanks, isBlank x = true) (hrest : rest.head?.any isNameChar = false) :
    Splits (blanks ++ T.render.toList) T.words rest := by
  induction T generalizing blanks rest with
  | leaf name =>
    have hname := name.isName
    cases htext : name.text.toList with
    | nil =>
      rw [htext] at hname
      cases hname
    | cons head tail =>
      rw [htext, isName, Bool.and_eq_true, List.all_eq_true] at hname
      have hl := (lexes_variable hname.1 hname.2 hrest).splits hb
      have hofList : "$" ++ name.text = String.ofList ('$' :: head :: tail) := by
        simp [← String.toList_inj, htext]
      rw [render, words, hofList, String.toList_ofList]
      exact hl
  | node left op right ihl ihr =>
    have hspace : ∀ x ∈ [' '], isBlank x = true := List.forall_mem_singleton.2 rfl
    have hl : Splits (blanks ++ (parens (left.enclosedLeft op) left.render).toList)
        (enclose (left.enclosedLeft op) left.words)
        ([' '] ++ op.text.toList ++ ([' '] ++ (parens (right.enclosedRight op)
          right.render).toList) ++ rest) :=
      splits_parens (left.enclosedLeft op) hb @ihl rfl
    have hr := splits_parens (right.enclosedRight op) hspace @ihr hrest
    have hop := (op.lexes ((parens (right.enclosedRight op) right.render).toList ++ rest)).splits
      hspace
    rw [String.ofList_toList] at hop
    have hall := hl.append (hop.append hr)
    simpa [render, words, String.toList_append] using hall

end InfixTree

/-! ### A file with one statement -/

/-- Tokens up to the end of a text are all of them. -/
theorem Cuts.takeUpTo {src : Source} {c d : Cursor} {ts : List Token} {fuel : Nat}
    (hts : Cuts src c ts d) (hd : d.rest = []) (hfuel : c.rest.length ≤ fuel) :
    Scanner.takeUpTo src fuel { mode := .code, cursor := c } = ts.map .ok := by
  induction hts generalizing fuel with
  | nil c =>
    cases fuel with
    | zero => rfl
    | succ fuel =>
      have hnext : (Scanner.next src { mode := .code, cursor := c }).1 = none := by
        rw [Scanner.next]
        dsimp only
        rw [hd]
        rfl
      rw [Scanner.takeUpTo]
      split
      · rfl
      · rename_i hsome
        rw [hsome] at hnext
        cases hnext
  | cons ht _ ih =>
    have hlt := (Scanner.next_tiles ht).1
    cases fuel with
    | zero => exact absurd (Nat.lt_of_lt_of_le hlt hfuel) (Nat.not_lt_zero _)
    | succ fuel =>
      rw [Scanner.takeUpTo, ht]
      exact congrArg (List.cons (Except.ok _))
        (ih hd (Nat.le_of_lt_succ (Nat.lt_of_lt_of_le hlt hfuel)))

/-- The word of an opening tag. -/
def openWord : InfixTree.Word := (.openTag, "<?php")

/-- A file that begins with an opening tag goes on in code. -/
theorem Scanner.next_openTag {src : Source} {rest : List Char}
    (hsrc : src.chars = '<' :: '?' :: 'p' :: 'h' :: 'p' :: rest) :
    ∃ t d, Scanner.next src (Scanner.ofSource src) =
        (some (.ok t), { mode := .code, cursor := d }) ∧
      t.word = openWord ∧ d.rest = rest := by
  refine ⟨token src .openTag (ofSource src).cursor ((ofSource src).cursor.skip 5),
    (ofSource src).cursor.skip 5, ?_, ?_, ?_⟩
  · rw [next, ofSource, hsrc]
    rfl
  · have htake : ((ofSource src).cursor.rest.take ((ofSource src).cursor.rest.length -
        ((ofSource src).cursor.skip 5).rest.length)) = "<?php".toList := by
      show (src.chars.take (src.chars.length - (src.chars.drop 5).length)) = _
      rw [hsrc]
      show ("<?php".toList ++ rest).take (("<?php".toList ++ rest).length - rest.length) = _
      rw [List.length_append, Nat.add_sub_cancel, List.take_left]
    show (TokenKind.openTag, String.ofList _) = _
    rw [htake]
    rfl
  · show src.chars.drop 5 = rest
    rw [hsrc]
    rfl

/-- A file is cut into its opening tag and the words of what follows it. -/
theorem tokenize_openTag {text : String} {body : List Char} {words : List InfixTree.Word}
    (htext : text.toList = '<' :: '?' :: 'p' :: 'h' :: 'p' :: body)
    (hbody : Splits body words []) :
    ∃ toks : List Token, tokenize (.ofString text) = toks.map .ok ∧
      toks.map Token.word = openWord :: words := by
  have hchars : (Source.ofString text).chars = '<' :: '?' :: 'p' :: 'h' :: 'p' :: body := htext
  obtain ⟨t, c, hnext, ht, hc⟩ := Scanner.next_openTag hchars
  obtain ⟨ts, d, hts, hwords, hd⟩ := hbody (.ofString text) c (by rw [hc, List.append_nil])
  refine ⟨t :: ts, ?_, ?_⟩
  · rw [tokenize, Scanner.all]
    have hlength : (Scanner.ofSource (.ofString text)).cursor.rest.length =
        c.rest.length + 4 + 1 := by
      show text.toList.length = _
      rw [htext, hc]
      rfl
    rw [hlength, Scanner.takeUpTo, hnext]
    exact congrArg (List.cons (Except.ok t)) (hts.takeUpTo hd (Nat.le_add_right _ _))
  · rw [List.map_cons, ht, hwords]

/-- The text of a file that consists of a tree. -/
def InfixTree.file (T : InfixTree) : String := "<?php " ++ T.render ++ ";"

/-- The tokens of a file that consists of a tree. -/
theorem tokenize_file (T : InfixTree) :
    ∃ toks : List Token, tokenize (.ofString T.file) = toks.map .ok ∧
      toks.map Token.word = openWord :: (T.words ++ [(.semicolon, ";")]) := by
  have hspace : ∀ x ∈ [' '], isBlank x = true := List.forall_mem_singleton.2 rfl
  have hsplits : Splits ([' '] ++ T.render.toList ++ [';'])
      (T.words ++ [(.semicolon, String.ofList [';'])]) [] :=
    (T.splits_render hspace rfl).append (lexes_semicolon []).splits_self
  refine tokenize_openTag ?_ hsplits
  rw [InfixTree.file, String.toList_append, String.toList_append]
  rfl

end PhpCheck
