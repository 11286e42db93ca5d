import PhpCheck.Token.Kind

/-!
Binding strength of operators.  Assignment and the conditional expression are
not in the table of binary operators: the grammar handles them apart.
-/

namespace PhpCheck

/-- Levels of binding strength, loosest first. -/
inductive Precedence where
  | lowest | keywordOr | keywordXor | keywordAnd | assign | ternary | coalesce | logicalOr | logicalAnd | bitOr | bitXor
  | bitAnd | equality | relational | concat | shift | additive | multiplicative | negation | instanceof | unary | pow
deriving DecidableEq, Inhabited

namespace Precedence

/-- All levels, loosest first. -/
def all : List Precedence :=
  [lowest, keywordOr, keywordXor, keywordAnd, assign, ternary, coalesce, logicalOr, logicalAnd,
   bitOr, bitXor, bitAnd, equality, relational, concat, shift, additive,
   multiplicative, negation, instanceof, unary, pow]

/-- The rank of a level; a higher rank binds tighter. -/
def rank : Precedence → Nat
  | .lowest => 0
  | .keywordOr => 1
  | .keywordXor => 2
  | .keywordAnd => 3
  | .assign => 4
  | .ternary => 5
  | .coalesce => 6
  | .logicalOr => 7
  | .logicalAnd => 8
  | .bitOr => 9
  | .bitXor => 10
  | .bitAnd => 11
  | .equality => 12
  | .relational => 13
  | .concat => 14
  | .shift => 15
  | .additive => 16
  | .multiplicative => 17
  | .negation => 18
  | .instanceof => 19
  | .unary => 20
  | .pow => 21

def name : Precedence → String
  | .lowest => "Lowest"
  | .keywordOr => "KeywordOr"
  | .keywordXor => "KeywordXor"
  | .keywordAnd => "KeywordAnd"
  | .assign => "Assign"
  | .ternary => "Ternary"
  | .coalesce => "Coalesce"
  | .logicalOr => "LogicalOr"
  | .logicalAnd => "LogicalAnd"
  | .bitOr => "BitOr"
  | .bitXor => "BitXor"
  | .bitAnd => "BitAnd"
  | .equality => "Equality"
  | .relational => "Relational"
  | .concat => "Concat"
  | .shift => "Shift"
  | .additive => "Additive"
  | .multiplicative => "Multiplicative"
  | .negation => "Not"
  | .instanceof => "Instanceof"
  | .unary => "Prefix"
  | .pow => "Pow"

def ofRank? (rank : Nat) : Option Precedence := all[rank]?

/-- The next tighter level; the tightest one is its own successor. -/
def next (p : Precedence) : Precedence := (ofRank? (p.rank + 1)).getD .pow

end Precedence

/-- How operators of one level group. -/
inductive Associativity where
  | left | right | none
deriving DecidableEq, Inhabited

def Associativity.name : Associativity → String
  | .left => "Left"
  | .right => "Right"
  | .none => "None"

namespace TokenKind

/-- Level and grouping of a binary operator. -/
def binary? : TokenKind → Option (Precedence × Associativity)
  | .kwOr => some (.keywordOr, .left)
  | .kwXor => some (.keywordXor, .left)
  | .kwAnd => some (.keywordAnd, .left)
  | .questionQuestion => some (.coalesce, .right)
  | .pipePipe => some (.logicalOr, .left)
  | .ampAmp => some (.logicalAnd, .left)
  | .pipe => some (.bitOr, .left)
  | .caret => some (.bitXor, .left)
  | .amp => some (.bitAnd, .left)
  | .eqEq | .eqEqEq | .notEq | .ltGt | .notEqEq | .spaceship => some (.equality, .none)
  | .lt | .gt | .ltEq | .gtEq => some (.relational, .none)
  | .dot => some (.concat, .left)
  | .ltLt | .gtGt => some (.shift, .left)
  | .plus | .minus => some (.additive, .left)
  | .star | .slash | .percent => some (.multiplicative, .left)
  | .kwInstanceof => some (.instanceof, .none)
  | .starStar => some (.pow, .right)
  | _ => none

/-- Level at which the operand of a unary operator is read. -/
def unary? : TokenKind → Option Precedence
  | .bang => some .negation
  | .plus | .minus | .tilde | .atSign => some .unary
  | _ => none

end TokenKind

end PhpCheck
