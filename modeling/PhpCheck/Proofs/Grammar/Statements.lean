import PhpCheck.Proofs.Grammar.Expressions

/-!
The productions for statements make regular trees, and so does the whole grammar
(`parse_regular`).
-/

set_option mvcgen.warning false

namespace PhpCheck

open Std.Do

namespace Grammar

variable {below : Below} {start : Nat} {name : Node} {field : String} {kind : Option Node}

/-! ### Control flow -/

@[spec]
theorem ifBranches_spec (hbelow : below.Regular) :
    ⦃⌜True⌝⦄ ifBranches below ⦃⇓? ns => ⌜∀ n ∈ ns, n.Regular⌝⦄ := by
  mvcgen [ifBranches] <;> grind

@[spec]
theorem ifColonBranches_spec (hbelow : below.Regular) {stops : List TokenKind} :
    ⦃⌜True⌝⦄ ifColonBranches below stops ⦃⇓? ns => ⌜∀ n ∈ ns, n.Regular⌝⦄ := by
  mvcgen [ifColonBranches] <;> grind

@[spec]
theorem ifStatement_spec (hbelow : below.Regular) :
    ⦃⌜True⌝⦄ ifStatement below ⦃⇓? n => ⌜n.Regular⌝⦄ := by
  mvcgen [ifStatement] <;> grind

@[spec]
theorem whileStatement_spec (hbelow : below.Regular) :
    ⦃⌜True⌝⦄ whileStatement below ⦃⇓? n => ⌜n.Regular⌝⦄ := by
  mvcgen [whileStatement] <;> grind

@[spec]
theorem doWhileStatement_spec (hbelow : below.Regular) :
    ⦃⌜True⌝⦄ doWhileStatement below ⦃⇓? n => ⌜n.Regular⌝⦄ := by
  mvcgen [doWhileStatement] <;> grind

@[spec]
theorem forClause_spec (hbelow : below.Regular) {terminator : TokenKind} :
    ⦃⌜True⌝⦄ forClause below terminator ⦃⇓? n => ⌜n.Regular⌝⦄ := by
  mvcgen [forClause] <;> grind

@[spec]
theorem forStatement_spec (hbelow : below.Regular) :
    ⦃⌜True⌝⦄ forStatement below ⦃⇓? n => ⌜n.Regular⌝⦄ := by
  mvcgen [forStatement] <;> grind

@[spec]
theorem foreachStatement_spec (hbelow : below.Regular) :
    ⦃⌜True⌝⦄ foreachStatement below ⦃⇓? n => ⌜n.Regular⌝⦄ := by
  have htarget := hbelow (.expression .coalesce)
  mvcgen [foreachStatement, htarget] <;> grind

@[spec]
theorem switchClause_spec (hbelow : below.Regular) {stops : List TokenKind} :
    ⦃⌜True⌝⦄ switchClause below stops ⦃⇓? n => ⌜n.Regular⌝⦄ := by
  mvcgen [switchClause, switchLabel] <;> grind

@[spec]
theorem switchStatement_spec (hbelow : below.Regular) :
    ⦃⌜True⌝⦄ switchStatement below ⦃⇓? n => ⌜n.Regular⌝⦄ := by
  mvcgen [switchStatement] <;> grind

@[spec]
theorem catchClause_spec (hbelow : below.Regular) :
    ⦃⌜True⌝⦄ catchClause below ⦃⇓? n => ⌜n.Regular⌝⦄ := by
  mvcgen [catchClause] <;> grind

@[spec]
theorem tryStatement_spec (hbelow : below.Regular) :
    ⦃⌜True⌝⦄ tryStatement below ⦃⇓? n => ⌜n.Regular⌝⦄ := by
  mvcgen [tryStatement] <;> grind

@[spec]
theorem declareStatement_spec (hbelow : below.Regular) :
    ⦃⌜True⌝⦄ declareStatement below ⦃⇓? n => ⌜n.Regular⌝⦄ := by
  mvcgen [declareStatement] <;> grind

/-! ### Jumps -/

@[spec]
theorem optionalOperand_spec (hbelow : below.Regular) :
    ⦃⌜True⌝⦄ optionalOperand below field ⦃⇓? ns => ⌜∀ n ∈ ns, n.Regular⌝⦄ := by
  mvcgen [optionalOperand] <;> grind

@[spec]
theorem returnStatement_spec (hbelow : below.Regular) :
    ⦃⌜True⌝⦄ returnStatement below ⦃⇓? n => ⌜n.Regular⌝⦄ := by
  mvcgen [returnStatement] <;> grind

@[spec]
theorem loopJump_spec (hbelow : below.Regular) {kind : NodeKind}
    (hkind : kind ≠ .compoundAssignment) :
    ⦃⌜True⌝⦄ loopJump below kind ⦃⇓? n => ⌜n.Regular⌝⦄ := by
  mvcgen [loopJump] <;> grind

@[spec]
theorem gotoStatement_spec :
    ⦃⌜True⌝⦄ gotoStatement ⦃⇓? n => ⌜n.Regular⌝⦄ := by
  mvcgen [gotoStatement] <;> grind

@[spec]
theorem labelStatement_spec :
    ⦃⌜True⌝⦄ labelStatement ⦃⇓? n => ⌜n.Regular⌝⦄ := by
  mvcgen [labelStatement] <;> grind

/-! ### Namespaces and imports -/

@[spec]
theorem namespaceDefinition_spec (hbelow : below.Regular) :
    ⦃⌜True⌝⦄ namespaceDefinition below ⦃⇓? n => ⌜n.Regular⌝⦄ := by
  mvcgen [namespaceDefinition] <;> grind

@[spec]
theorem importKind_spec :
    ⦃⌜True⌝⦄ importKind ⦃⇓? n => ⌜∀ m ∈ n, m.Regular⌝⦄ := by
  mvcgen [importKind] <;> grind

@[spec]
theorem importClause_spec (hname : name.Regular) (hkind : ∀ n ∈ kind, n.Regular) :
    ⦃⌜True⌝⦄ importClause start name kind ⦃⇓? n => ⌜n.Regular⌝⦄ := by
  mvcgen [importClause] <;> grind

@[spec]
theorem importGroup_spec :
    ⦃⌜True⌝⦄ importGroup name ⦃⇓? ns => ⌜∀ n ∈ ns, n.Regular⌝⦄ := by
  mvcgen [importGroup] <;> grind

@[spec]
theorem useDeclaration_spec :
    ⦃⌜True⌝⦄ useDeclaration ⦃⇓? n => ⌜n.Regular⌝⦄ := by
  mvcgen [useDeclaration] <;> grind

/-! ### Simple statements -/

@[spec]
theorem expressionStatement_spec (hbelow : below.Regular) :
    ⦃⌜True⌝⦄ expressionStatement below ⦃⇓? n => ⌜n.Regular⌝⦄ := by
  mvcgen [expressionStatement] <;> grind

@[spec]
theorem echoStatement_spec (hbelow : below.Regular) {opening : TokenKind} {what : String} :
    ⦃⌜True⌝⦄ echoStatement below opening what ⦃⇓? n => ⌜n.Regular⌝⦄ := by
  mvcgen [echoStatement] <;> grind

@[spec]
theorem globalDeclaration_spec :
    ⦃⌜True⌝⦄ globalDeclaration ⦃⇓? n => ⌜n.Regular⌝⦄ := by
  mvcgen [globalDeclaration] <;> grind

@[spec]
theorem staticDeclaration_spec (hbelow : below.Regular) :
    ⦃⌜True⌝⦄ staticDeclaration below ⦃⇓? n => ⌜n.Regular⌝⦄ := by
  mvcgen [staticDeclaration] <;> grind

@[spec]
theorem unsetStatement_spec (hbelow : below.Regular) :
    ⦃⌜True⌝⦄ unsetStatement below ⦃⇓? n => ⌜n.Regular⌝⦄ := by
  mvcgen [unsetStatement] <;> grind

/-! ### Any statement -/

@[spec]
theorem atFunctionDeclaration_bare : ⦃⌜True⌝⦄ atFunctionDeclaration ⦃⇓? _ => ⌜True⌝⦄ := bare _

@[spec]
theorem atClassDeclaration_bare : ⦃⌜True⌝⦄ atClassDeclaration ⦃⇓? _ => ⌜True⌝⦄ := bare _

@[spec]
theorem statement_spec (hbelow : below.Regular) :
    ⦃⌜True⌝⦄ statement below ⦃⇓? n => ⌜n.Regular⌝⦄ := by
  mvcgen [statement] <;> grind

/-! ### Whole files -/

/-- The grammar is regular at every nesting level if the code in quoted text is. -/
theorem descend_regular {code : Nat → Nat → Parse Node}
    (hcode : ∀ start stop, ⦃⌜True⌝⦄ code start stop ⦃⇓? n => ⌜n.Regular⌝⦄) (depth : Nat) :
    (descend code depth).Regular := by
  induction depth with
  | zero =>
    intro goal
    cases goal with
    | code start stop => exact hcode start stop
    | expression min => mvcgen [descend]
    | statement => mvcgen [descend]
  | succ depth ih =>
    intro goal
    cases goal with
    | code start stop => exact hcode start stop
    | expression min => exact binary_spec ih
    | statement => exact statement_spec ih

@[spec]
theorem wholeExpression_spec (hbelow : below.Regular) :
    ⦃⌜True⌝⦄ wholeExpression below ⦃⇓? n => ⌜n.Regular⌝⦄ := by
  mvcgen [wholeExpression]

theorem embedded_spec (hbelow : below.Regular) {stop : Nat} :
    ⦃⌜True⌝⦄ embedded below start stop ⦃⇓? n => ⌜n.Regular⌝⦄ := by
  mvcgen [embedded]
  case vc1.h_1 hrun _ => exact triple_iff.1 (wholeExpression_spec hbelow) _ _ _ _ trivial hrun
  case vc2.h_2 => grind

theorem embeddedCode_spec (levels start stop : Nat) :
    ⦃⌜True⌝⦄ embeddedCode levels start stop ⦃⇓? n => ⌜n.Regular⌝⦄ := by
  induction levels generalizing start stop with
  | zero =>
    mvcgen [embeddedCode]
    grind
  | succ levels ih => exact embedded_spec (descend_regular ih _)

end Grammar

/-- The tree of a source text is regular. -/
theorem parse_regular (src : Source) : (parse src).1.Regular := by
  have htop : (Grammar.top src).Regular :=
    Grammar.descend_regular (Grammar.embeddedCode_spec src.size) Grammar.maxNesting
  unfold parse
  extract_lets file
  cases hrun : file src (Grammar.State.ofLexemes (tokenize src)) with
  | ok statements s =>
    have hstatements : ∀ n ∈ statements, n.Regular :=
      Grammar.triple_iff.1 (Grammar.statementsUntil_spec htop) _ _ _ _ trivial hrun
    exact Node.regular_ofKind (by decide) _ hstatements
  | error e s => exact Node.regular_ofKind (by decide) _ nofun

end PhpCheck
