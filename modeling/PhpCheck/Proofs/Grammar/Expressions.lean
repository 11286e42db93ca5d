import PhpCheck.Proofs.Grammar.Declarations

/-!
The productions for expressions make regular trees.
-/

set_option mvcgen.warning false

namespace PhpCheck

open Std.Do

namespace Grammar

variable {below : Below} {start : Nat} {left : Node}

/-! ### Expressions -/

@[spec]
theorem argument_spec (hbelow : below.Regular) :
    ⦃⌜True⌝⦄ argument below ⦃⇓? n => ⌜n.Regular⌝⦄ := by
  mvcgen [argument] <;> grind

@[spec]
theorem argumentList_spec (hbelow : below.Regular) :
    ⦃⌜True⌝⦄ argumentList below ⦃⇓? n => ⌜n.Regular⌝⦄ := by
  mvcgen [argumentList] <;> grind

@[spec]
theorem arrayElement_spec (hbelow : below.Regular) :
    ⦃⌜True⌝⦄ arrayElement below start ⦃⇓? n => ⌜n.Regular⌝⦄ := by
  mvcgen [arrayElement] <;> grind

@[spec]
theorem arrayElements_spec (hbelow : below.Regular) {close : TokenKind} :
    ⦃⌜True⌝⦄ arrayElements below close ⦃⇓? ns => ⌜∀ n ∈ ns, n.Regular⌝⦄ := by
  mvcgen [arrayElements] <;> grind

@[spec]
theorem arrayLiteral_spec (hbelow : below.Regular) :
    ⦃⌜True⌝⦄ arrayLiteral below ⦃⇓? n => ⌜n.Regular⌝⦄ := by
  mvcgen [arrayLiteral] <;> grind

@[spec]
theorem listExpression_spec (hbelow : below.Regular) :
    ⦃⌜True⌝⦄ listExpression below ⦃⇓? n => ⌜n.Regular⌝⦄ := by
  mvcgen [listExpression] <;> grind

@[spec]
theorem closureUse_spec :
    ⦃⌜True⌝⦄ closureUse ⦃⇓? n => ⌜n.Regular⌝⦄ := by
  mvcgen [closureUse] <;> grind

@[spec]
theorem closureUses_spec :
    ⦃⌜True⌝⦄ closureUses ⦃⇓? n => ⌜n.Regular⌝⦄ := by
  mvcgen [closureUses] <;> grind

@[spec]
theorem closure_spec (hbelow : below.Regular) {static : Option Span} :
    ⦃⌜True⌝⦄ closure below static ⦃⇓? n => ⌜n.Regular⌝⦄ := by
  have hbody := hbelow (.expression .assign)
  mvcgen [closure, hbody] <;> grind

@[spec]
theorem variableVariable_spec (hbelow : below.Regular) (fuel : Nat) :
    ⦃⌜True⌝⦄ variableVariable below fuel ⦃⇓? n => ⌜n.Regular⌝⦄ := by
  induction fuel with
  | zero =>
    mvcgen [variableVariable]
    exact fun _ _ h => h.elim
  | succ fuel ih => mvcgen [variableVariable, ih] <;> grind

@[spec]
theorem matchArm_spec (hbelow : below.Regular) :
    ⦃⌜True⌝⦄ matchArm below ⦃⇓? n => ⌜n.Regular⌝⦄ := by
  mvcgen [matchArm] <;> grind

@[spec]
theorem matchExpression_spec (hbelow : below.Regular) :
    ⦃⌜True⌝⦄ matchExpression below ⦃⇓? n => ⌜n.Regular⌝⦄ := by
  mvcgen [matchExpression] <;> grind

@[spec]
theorem exitExpression_spec (hbelow : below.Regular) :
    ⦃⌜True⌝⦄ exitExpression below start ⦃⇓? n => ⌜n.Regular⌝⦄ := by
  mvcgen [exitExpression] <;> grind

@[grind ←]
theorem regular_classifyName {name : Node} (hname : name.Regular) :
    (classifyName name).Regular := by
  unfold classifyName
  grind

@[spec]
theorem primary_spec (hbelow : below.Regular) :
    ⦃⌜True⌝⦄ primary below ⦃⇓? n => ⌜n.Regular⌝⦄ := by
  mvcgen [primary] <;> grind

@[spec]
theorem braced_spec (hbelow : below.Regular) :
    ⦃⌜True⌝⦄ braced below ⦃⇓? n => ⌜n.Regular⌝⦄ := by
  mvcgen [braced]

@[spec]
theorem memberSelector_spec (hbelow : below.Regular) :
    ⦃⌜True⌝⦄ memberSelector below ⦃⇓? n => ⌜n.Regular⌝⦄ := by
  mvcgen [memberSelector]
  grind

@[spec]
theorem staticMember_spec (hbelow : below.Regular) (hleft : left.Regular) :
    ⦃⌜True⌝⦄ staticMember below left start ⦃⇓? n => ⌜n.Regular⌝⦄ := by
  mvcgen [staticMember] <;> grind

@[spec]
theorem objectMember_spec (hbelow : below.Regular) (hleft : left.Regular) {arrow : Option Token} :
    ⦃⌜True⌝⦄ objectMember below left start arrow ⦃⇓? n => ⌜n.Regular⌝⦄ := by
  mvcgen [objectMember] <;> grind

@[spec]
theorem postfixChain_spec (hbelow : below.Regular) (hleft : left.Regular) :
    ⦃⌜True⌝⦄ postfixChain below left ⦃⇓? n => ⌜n.Regular⌝⦄ := by
  mvcgen [postfixChain] <;> grind

@[spec]
theorem newClassReference_spec (hbelow : below.Regular) :
    ⦃⌜True⌝⦄ newClassReference below ⦃⇓? n => ⌜n.Regular⌝⦄ := by
  mvcgen [newClassReference] <;> grind

@[spec]
theorem anonymousClass_spec (hbelow : below.Regular) :
    ⦃⌜True⌝⦄ anonymousClass below ⦃⇓? n => ⌜n.Regular⌝⦄ := by
  mvcgen [anonymousClass] <;> grind

@[spec]
theorem newExpression_spec (hbelow : below.Regular) :
    ⦃⌜True⌝⦄ newExpression below ⦃⇓? n => ⌜n.Regular⌝⦄ := by
  mvcgen [newExpression] <;> grind

@[spec]
theorem castHead?_bare : ⦃⌜True⌝⦄ castHead? ⦃⇓? _ => ⌜True⌝⦄ := bare _

@[spec]
theorem castExpression_spec (hbelow : below.Regular) {type : String} :
    ⦃⌜True⌝⦄ castExpression below type ⦃⇓? n => ⌜n.Regular⌝⦄ := by
  have hoperand := hbelow (.expression .unary)
  mvcgen [castExpression, hoperand] <;> grind

@[spec]
theorem yieldExpression_spec (hbelow : below.Regular) :
    ⦃⌜True⌝⦄ yieldExpression below ⦃⇓? n => ⌜n.Regular⌝⦄ := by
  have hvalue := fun min => hbelow (.expression min)
  mvcgen [yieldExpression, hvalue] <;> grind

section

variable {kind : NodeKind} {min : Precedence}

@[spec]
theorem keywordOperand_spec (hbelow : below.Regular) (hkind : kind ≠ .compoundAssignment) :
    ⦃⌜True⌝⦄ keywordOperand below kind min ⦃⇓? n => ⌜n.Regular⌝⦄ := by
  have hvalue := hbelow (.expression min)
  mvcgen [keywordOperand, hvalue] <;> grind

@[spec]
theorem operatorOperand_spec (hbelow : below.Regular) (hkind : kind ≠ .compoundAssignment) :
    ⦃⌜True⌝⦄ operatorOperand below kind min ⦃⇓? n => ⌜n.Regular⌝⦄ := by
  have hoperand := hbelow (.expression min)
  mvcgen [operatorOperand, hoperand] <;> grind

end

@[spec]
theorem includeExpression_spec (hbelow : below.Regular) :
    ⦃⌜True⌝⦄ includeExpression below ⦃⇓? n => ⌜n.Regular⌝⦄ := by
  have hvalue := hbelow (.expression .assign)
  mvcgen [includeExpression, hvalue] <;> grind

@[spec]
theorem unary_spec (hbelow : below.Regular) :
    ⦃⌜True⌝⦄ unary below ⦃⇓? n => ⌜n.Regular⌝⦄ := by
  have hoperand := hbelow (.expression .unary)
  mvcgen [unary, hoperand] <;> grind

/-! ### Binary operators -/

/-- At an operator of assignment, `Grammar.assignment` makes a regular node. -/
@[spec]
theorem assignment_spec (hbelow : below.Regular) (hleft : left.Regular) :
    ⦃fun _ s => ⌜∃ op, s.current = some op ∧ op.kind.isAssignment⌝⦄ assignment below left
    ⦃⇓? n => ⌜n.Regular⌝⦄ := by
  have hright := hbelow (.expression .assign)
  mvcgen [assignment, hright]
  case vc1.post.success.h_1.post.success => exact fun _ _ h => h.elim
  case vc2.post.success.h_2.isTrue.post.success.post.success => grind
  case vc3.post.success.h_2.isFalse.post.success hat _ op _ hplain operator _ _ hop right _ _
    hright =>
    obtain ⟨_, hat, hassign⟩ := hat
    obtain rfl := Option.some.inj (hop.trans hat)
    have hcompound : op.kind.compoundOperator?.isSome := by
      rw [TokenKind.isAssignment, eq_false_of_ne_true hplain, Bool.false_or] at hassign
      exact hassign
    obtain ⟨text, htext⟩ := Option.isSome_iff_exists.1 hcompound
    refine Node.regular_iff.2 ⟨fun _ => ⟨_, op.kind, text, _, htext, rfl, ?_, rfl⟩, ?_⟩
    · exact congrArg some (congrArg (Option.getD · "=") htext)
    · grind

@[spec]
theorem ternary_spec (hbelow : below.Regular) (hleft : left.Regular) :
    ⦃⌜True⌝⦄ ternary below left ⦃⇓? n => ⌜n.Regular⌝⦄ := by
  have hpart := fun min => hbelow (.expression min)
  mvcgen [ternary, hpart] <;> grind

@[spec]
theorem instanceofTarget_spec (hbelow : below.Regular) :
    ⦃⌜True⌝⦄ instanceofTarget below ⦃⇓? n => ⌜n.Regular⌝⦄ := by
  mvcgen [instanceofTarget] <;> grind

@[spec]
theorem binaryOperation_spec (hbelow : below.Regular) (hleft : left.Regular)
    {prec : Precedence} {assoc : Associativity} :
    ⦃⌜True⌝⦄ binaryOperation below left prec assoc ⦃⇓? n => ⌜n.Regular⌝⦄ := by
  have hright := fun min => hbelow (.expression min)
  mvcgen [binaryOperation, hright] <;> grind

@[spec]
theorem binary_spec (hbelow : below.Regular) {min : Precedence} :
    ⦃⌜True⌝⦄ binary below min ⦃⇓? n => ⌜n.Regular⌝⦄ := by
  mvcgen [binary]
  case vc2 => exact fun _ _ hn => hn
  case vc6.post.success.h_2.isTrue.pre kind _ hassign _ s hkind =>
    -- The token that the assignment is read at is the one whose kind was looked at.
    obtain ⟨op, hop, rfl⟩ := Option.map_eq_some_iff.1 hkind.symm
    exact ⟨op, hop, (Bool.and_eq_true_iff.1 hassign).1⟩

end Grammar

end PhpCheck
