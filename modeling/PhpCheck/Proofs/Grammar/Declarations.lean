import PhpCheck.Proofs.Grammar.Regular

/-!
The productions for literals, blocks and declarations make regular trees.
-/

set_option mvcgen.warning false

namespace PhpCheck

open Std.Do

namespace Grammar

variable {below : Below} {start stop indent : Nat} {words : List Node} {doc : Option Node}

/-- The grammar one nesting level further down makes regular trees. -/
def Below.Regular (below : Below) : Prop :=
  ∀ goal, ⦃⌜True⌝⦄ below goal ⦃⇓? n => ⌜n.Regular⌝⦄

@[spec]
theorem Below.Regular.expression (hbelow : below.Regular) :
    ⦃⌜True⌝⦄ below.expression ⦃⇓? n => ⌜n.Regular⌝⦄ := hbelow _

/-! ### Literals -/

@[spec]
theorem number_spec : ⦃⌜True⌝⦄ number ⦃⇓? n => ⌜n.Regular⌝⦄ := by
  mvcgen [number] <;> grind

@[spec]
theorem plainString_spec : ⦃⌜True⌝⦄ plainString ⦃⇓? n => ⌜n.Regular⌝⦄ := by
  mvcgen [plainString]
  grind

/-! ### Quoted text -/

@[grind ←]
theorem regular_simpleIndex (span : Span) (inner : List Char) :
    (simpleIndex span inner).Regular := by
  unfold simpleIndex
  grind

@[grind ←]
theorem regular_simpleInterpolation (src : Source) (start : Nat) (text : List Char) :
    (simpleInterpolation src start text).1.Regular := by
  unfold simpleInterpolation
  grind

/-- The parts found so far are regular. -/
def Pieces.Regular (p : Pieces) : Prop := ∀ n ∈ p.parts, n.Regular

theorem Pieces.Regular.flush {p : Pieces} (hp : p.Regular) (src : Source) (stop : Nat) :
    (p.flush src stop).Regular := by
  unfold Pieces.flush
  split
  · exact hp
  · intro n hn
    rcases List.mem_cons.1 hn with rfl | hn
    · exact Node.regular_leaf (by decide) _ _
    · exact hp n hn

/-- Each part that a step finds is regular. -/
theorem Pieces.step_spec (hbelow : below.Regular) (indent : Nat) (quote : Option Char)
    (stop : Nat) (p : Pieces) (hp : p.Regular) (c : Char) (rest : List Char) :
    ⦃⌜True⌝⦄ p.step below indent quote stop c rest ⦃⇓? q => ⌜q.Regular⌝⦄ := by
  have hcode := fun start stop => hbelow (.code start stop)
  mvcgen [Pieces.step, hcode]
  all_goals
    refine List.forall_mem_cons.2 ⟨?_, hp.flush _ _⟩
    grind

theorem Pieces.run_spec (hbelow : below.Regular) (indent : Nat) (quote : Option Char)
    (stop fuel : Nat) (p : Pieces) (hp : p.Regular) :
    ⦃⌜True⌝⦄ Pieces.run below indent quote stop fuel p ⦃⇓? q => ⌜q.Regular⌝⦄ := by
  induction fuel generalizing p with
  | zero =>
    mvcgen [Pieces.run]
    exact fun _ _ h => h.elim
  | succ fuel ih =>
    unfold Pieces.run
    cases p.rest with
    | nil => mvcgen
    | cons c rest =>
      have hstep := step_spec hbelow indent quote stop p hp c rest
      mvcgen [hstep, ih]
      exact fun _ _ hq => hq

@[spec]
theorem interpolated_spec (hbelow : below.Regular) {span : Span} {quote : Option Char} :
    ⦃⌜True⌝⦄ interpolated below span start stop indent quote ⦃⇓? n => ⌜n.Regular⌝⦄ := by
  have hrun := Pieces.run_spec hbelow indent quote stop
  mvcgen [interpolated, hrun]
  case vc1.hp => nofun
  case vc2.post.success.isTrue => exact Node.regular_leaf (by decide) _ _
  case vc3.post.success.isFalse hp =>
    exact Node.regular_ofKind (by decide) _ fun n hn => hp.flush _ _ n (List.mem_reverse.1 hn)

@[spec]
theorem templateString_spec (hbelow : below.Regular) :
    ⦃⌜True⌝⦄ templateString below ⦃⇓? n => ⌜n.Regular⌝⦄ := by
  mvcgen [templateString] <;> grind

@[spec]
theorem heredocString_spec (hbelow : below.Regular) :
    ⦃⌜True⌝⦄ heredocString below ⦃⇓? n => ⌜n.Regular⌝⦄ := by
  mvcgen [heredocString] <;> grind

/-! ### Blocks -/

@[spec]
theorem synchronize_bare : ⦃⌜True⌝⦄ synchronize ⦃⇓? _ => ⌜True⌝⦄ := bare _

@[spec]
theorem statementsUntil_spec (hbelow : below.Regular) {terminators : List TokenKind} :
    ⦃⌜True⌝⦄ statementsUntil below terminators ⦃⇓? ns => ⌜∀ n ∈ ns, n.Regular⌝⦄ := by
  have hstatement := hbelow .statement
  mvcgen [statementsUntil, hstatement] <;> grind

@[spec]
theorem blockUntil_spec (hbelow : below.Regular) {terminators : List TokenKind} :
    ⦃⌜True⌝⦄ blockUntil below terminators ⦃⇓? n => ⌜n.Regular⌝⦄ := by
  mvcgen [blockUntil] <;> grind

@[spec]
theorem braceBlock_spec (hbelow : below.Regular) :
    ⦃⌜True⌝⦄ braceBlock below ⦃⇓? n => ⌜n.Regular⌝⦄ := by
  mvcgen [braceBlock] <;> grind

@[spec]
theorem statementAsBlock_spec (hbelow : below.Regular) :
    ⦃⌜True⌝⦄ statementAsBlock below ⦃⇓? n => ⌜n.Regular⌝⦄ := by
  have hstatement := hbelow .statement
  mvcgen [statementAsBlock, hstatement]
  grind

@[spec]
theorem bodyUntil_spec (hbelow : below.Regular) {closing : TokenKind} :
    ⦃⌜True⌝⦄ bodyUntil below closing ⦃⇓? n => ⌜n.Regular⌝⦄ := by
  mvcgen [bodyUntil]
  grind

@[spec]
theorem expressionsUntil_spec (hbelow : below.Regular) {terminators : List TokenKind} :
    ⦃⌜True⌝⦄ expressionsUntil below terminators ⦃⇓? ns => ⌜∀ n ∈ ns, n.Regular⌝⦄ := by
  mvcgen [expressionsUntil]
  grind

@[spec]
theorem parenthesized_spec (hbelow : below.Regular) :
    ⦃⌜True⌝⦄ parenthesized below ⦃⇓? n => ⌜n.Regular⌝⦄ := by
  mvcgen [parenthesized]

/-! ### Declarations -/

@[spec]
theorem parameter_spec (hbelow : below.Regular) :
    ⦃⌜True⌝⦄ parameter below ⦃⇓? n => ⌜n.Regular⌝⦄ := by
  mvcgen [parameter] <;> grind

@[spec]
theorem parameterList_spec (hbelow : below.Regular) :
    ⦃⌜True⌝⦄ parameterList below ⦃⇓? n => ⌜n.Regular⌝⦄ := by
  mvcgen [parameterList] <;> grind

@[spec]
theorem returnType_spec : ⦃⌜True⌝⦄ returnType ⦃⇓? ns => ⌜∀ n ∈ ns, n.Regular⌝⦄ := by
  mvcgen [returnType] <;> grind

@[spec]
theorem functionDefinition_spec (hbelow : below.Regular) :
    ⦃⌜True⌝⦄ functionDefinition below ⦃⇓? n => ⌜n.Regular⌝⦄ := by
  mvcgen [functionDefinition] <;> grind

@[spec]
theorem constElement_spec (hbelow : below.Regular) :
    ⦃⌜True⌝⦄ constElement below ⦃⇓? n => ⌜n.Regular⌝⦄ := by
  mvcgen [constElement] <;> grind

@[spec]
theorem constDeclaration_spec (hbelow : below.Regular) :
    ⦃⌜True⌝⦄ constDeclaration below ⦃⇓? n => ⌜n.Regular⌝⦄ := by
  mvcgen [constDeclaration] <;> grind

@[spec]
theorem initialized_spec (hbelow : below.Regular) {kind : NodeKind}
    (hkind : kind ≠ .compoundAssignment) :
    ⦃⌜True⌝⦄ initialized below kind ⦃⇓? n => ⌜n.Regular⌝⦄ := by
  mvcgen [initialized] <;> grind

@[spec]
theorem traitAdaptation_spec : ⦃⌜True⌝⦄ traitAdaptation ⦃⇓? n => ⌜n.Regular⌝⦄ := by
  mvcgen [traitAdaptation] <;> grind

@[spec]
theorem traitUse_spec : ⦃⌜True⌝⦄ traitUse ⦃⇓? n => ⌜n.Regular⌝⦄ := by
  mvcgen [traitUse] <;> grind

@[spec]
theorem constMember_spec (hbelow : below.Regular) (hwords : ∀ n ∈ words, n.Regular)
    (hdoc : ∀ n ∈ doc, n.Regular) :
    ⦃⌜True⌝⦄ constMember below start words doc ⦃⇓? n => ⌜n.Regular⌝⦄ := by
  mvcgen [constMember] <;> grind

@[spec]
theorem methodMember_spec (hbelow : below.Regular) (hwords : ∀ n ∈ words, n.Regular)
    (hdoc : ∀ n ∈ doc, n.Regular) :
    ⦃⌜True⌝⦄ methodMember below start words doc ⦃⇓? n => ⌜n.Regular⌝⦄ := by
  mvcgen [methodMember] <;> grind

@[spec]
theorem propertyMember_spec (hbelow : below.Regular) (hwords : ∀ n ∈ words, n.Regular)
    (hdoc : ∀ n ∈ doc, n.Regular) :
    ⦃⌜True⌝⦄ propertyMember below start words doc ⦃⇓? n => ⌜n.Regular⌝⦄ := by
  mvcgen [propertyMember] <;> grind

@[spec]
theorem classMember_spec (hbelow : below.Regular) :
    ⦃⌜True⌝⦄ classMember below ⦃⇓? n => ⌜∀ m ∈ n, m.Regular⌝⦄ := by
  mvcgen [classMember] <;> grind

@[spec]
theorem synchronizeMember_bare : ⦃⌜True⌝⦄ synchronizeMember ⦃⇓? _ => ⌜True⌝⦄ := bare _

@[spec]
theorem attempt_member {p : Parse (Option Node)}
    (hp : ⦃⌜True⌝⦄ p ⦃⇓? n => ⌜∀ m ∈ n, m.Regular⌝⦄) :
    ⦃⌜True⌝⦄ attempt p ⦃⇓? r => ⌜∀ n, r = .ok n → ∀ m ∈ n, m.Regular⌝⦄ := attempt_of hp

@[spec]
theorem classBody_spec (hbelow : below.Regular) :
    ⦃⌜True⌝⦄ classBody below ⦃⇓? n => ⌜n.Regular⌝⦄ := by
  mvcgen [classBody] <;> grind

@[spec]
theorem heritage_spec :
    ⦃⌜True⌝⦄ heritage ⦃⇓? ns => ⌜∀ n ∈ ns, n.Regular⌝⦄ := by
  mvcgen [heritage] <;> grind

@[spec]
theorem classDeclaration_spec (hbelow : below.Regular) :
    ⦃⌜True⌝⦄ classDeclaration below ⦃⇓? n => ⌜n.Regular⌝⦄ := by
  mvcgen [classDeclaration] <;> grind

@[spec]
theorem interfaceDeclaration_spec (hbelow : below.Regular) :
    ⦃⌜True⌝⦄ interfaceDeclaration below ⦃⇓? n => ⌜n.Regular⌝⦄ := by
  mvcgen [interfaceDeclaration] <;> grind

@[spec]
theorem traitDeclaration_spec (hbelow : below.Regular) :
    ⦃⌜True⌝⦄ traitDeclaration below ⦃⇓? n => ⌜n.Regular⌝⦄ := by
  mvcgen [traitDeclaration] <;> grind

end Grammar

end PhpCheck
