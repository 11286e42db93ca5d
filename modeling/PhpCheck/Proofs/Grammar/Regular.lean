import Mathlib
import PhpCheck.Grammar.File

/-!
Compound assignments in the trees that the grammar makes.

An operator such as `+=` reaches the rules as the text of a leaf.  In a tree that was read
from a source text, that is the operator without the equals sign, as the table of tokens
has it: `Grammar.assignment` puts it there, at a token that the table knows, and no other
production makes a compound assignment (`parse_regular`).

The productions are taken one by one, each with what is known of its parts.
-/

set_option mvcgen.warning false

namespace PhpCheck

open Std.Do

/-! ### Trees -/

namespace Node

theorem mem_walkAll {m : Node} {nodes : List Node} :
    m ∈ walkAll nodes ↔ ∃ n ∈ nodes, m ∈ n.walk := by
  induction nodes with
  | nil => simp [walkAll]
  | cons n rest ih => simp [walkAll, ih]

theorem mem_walk {m n : Node} : m ∈ n.walk ↔ m = n ∨ ∃ child ∈ n.children, m ∈ child.walk := by
  cases n
  rw [walk, List.mem_cons, mem_walkAll]

/-- A node that joins two operands by an operator. -/
structure Joins (n left : Node) (operator : String) (right : Node) : Prop where
  left : n.childBy? "left" = some left
  operator : n.fieldText? "operator" = some operator
  right : n.childBy? "right" = some right

theorem joins_inField {n left right : Node} {field operator : String} :
    (n.inField field).Joins left operator right ↔ n.Joins left operator right :=
  ⟨fun h => ⟨h.left, h.operator, h.right⟩, fun h => ⟨h.left, h.operator, h.right⟩⟩

/-- If the node is a compound assignment, its operator is one of the table. -/
def Tabled (n : Node) : Prop :=
  n.kind = .compoundAssignment →
    ∃ left kind operator right, TokenKind.compoundOperator? kind = some operator ∧
      n.Joins left operator right

theorem tabled_inField {n : Node} {field : String} : (n.inField field).Tabled ↔ n.Tabled := by
  simp only [Tabled, joins_inField]
  rfl

/-- The compound assignments in a tree have operators of the table. -/
def Regular (n : Node) : Prop := ∀ m ∈ n.walk, m.Tabled

theorem regular_iff {n : Node} : n.Regular ↔ n.Tabled ∧ ∀ child ∈ n.children, child.Regular := by
  constructor
  · intro h
    exact ⟨h n (mem_walk.2 (.inl rfl)),
      fun child hchild m hm => h m (mem_walk.2 (.inr ⟨child, hchild, hm⟩))⟩
  · rintro ⟨hn, hchildren⟩ m hm
    rcases mem_walk.1 hm with rfl | ⟨child, hchild, hm⟩
    · exact hn
    · exact hchildren child hchild m hm

@[simp, grind =]
theorem regular_inField {n : Node} {field : String} : (n.inField field).Regular ↔ n.Regular := by
  rw [regular_iff, regular_iff, tabled_inField]
  rfl

@[grind ←]
theorem regular_ofKind {kind : NodeKind} (hkind : kind ≠ .compoundAssignment) (span : Span)
    {children : List Node} (hchildren : ∀ child ∈ children, child.Regular) :
    (ofKind kind span children).Regular :=
  regular_iff.2 ⟨fun h => absurd h hkind, hchildren⟩

@[grind ←]
theorem regular_leaf {kind : NodeKind} (hkind : kind ≠ .compoundAssignment) (span : Span)
    (text : String) : (leaf kind span text).Regular :=
  regular_iff.2 ⟨fun h => absurd h hkind, fun _ h => absurd h List.not_mem_nil⟩

@[grind =]
theorem kind_withField {n child : Node} {field : String} :
    (n.withField field child).kind = n.kind := rfl

@[grind =]
theorem kind_ofKind {kind : NodeKind} {span : Span} {children : List Node} :
    (ofKind kind span children).kind = kind := rfl

@[grind =]
theorem children_ofKind {kind : NodeKind} {span : Span} {children : List Node} :
    (ofKind kind span children).children = children := rfl

@[grind ←]
theorem regular_withField {n child : Node} {field : String}
    (hkind : n.kind ≠ .compoundAssignment) (hn : n.Regular) (hchild : child.Regular) :
    (n.withField field child).Regular := by
  refine regular_iff.2 ⟨fun h => absurd h hkind, fun m hm => ?_⟩
  rcases List.mem_append.1 hm with hm | hm
  · exact (regular_iff.1 hn).2 m hm
  · obtain rfl := List.mem_singleton.1 hm
    exact regular_inField.2 hchild

end Node

namespace Grammar

/-! ### Productions -/

section

variable {α : Type}

/-- What a production results in, if it does in anything. -/
theorem triple_iff {p : Parse α} {P : State → Prop} {Q : α → Prop} :
    ⦃fun _ s => ⌜P s⌝⦄ p ⦃⇓? a => ⌜Q a⌝⦄ ↔
      ∀ src s a s', P s → p src s = .ok a s' → Q a := by
  constructor
  · intro h src s a s' hs hrun
    have hpost := h src s hs
    simp only [WP.wp, PredTrans.apply_pushArg, PredTrans.apply_Functor_map] at hpost
    simp only [PredTrans.apply, ReaderT.run, EStateM.run, hrun] at hpost
    exact hpost
  · intro h src s hs
    simp only [WP.wp, PredTrans.apply_pushArg, PredTrans.apply_Functor_map]
    simp only [PredTrans.apply, ReaderT.run, EStateM.run]
    cases hrun : p src s with
    | ok a s' => exact h src s a s' hs hrun
    | error e s' => trivial

theorem bare (p : Parse α) : ⦃⌜True⌝⦄ p ⦃⇓? _ => ⌜True⌝⦄ :=
  triple_iff.2 fun _ _ _ _ _ _ => trivial

end

section

variable {separator kind : TokenKind} {kinds : List TokenKind} {what : String} {n start stop : Nat}

@[spec]
theorem atEnd_bare : ⦃⌜True⌝⦄ atEnd ⦃⇓? _ => ⌜True⌝⦄ := bare _

@[spec]
theorem check_bare : ⦃⌜True⌝⦄ check kind ⦃⇓? _ => ⌜True⌝⦄ := bare _

@[spec]
theorem checkAny_bare : ⦃⌜True⌝⦄ checkAny kinds ⦃⇓? _ => ⌜True⌝⦄ := bare _

@[spec]
theorem eat_bare : ⦃⌜True⌝⦄ eat kind ⦃⇓? _ => ⌜True⌝⦄ := bare _

@[spec]
theorem eats_bare : ⦃⌜True⌝⦄ eats kind ⦃⇓? _ => ⌜True⌝⦄ := bare _

@[spec]
theorem peek?_bare : ⦃⌜True⌝⦄ peek? ⦃⇓? _ => ⌜True⌝⦄ := bare _

@[spec]
theorem spanOf_bare : ⦃⌜True⌝⦄ spanOf start stop ⦃⇓? _ => ⌜True⌝⦄ := bare _

@[spec]
theorem here_bare : ⦃⌜True⌝⦄ here ⦃⇓? _ => ⌜True⌝⦄ := bare _

@[spec]
theorem currentSpan_bare : ⦃⌜True⌝⦄ currentSpan ⦃⇓? _ => ⌜True⌝⦄ := bare _

@[spec]
theorem spanFrom_bare : ⦃⌜True⌝⦄ spanFrom start ⦃⇓? _ => ⌜True⌝⦄ := bare _

@[spec]
theorem expect_bare : ⦃⌜True⌝⦄ expect kind what ⦃⇓? _ => ⌜True⌝⦄ := bare _

@[spec]
theorem expectSemicolon_bare : ⦃⌜True⌝⦄ expectSemicolon ⦃⇓? _ => ⌜True⌝⦄ := bare _

@[spec]
theorem note_bare {e : SyntaxError} : ⦃⌜True⌝⦄ note e ⦃⇓? _ => ⌜True⌝⦄ := bare _

@[spec]
theorem compactText_bare {span : Span} : ⦃⌜True⌝⦄ compactText span ⦃⇓? _ => ⌜True⌝⦄ := bare _

@[spec]
theorem discard_bare {α : Type} {p : Parse α} :
    ⦃⌜True⌝⦄ (discard p : Parse PUnit) ⦃⇓? _ => ⌜True⌝⦄ := bare _

@[spec]
theorem atMemberName_bare : ⦃⌜True⌝⦄ atMemberName ⦃⇓? _ => ⌜True⌝⦄ := bare _

end

/-- The current token is consumed and returned. -/
@[spec]
theorem advance_spec {tok : Option Token} :
    ⦃fun _ s => ⌜s.current = tok⌝⦄ advance ⦃⇓? t => ⌜t = tok⌝⦄ := by
  refine triple_iff.2 fun src s t s' hs hrun => ?_
  cases hrun
  exact hs

/-- The kind of the current token. -/
@[spec]
theorem kind?_spec :
    ⦃⌜True⌝⦄ kind? ⦃⇓? kind => fun _ s => ⌜kind = s.current.map (·.kind)⌝⦄ := by
  mvcgen [kind?]

@[spec]
theorem unexpected_spec {α : Type} {expected : String} :
    ⦃⌜True⌝⦄ (unexpected expected : Parse α) ⦃⇓? _ => ⌜False⌝⦄ := by
  mvcgen [unexpected]

@[spec]
theorem stall_spec {α : Type} : ⦃⌜True⌝⦄ (stall : Parse α) ⦃⇓? _ => ⌜False⌝⦄ := by
  mvcgen [stall]

/-! ### Repetition -/

/-- What a round of a repetition results in, whether or not it is the last one. -/
def Round.result {α : Type} : Round α → α
  | .more a => a
  | .done a => a

@[simp, grind =]
theorem Round.result_more {α : Type} (a : α) : (Round.more a).result = a := rfl

@[simp, grind =]
theorem Round.result_done {α : Type} (a : α) : (Round.done a).result = a := rfl

theorem rounds_spec {α : Type} {P : α → Prop} {round : α → Parse (Round α)}
    (hround : ∀ a, P a → ⦃⌜True⌝⦄ round a ⦃⇓? r => ⌜P r.result⌝⦄) (fuel : Nat) (a : α)
    (ha : P a) : ⦃⌜True⌝⦄ rounds round fuel a ⦃⇓? a => ⌜P a⌝⦄ := by
  induction fuel generalizing a with
  | zero =>
    mvcgen [rounds]
    exact fun _ _ h => h.elim
  | succ fuel ih =>
    mvcgen [rounds, hround, ih]
    exact fun _ _ ha => ha

theorem repeated_spec {α : Type} {P : α → Prop} {init : α} {round : α → Parse (Round α)}
    (hinit : P init) (hround : ∀ a, P a → ⦃⌜True⌝⦄ round a ⦃⇓? r => ⌜P r.result⌝⦄) :
    ⦃⌜True⌝⦄ repeated init round ⦃⇓? a => ⌜P a⌝⦄ := by
  have hrounds := fun fuel a => rounds_spec hround fuel a
  mvcgen [repeated, hrounds]

section

variable {separator : TokenKind} {stop : Parse Bool}

@[spec]
theorem repeated_bare {init : Unit} {round : Unit → Parse (Round Unit)} :
    ⦃⌜True⌝⦄ repeated init round ⦃⇓? _ => ⌜True⌝⦄ := bare _

@[spec]
theorem repeated_node {init : Node} {round : Node → Parse (Round Node)} (hinit : init.Regular)
    (hround : ∀ n, n.Regular → ⦃⌜True⌝⦄ round n ⦃⇓? r => ⌜r.result.Regular⌝⦄) :
    ⦃⌜True⌝⦄ repeated init round ⦃⇓? n => ⌜n.Regular⌝⦄ := repeated_spec hinit hround

@[spec]
theorem repeated_nodes {init : List Node} {round : List Node → Parse (Round (List Node))}
    (hinit : ∀ n ∈ init, n.Regular)
    (hround : ∀ nodes, (∀ n ∈ nodes, n.Regular) →
      ⦃⌜True⌝⦄ round nodes ⦃⇓? r => ⌜∀ n ∈ r.result, n.Regular⌝⦄) :
    ⦃⌜True⌝⦄ repeated init round ⦃⇓? nodes => ⌜∀ n ∈ nodes, n.Regular⌝⦄ :=
  repeated_spec hinit hround

@[spec]
theorem commaList_spec {item : Parse Node} (hitem : ⦃⌜True⌝⦄ item ⦃⇓? n => ⌜n.Regular⌝⦄) :
    ⦃⌜True⌝⦄ commaList stop item ⦃⇓? nodes => ⌜∀ n ∈ nodes, n.Regular⌝⦄ := by
  have hstop := bare stop
  mvcgen [commaList, hitem, hstop] <;> grind

theorem separated_of {α : Type} {P : α → Prop} {item : Parse α}
    (hitem : ⦃⌜True⌝⦄ item ⦃⇓? a => ⌜P a⌝⦄) :
    ⦃⌜True⌝⦄ separated separator item ⦃⇓? items => ⌜∀ a ∈ items, P a⌝⦄ := by
  have hrepeated := fun init round =>
    @repeated_spec (List α) (fun items => ∀ a ∈ items, P a) init round
  mvcgen [separated, hitem, hrepeated] <;> grind

@[spec]
theorem separated_nodes {item : Parse Node} (hitem : ⦃⌜True⌝⦄ item ⦃⇓? n => ⌜n.Regular⌝⦄) :
    ⦃⌜True⌝⦄ separated separator item ⦃⇓? nodes => ⌜∀ n ∈ nodes, n.Regular⌝⦄ :=
  separated_of hitem

@[spec]
theorem separated_lists {item : Parse (List Node)}
    (hitem : ⦃⌜True⌝⦄ item ⦃⇓? nodes => ⌜∀ n ∈ nodes, n.Regular⌝⦄) :
    ⦃⌜True⌝⦄ separated separator item
    ⦃⇓? lists => ⌜∀ nodes ∈ lists, ∀ n ∈ nodes, Node.Regular n⌝⦄ :=
  separated_of hitem

theorem attempt_of {α : Type} {P : α → Prop} {p : Parse α}
    (hp : ⦃⌜True⌝⦄ p ⦃⇓? a => ⌜P a⌝⦄) :
    ⦃⌜True⌝⦄ attempt p ⦃⇓? r => ⌜∀ a, r = .ok a → P a⌝⦄ := by
  refine triple_iff.2 fun src s r s' _ hrun a hr => ?_
  rw [attempt] at hrun
  cases hstep : p src s with
  | ok b t =>
    rw [hstep] at hrun
    cases hrun
    cases hr
    exact triple_iff.1 hp _ _ _ _ trivial hstep
  | error e t =>
    rw [hstep] at hrun
    cases hrun
    cases hr

@[spec]
theorem attempt_node {p : Parse Node} (hp : ⦃⌜True⌝⦄ p ⦃⇓? n => ⌜n.Regular⌝⦄) :
    ⦃⌜True⌝⦄ attempt p ⦃⇓? r => ⌜∀ n, r = .ok n → n.Regular⌝⦄ := attempt_of hp

end

/-! ### Small nodes -/

@[grind ←]
theorem regular_flag (span : Span) : (flag span).Regular := by
  rw [flag]
  exact Node.regular_ofKind (by decide) span fun _ h => absurd h List.not_mem_nil

@[grind →]
theorem regular_of_mem_flagField {n : Node} {field : String} {tok : Option Token}
    (hn : n ∈ flagField field tok) : n.Regular := by
  cases tok with
  | none => cases hn
  | some tok =>
    obtain rfl := List.mem_singleton.1 hn
    exact Node.regular_inField.2 (regular_flag _)

@[grind →]
theorem regular_of_mem_optField {n : Node} {field : String} {child : Option Node}
    (hn : n ∈ optField field child) (hchild : ∀ c ∈ child, c.Regular) : n.Regular := by
  cases child with
  | none => cases hn
  | some child =>
    obtain rfl := List.mem_singleton.1 hn
    exact Node.regular_inField.2 (hchild child rfl)

@[spec]
theorem nodeFrom_spec {kind : NodeKind} {start : Nat} {children : List Node}
    (hkind : kind ≠ .compoundAssignment) (hchildren : ∀ n ∈ children, n.Regular) :
    ⦃⌜True⌝⦄ nodeFrom kind start children ⦃⇓? n => ⌜n.Regular⌝⦄ := by
  mvcgen [nodeFrom]
  exact Node.regular_ofKind hkind _ hchildren

@[spec]
theorem takeDoc_spec : ⦃⌜True⌝⦄ takeDoc ⦃⇓? doc => ⌜∀ n ∈ doc, n.Regular⌝⦄ := by
  mvcgen [takeDoc]
  intro n hn
  obtain ⟨tok, -, rfl⟩ := Option.map_eq_some_iff.1 hn
  exact Node.regular_leaf (by decide) _ _

@[spec]
theorem simpleVariable_spec : ⦃⌜True⌝⦄ simpleVariable ⦃⇓? n => ⌜n.Regular⌝⦄ := by
  mvcgen [simpleVariable]
  grind

@[spec]
theorem qualifiedName_spec : ⦃⌜True⌝⦄ qualifiedName ⦃⇓? n => ⌜n.Regular⌝⦄ := by
  mvcgen [qualifiedName] <;> grind

@[spec]
theorem nameList_spec : ⦃⌜True⌝⦄ nameList ⦃⇓? n => ⌜n.Regular⌝⦄ := by
  mvcgen [nameList] <;> grind

@[spec]
theorem memberName_spec : ⦃⌜True⌝⦄ memberName ⦃⇓? n => ⌜n.Regular⌝⦄ := by
  mvcgen [memberName] <;> grind

@[spec]
theorem modifiers_spec : ⦃⌜True⌝⦄ modifiers ⦃⇓? words => ⌜∀ n ∈ words, n.Regular⌝⦄ := by
  mvcgen [modifiers] <;> grind

@[spec]
theorem typeHint_spec : ⦃⌜True⌝⦄ typeHint ⦃⇓? n => ⌜n.Regular⌝⦄ := by
  mvcgen [typeHint]
  grind

end Grammar

end PhpCheck
