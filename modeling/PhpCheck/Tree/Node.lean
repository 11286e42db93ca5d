import PhpCheck.Source.Text
import PhpCheck.Text.Quoted
import PhpCheck.Tree.Kind

/-!
Concrete trees.  The parts of a construct are children of its node; a part with
a fixed role carries the name of that role, its field.
-/

namespace PhpCheck

/-- A node of a concrete tree.  Leaves carry a text: the name of an identifier,
the decoded contents of a literal, an operator, a type as written. -/
structure Node where
  kind : NodeKind
  span : Span
  field : Option String
  text : Option String
  children : List Node

instance : Inhabited Node :=
  ⟨{ kind := .error, span := default, field := none, text := none, children := [] }⟩

namespace Node

/-- A node whose children follow. -/
def ofKind (kind : NodeKind) (span : Span) (children : List Node) : Node :=
  { kind, span, field := none, text := none, children }

def leaf (kind : NodeKind) (span : Span) (text : String) : Node :=
  { kind, span, field := none, text := some text, children := [] }

/-- The node in the role `field` of its parent. -/
def inField (n : Node) (field : String) : Node := { n with field := some field }

def push (n child : Node) : Node := { n with children := n.children ++ [child] }

/-- Adds a child in a role. -/
def withField (n : Node) (field : String) (child : Node) : Node := n.push (child.inField field)

/-! ### Looking up parts -/

/-- The first child in a role. -/
def childBy? (n : Node) (field : String) : Option Node :=
  n.children.find? (·.field == some field)

/-- All children in a role, in order. -/
def childrenBy (n : Node) (field : String) : List Node :=
  n.children.filter (·.field == some field)

/-- Children without a role. -/
def positional (n : Node) : List Node := n.children.filter (·.field.isNone)

/-- Children other than flags and doc comments. -/
def namedChildren (n : Node) : List Node := n.children.filter (·.kind.isNamed)

def findKind? (n : Node) (kind : NodeKind) : Option Node := n.children.find? (·.kind == kind)

/-- The text of a leaf; empty for other nodes. -/
def textD (n : Node) : String := n.text.getD ""

def fieldText? (n : Node) (field : String) : Option String := (n.childBy? field).map textD

def hasFlag (n : Node) (field : String) : Bool := (n.childBy? field).isSome

/-- The doc comment attached to a declaration or a statement. -/
def doc? (n : Node) : Option String := n.fieldText? "doc"

/-! ### Whole trees -/

mutual

/-- The nodes of a tree, each before its children. -/
def walk (n : Node) : List Node :=
  match n with
  | ⟨kind, span, field, text, children⟩ =>
    ⟨kind, span, field, text, children⟩ :: walkAll children

def walkAll : List Node → List Node
  | [] => []
  | n :: rest => n.walk ++ walkAll rest

end

mutual

/-- The number of nodes on the longest way down a tree. -/
def height (n : Node) : Nat :=
  match n with
  | ⟨_, _, _, _, children⟩ => heightAll children + 1

def heightAll : List Node → Nat
  | [] => 0
  | n :: rest => max n.height (heightAll rest)

end

/-- The nodes that stand for text the grammar refused. -/
def errorNodes (n : Node) : List Node := n.walk.filter (·.kind == .error)

def hasError (n : Node) : Bool := n.walk.any (·.kind == .error)

mutual

/-- One line per node: two blanks per level, the field, the kind and the quoted
text. -/
def listing (n : Node) (level : Nat) : String :=
  match n with
  | ⟨kind, _, field, text, children⟩ =>
    let label := match field with
      | some name => name ++ ": "
      | none => ""
    let value := match text with
      | some text => " = " ++ Quoted.quote text
      | none => ""
    "".pushn ' ' (2 * level) ++ label ++ kind.debugName ++ value ++ "\n"
      ++ listingAll children (level + 1)

def listingAll : List Node → Nat → String
  | [], _ => ""
  | n :: rest, level => n.listing level ++ listingAll rest level

end

end Node

end PhpCheck
