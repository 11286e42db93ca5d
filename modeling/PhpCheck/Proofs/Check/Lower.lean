import PhpCheck.Check.Visit

/-!
The rules for a construct check parts of it, which are lower than it.

So whoever knows how to check the nodes below a construct can make the construct known:
the members of a class are the same under any two rules that agree below it
(`Rules.AgreeBelow.populateClass`), and the rules that a file starts with agree with the
rules below each of its nodes (`Rules.agreeBelow_below`).
-/

namespace PhpCheck

/-- The parameters of a function. -/
def Node.parameters (node : Node) : List Node :=
  ((node.childBy? "parameters").map positional).getD []

/-! ### Heights -/

namespace Node

theorem height_eq (n : Node) : n.height = heightAll n.children + 1 := by
  cases n
  rw [height]

theorem le_heightAll {n : Node} {nodes : List Node} (hn : n ∈ nodes) :
    n.height ≤ heightAll nodes := by
  induction nodes with
  | nil => cases hn
  | cons m rest ih =>
    rw [heightAll]
    rcases List.mem_cons.1 hn with rfl | hn
    · exact Nat.le_max_left _ _
    · exact Nat.le_trans (ih hn) (Nat.le_max_right _ _)

theorem height_lt_of_mem {n child : Node} (hchild : child ∈ n.children) :
    child.height < n.height := by
  rw [n.height_eq]
  exact Nat.lt_succ_of_le (le_heightAll hchild)

theorem height_childBy?_lt {n child : Node} {field : String}
    (hchild : n.childBy? field = some child) : child.height < n.height :=
  height_lt_of_mem (List.mem_of_find?_eq_some hchild)

theorem height_childrenBy_lt {n child : Node} {field : String}
    (hchild : child ∈ n.childrenBy field) : child.height < n.height :=
  height_lt_of_mem (List.mem_filter.1 hchild).1

theorem height_positional_lt {n child : Node} (hchild : child ∈ n.positional) :
    child.height < n.height :=
  height_lt_of_mem (List.mem_filter.1 hchild).1

/-- The parts of a list that stands in a role. -/
theorem height_listed_lt {n item : Node} {field : String}
    (hitem : item ∈ ((n.childBy? field).map positional).getD []) : item.height < n.height := by
  cases hlist : n.childBy? field with
  | none =>
    rw [hlist] at hitem
    cases hitem
  | some list =>
    rw [hlist] at hitem
    exact Nat.lt_trans (height_positional_lt hitem) (height_childBy?_lt hlist)

end Node

/-! ### Rules for what is lower -/

namespace Rules

/-- Two sets of rules check the nodes below some height alike. -/
def AgreeBelow (height : Nat) (r r' : Rules) : Prop :=
  ∀ node : Node, node.height < height → r.visit node = r'.visit node

theorem below_visit {node : Node} {height : Nat} (hnode : node.height < height) :
    (below height).visit node = Check.visit node := by
  rw [below, Check.visit]
  exact if_pos hnode

theorem agreeBelow_below {low high : Nat} (hle : low ≤ high) :
    AgreeBelow low (below high) (below low) := by
  intro node hnode
  rw [below_visit hnode, below_visit (Nat.lt_of_lt_of_le hnode hle)]

end Rules

namespace Check

/-- Drops a value that is to be assigned. -/
def dropValue : Check Unit := modifyScope fun s => { s with assigning := none }

/-- A node that cannot be written to is checked without the value to be assigned. -/
theorem visit_eq {node : Node} (hkind : node.kind.isAssignable = false) : visit node = (do
    dropValue
    (Rules.below node.height).apply node none) := by
  funext setting c
  unfold visit Rules.visitNode
  rw [hkind]
  rfl

end Check

section

variable {m : Type → Type} [Monad m] {α β : Type}

theorem foldlM_congr_of_mem {f g : β → α → m β} {xs : List α}
    (hfg : ∀ x ∈ xs, ∀ b, f b x = g b x) (b : β) : xs.foldlM f b = xs.foldlM g b := by
  induction xs generalizing b with
  | nil => rfl
  | cons x xs ih =>
    rw [List.foldlM_cons, List.foldlM_cons, hfg x List.mem_cons_self]
    exact congrArg _ (funext fun b => ih (fun y hy => hfg y (List.mem_cons_of_mem x hy)) b)

theorem filterMapM_congr_of_mem [LawfulMonad m] {f g : α → m (Option β)} {xs : List α}
    (hfg : ∀ x ∈ xs, f x = g x) : xs.filterMapM f = xs.filterMapM g := by
  induction xs with
  | nil => rfl
  | cons x xs ih =>
    rw [List.filterMapM_cons, List.filterMapM_cons, hfg x List.mem_cons_self,
      ih fun y hy => hfg y (List.mem_cons_of_mem x hy)]

end

namespace Rules.AgreeBelow

variable {height : Nat} {r r' : Rules}

theorem mono {low : Nat} (h : AgreeBelow height r r') (hle : low ≤ height) :
    AgreeBelow low r r' :=
  fun node hnode => h node (Nat.lt_of_lt_of_le hnode hle)

theorem expr (h : AgreeBelow height r r') {node : Node} (hnode : node.height < height) :
    r.expr node = r'.expr node := by
  rw [Rules.expr, Rules.expr, h node hnode]

theorem expr? (h : AgreeBelow height r r') {node : Node} {field : String}
    (hnode : node.height ≤ height) :
    r.expr? (node.childBy? field) = r'.expr? (node.childBy? field) := by
  cases hchild : node.childBy? field with
  | none => rfl
  | some child =>
    rw [Rules.expr?, Rules.expr?,
      h.expr (Nat.lt_of_lt_of_le (Node.height_childBy?_lt hchild) hnode)]

theorem constantMembers {item : Node} (h : AgreeBelow item.height r r') (className : String)
    (p : ClassParts) : r.constantMembers className item p =
    r'.constantMembers className item p := by
  refine foldlM_congr_of_mem (fun element helement p => ?_) p
  have helement := Node.height_childrenBy_lt helement
  split
  · rename_i hvalue
    rw [h.expr (Nat.lt_trans (Node.height_childBy?_lt hvalue) helement)]
  · rfl

theorem propertyMembers {item : Node} (h : AgreeBelow item.height r r') (className : String)
    (p : ClassParts) : r.propertyMembers className item p =
    r'.propertyMembers className item p := by
  unfold Rules.propertyMembers
  dsimp only
  refine bind_congr fun context => bind_congr fun declared => ?_
  refine foldlM_congr_of_mem (fun element helement p => ?_) p
  rw [h.expr? (Nat.le_of_lt (Node.height_childrenBy_lt helement))]

theorem parameter {node : Node} (h : AgreeBelow node.height r r') (doc : DocComment)
    (name : String) : r.parameter doc node name = r'.parameter doc node name := by
  rw [Rules.parameter, Rules.parameter, h.expr? (Nat.le_refl _)]

theorem declaration {node : Node} (h : AgreeBelow node.height r r') (name : String) :
    r.declaration name node = r'.declaration name node := by
  unfold Rules.declaration
  dsimp only
  refine congrArg (· >>= _) (filterMapM_congr_of_mem fun p hp => ?_)
  have hparameter := fun doc name =>
    (h.mono (Nat.le_of_lt (Node.height_listed_lt hp))).parameter doc name
  simp only [hparameter]

theorem classPart {item : Node} (h : AgreeBelow item.height r r') (className : String)
    (isInterface : Bool) (p : ClassParts) :
    r.classPart className isInterface p item = r'.classPart className isInterface p item := by
  simp only [Rules.classPart, Rules.methodMember, h.constantMembers, h.propertyMembers,
    h.declaration]

/-- The members of a class depend on the rules for what is lower than it. -/
theorem populateClass {node : Node} (h : AgreeBelow node.height r r') (className : String) :
    r.populateClass node className = r'.populateClass node className := by
  have hmembers : ∀ isInterface p, node.members.foldlM (r.classPart className isInterface) p =
      node.members.foldlM (r'.classPart className isInterface) p := by
    intro isInterface p
    refine foldlM_congr_of_mem (fun item hitem p => ?_) p
    exact (h.mono (Nat.le_of_lt (Node.height_listed_lt hitem))).classPart className isInterface p
  simp only [Rules.populateClass, hmembers]

end Rules.AgreeBelow

end PhpCheck
