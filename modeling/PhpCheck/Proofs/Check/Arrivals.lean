import PhpCheck.Proofs.Check.Coalescing
import PhpCheck.Proofs.Check.Condition
import PhpCheck.Proofs.Check.Hoisting
import PhpCheck.Proofs.Check.Isolation
import PhpCheck.Proofs.Check.Sharing

/-!
The names in force where a declaration is reached.

Namespaces and imports are followed twice.  Before the statements of a file are checked, its
declarations are gathered with the names in force where they stand (`placedDeclarations`), and
they are made known under these.  While the statements are checked, the names are part of the
scope (`Rules.namespaceDefinition`, `Rules.useDeclaration`), and a declaration is checked under
those in force then.  If names change only at the top of a file and of its namespaces, and
control goes on behind every statement there, both ways agree on each declaration
(`Check.names_where_reached`).
-/

namespace PhpCheck

open Check

/-! ### What is reached -/

/-- A declaration that is known in all of a file. -/
def NodeKind.isPlaced (kind : NodeKind) : Bool :=
  kind == .constDeclaration || kind == .functionDefinition || kind.isClassLike

/-- A checker that drops a value being assigned, where other names are in force. -/
def Checker.entering (c : Checker) (names : NameContext) : Checker :=
  { c with scope := { c.scope with assigning := none, names } }

namespace Check

/-- Checks the statements behind one that left with some flow. -/
def onwards (flow : Flow) (nodes : List Node) : Check Flow :=
  nodes.foldlM (fun flow node => do
    if flow.isNormal then return (← visit node).flow
    else
      if node.kind.isDeclaration then
        let _ ← visit node
      return flow) flow

/-- A statement that is reached, with the checker in front of it. -/
abbrev Arrival := Checker × Node

/-- The statements that are reached, given which are reached inside of each. -/
def arrivals (inside : Node → Checker → List Arrival) (setting : Setting) :
    Flow → List Node → Checker → List Arrival
  | _, [], _ => []
  | flow, node :: rest, c =>
    if flow.isNormal || node.kind.isDeclaration then
      (c, node) :: inside node c ++
        match visit node setting c with
        | .ok result c' => arrivals inside setting (if flow.isNormal then result.flow else flow)
          rest c'
        | .error _ _ => []
    else arrivals inside setting flow rest c

/-- The statements that are reached inside a namespace, and in at most so many inside one
another. -/
def arrivalsInside (setting : Setting) : (depth : Nat) → Node → Checker → List Arrival
  | 0, _, _ => []
  | depth + 1, node, c =>
    match node.kind, node.childBy? "body" with
    | .namespaceDefinition, some body =>
      arrivals (arrivalsInside setting depth) setting .normal body.positional
        (c.entering (.enter (node.fieldText? "name")))
    | _, _ => []

/-- The statements that are reached at the top of a file and of its namespaces. -/
def reached (setting : Setting) (root : Node) (c : Checker) : List Arrival :=
  arrivals (arrivalsInside setting root.height) setting .normal root.positional
    (c.entering c.scope.names)

/-- The declarations among statements that are reached, with the names in force there. -/
def declarations (xs : List Arrival) : List Placed :=
  (xs.filter fun (_, node) => node.kind.isPlaced).map fun (c, node) => (c.scope.names, node)

/-- Control goes on behind statements that are reached. -/
def GoOn (setting : Setting) (xs : List Arrival) : Prop :=
  ∀ c node, (c, node) ∈ xs → ∀ result c', visit node setting c = .ok result c' →
    result.flow = .normal

section

variable {setting : Setting} {c c' : Checker} {inside : Node → Checker → List Arrival}

theorem onwards_cons (flow : Flow) (node : Node) (rest : List Node) :
    onwards flow (node :: rest) = (do
      if flow.isNormal || node.kind.isDeclaration then
        let result ← visit node
        onwards (if flow.isNormal then result.flow else flow) rest
      else onwards flow rest) := by
  unfold onwards
  rw [List.foldlM_cons]
  cases flow.isNormal <;> cases node.kind.isDeclaration <;> simp

theorem onwards_normal (node : Node) (rest : List Node) :
    onwards .normal (node :: rest) = (do
      let result ← visit node
      onwards result.flow rest) := by
  rw [onwards_cons]
  rfl

theorem arrivals_normal (node : Node) (rest : List Node) :
    arrivals inside setting .normal (node :: rest) c =
      ((c, node) :: inside node c) ++ match visit node setting c with
        | .ok result c' => arrivals inside setting result.flow rest c'
        | .error _ _ => [] := rfl

theorem declarations_append (xs ys : List Arrival) :
    declarations (xs ++ ys) = declarations xs ++ declarations ys := by
  simp [declarations]

theorem below_statements {height : Nat} {nodes : List Node}
    (hnodes : ∀ node ∈ nodes, node.height < height) :
    (Rules.below height).statements nodes = onwards .normal nodes := by
  unfold Rules.statements onwards
  refine foldlM_congr_of_mem (fun node hnode flow => ?_) _
  rw [Rules.below_visit (hnodes node hnode)]

theorem below_block {height : Nat} {node : Node} (hnode : node.height ≤ height) :
    (Rules.below height).block node = onwards .normal node.positional :=
  below_statements fun _ hchild => Nat.lt_of_lt_of_le (Node.height_positional_lt hchild) hnode

/-! ### Statements that change the names -/

theorem visit_use {node : Node} (hkind : node.kind = .useDeclaration) :
    visit node setting c =
      .ok (.statement .normal) (c.entering (c.scope.names.importAll node)) := by
  rw [visit_eq (by rw [hkind]; rfl)]
  unfold Rules.apply Rules.logical?
  rw [hkind]
  rfl

theorem visit_namespace {node : Node} (hkind : node.kind = .namespaceDefinition)
    (hbody : node.childBy? "body" = none) :
    visit node setting c =
      .ok (.statement .normal) (c.entering (.enter (node.fieldText? "name"))) := by
  rw [visit_eq (by rw [hkind]; rfl)]
  unfold Rules.apply Rules.logical? Rules.namespaceDefinition
  rw [hkind, hbody]
  rfl

theorem visit_braced {node body : Node} (hkind : node.kind = .namespaceDefinition)
    (hbody : node.childBy? "body" = some body) :
    visit node setting c = (do
      let flow ← onwards .normal body.positional
      setNames (.enter none)
      return .statement flow : Check Inferred) setting
        (c.entering (.enter (node.fieldText? "name"))) := by
  rw [visit_eq (by rw [hkind]; rfl)]
  unfold Rules.apply Rules.logical? Rules.namespaceDefinition
  rw [hkind, hbody]
  simp only [below_block (Nat.le_of_lt (Node.height_childBy?_lt hbody)), bind_assoc, pure_bind]
  rfl

end

end Check

/-! ### What is recorded -/

/-- A statement at the top of a file or of a namespace: names are changed by it, or by what
stands directly inside of a namespace, but nowhere else in it. -/
inductive Node.NamesOnTop : Node → Prop
  | use {node : Node} (hkind : node.kind = .useDeclaration) : node.NamesOnTop
  | line {node : Node} (hkind : node.kind = .namespaceDefinition)
      (hbody : node.childBy? "body" = none) : node.NamesOnTop
  | braced {node body : Node} (hkind : node.kind = .namespaceDefinition)
      (hbody : node.childBy? "body" = some body)
      (hstatements : ∀ statement ∈ body.positional, statement.NamesOnTop) : node.NamesOnTop
  | plain {node : Node} (hwalk : ∀ n ∈ node.walk, n.kind ≠ .namespaceDefinition ∧
      n.kind ≠ .useDeclaration) : node.NamesOnTop

section

variable {depth : Nat} {names : NameContext} {node : Node}

theorem placedDeclarations_nil (depth : Nat) (names : NameContext) :
    placedDeclarations depth names [] = (names, []) := by
  rw [placedDeclarations]

theorem placedDeclarations_cons (depth : Nat) (names : NameContext) (node : Node)
    (rest : List Node) :
    placedDeclarations depth names (node :: rest) =
      ((placedDeclarations depth (placedDeclarations depth names [node]).1 rest).1,
        (placedDeclarations depth names [node]).2 ++
          (placedDeclarations depth (placedDeclarations depth names [node]).1 rest).2) := by
  rw [placedDeclarations, placedDeclarations]
  simp only [placedDeclarations_nil, List.append_nil]

theorem placedDeclarations_use (hkind : node.kind = .useDeclaration) :
    placedDeclarations depth names [node] = (names.importAll node, []) := by
  rw [placedDeclarations, hkind]
  simp [placedDeclarations_nil]

theorem placedDeclarations_namespace (hkind : node.kind = .namespaceDefinition)
    (hbody : node.childBy? "body" = none) :
    placedDeclarations depth names [node] = (.enter (node.fieldText? "name"), []) := by
  rw [placedDeclarations, hkind]
  simp [placedDeclarations_nil, hbody]

theorem placedDeclarations_braced {body : Node} (hkind : node.kind = .namespaceDefinition)
    (hbody : node.childBy? "body" = some body) :
    placedDeclarations (depth + 1) names [node] = (.enter none,
      (placedDeclarations depth (.enter (node.fieldText? "name")) body.positional).2) := by
  rw [placedDeclarations, hkind]
  simp [placedDeclarations_nil, hbody]

theorem placedDeclarations_plain (hnamespace : node.kind ≠ .namespaceDefinition)
    (huse : node.kind ≠ .useDeclaration) :
    placedDeclarations depth names [node] =
      (names, if node.kind.isPlaced then [(names, node)] else []) := by
  rw [placedDeclarations]
  simp only [placedDeclarations_nil, List.append_nil]
  split <;> simp_all [NodeKind.isPlaced, NodeKind.isClassLike]

end

/-! ### Both agree -/

theorem Checker.Shares.entering {c : Checker} (hc : c.Shares) (names : NameContext) :
    (c.entering names).Shares :=
  ⟨hc.numbered, hc.bindings⟩

namespace Check

variable {setting : Setting} {depth : Nat} {node : Node} {nodes : List Node} {c : Checker}

/-- What is recorded for statements are the names in front of the declarations that are reached
among them, and if the step that checks them ends, of all their declarations, and the names
behind them. -/
structure Recorded {α : Type} (setting : Setting) (depth : Nat) (nodes : List Node) (m : Check α)
    (c : Checker) (xs : List Arrival) : Prop where
  reached : declarations xs <+: (placedDeclarations depth c.scope.names nodes).2
  ended : ∀ a c', m setting c = .ok a c' →
    declarations xs = (placedDeclarations depth c.scope.names nodes).2 ∧
      c'.scope.names = (placedDeclarations depth c.scope.names nodes).1

theorem GoOn.left {xs ys : List Arrival} (h : GoOn setting (xs ++ ys)) : GoOn setting xs :=
  fun c node hmem => h c node (List.mem_append_left _ hmem)

theorem GoOn.right {xs ys : List Arrival} (h : GoOn setting (xs ++ ys)) : GoOn setting ys :=
  fun c node hmem => h c node (List.mem_append_right _ hmem)

theorem arrivalsInside_of_ne (hkind : node.kind ≠ .namespaceDefinition) :
    arrivalsInside setting depth node c = [] := by
  cases depth with
  | zero => rfl
  | succ depth =>
    rw [arrivalsInside]
    split
    · exact absurd ‹_› hkind
    · rfl

theorem recorded_nothing {names : NameContext} {result : Inferred}
    (hkind : node.kind.isPlaced = false) (hinside : arrivalsInside setting depth node c = [])
    (hplaced : placedDeclarations depth c.scope.names [node] = (names, []))
    (hvisit : visit node setting c = .ok result (c.entering names)) :
    Recorded setting depth [node] (visit node) c
      ((c, node) :: arrivalsInside setting depth node c) := by
  have hdeclarations : declarations ((c, node) :: arrivalsInside setting depth node c) = [] := by
    rw [hinside]
    simp [declarations, hkind]
  constructor
  · rw [hdeclarations]
    exact List.nil_prefix
  · intro a c' hrun
    rw [hvisit] at hrun
    cases hrun
    rw [hdeclarations, hplaced]
    exact ⟨rfl, rfl⟩

theorem recorded_use (hkind : node.kind = .useDeclaration) :
    Recorded setting depth [node] (visit node) c
      ((c, node) :: arrivalsInside setting depth node c) :=
  recorded_nothing (by rw [hkind]; rfl) (arrivalsInside_of_ne (by simp [hkind]))
    (placedDeclarations_use hkind) (visit_use hkind)

theorem recorded_namespace (hkind : node.kind = .namespaceDefinition)
    (hbody : node.childBy? "body" = none) :
    Recorded setting depth [node] (visit node) c
      ((c, node) :: arrivalsInside setting depth node c) := by
  refine recorded_nothing (by rw [hkind]; rfl) ?_ (placedDeclarations_namespace hkind hbody)
    (visit_namespace hkind hbody)
  cases depth with
  | zero => rfl
  | succ depth => rw [arrivalsInside, hkind, hbody]

theorem recorded_plain (hwalk : ∀ n ∈ node.walk, n.kind ≠ .namespaceDefinition ∧
    n.kind ≠ .useDeclaration) (hc : c.Shares) :
    Recorded setting depth [node] (visit node) c
      ((c, node) :: arrivalsInside setting depth node c) := by
  obtain ⟨hnamespace, huse⟩ := hwalk node (Node.mem_walk.2 (.inl rfl))
  have hdeclarations :
      declarations ((c, node) :: arrivalsInside setting depth node c) =
        (placedDeclarations depth c.scope.names [node]).2 := by
    rw [arrivalsInside_of_ne hnamespace, placedDeclarations_plain hnamespace huse]
    cases hplaced : node.kind.isPlaced <;> simp [declarations, hplaced]
  constructor
  · rw [hdeclarations]
  · intro a c' hrun
    refine ⟨hdeclarations, ?_⟩
    rw [visit_names (fun _ => hwalk) hc hrun, placedDeclarations_plain hnamespace huse]

/-- A namespace in braces, given what is recorded for its statements. -/
theorem recorded_braced {body : Node} (hkind : node.kind = .namespaceDefinition)
    (hbody : node.childBy? "body" = some body)
    (h : Recorded setting depth body.positional (onwards .normal body.positional)
      (c.entering (.enter (node.fieldText? "name")))
      (arrivals (arrivalsInside setting depth) setting .normal body.positional
        (c.entering (.enter (node.fieldText? "name"))))) :
    Recorded setting (depth + 1) [node] (visit node) c
      ((c, node) :: arrivalsInside setting (depth + 1) node c) := by
  have hdeclarations : declarations ((c, node) :: arrivalsInside setting (depth + 1) node c) =
      declarations (arrivals (arrivalsInside setting depth) setting .normal body.positional
        (c.entering (.enter (node.fieldText? "name")))) := by
    rw [arrivalsInside, hkind, hbody]
    simp [declarations, hkind, NodeKind.isPlaced, NodeKind.isClassLike]
  constructor
  · rw [hdeclarations, placedDeclarations_braced hkind hbody]
    exact h.reached
  · intro a c' hrun
    rw [visit_braced hkind hbody] at hrun
    obtain ⟨flow, c₁, hstatements, hrun⟩ := bind_ok hrun
    cases hrun
    rw [hdeclarations, placedDeclarations_braced hkind hbody]
    exact ⟨(h.ended flow c₁ hstatements).1, rfl⟩

/-- Statements, given what is recorded for each of them. -/
theorem recorded_statements {inside : Node → Checker → List Arrival}
    (h : ∀ node ∈ nodes, ∀ c : Checker, c.Shares → GoOn setting (inside node c) →
      Recorded setting depth [node] (visit node) c ((c, node) :: inside node c))
    (hc : c.Shares) (hgo : GoOn setting (arrivals inside setting .normal nodes c)) :
    Recorded setting depth nodes (onwards .normal nodes) c
      (arrivals inside setting .normal nodes c) := by
  induction nodes generalizing c with
  | nil =>
    refine ⟨List.nil_prefix, fun a c' hrun => ?_⟩
    cases hrun
    rw [placedDeclarations_nil]
    exact ⟨rfl, rfl⟩
  | cons node rest ih =>
    rw [arrivals_normal] at hgo ⊢
    have hnode := h node List.mem_cons_self c hc
      fun c' n hmem => hgo.left c' n (List.mem_cons_of_mem _ hmem)
    rw [onwards_normal]
    cases hvisit : visit node setting c with
    | error x c₁ =>
      refine ⟨?_, fun a c' hrun => ?_⟩
      · rw [List.append_nil, placedDeclarations_cons]
        exact hnode.reached.trans (List.prefix_append _ _)
      · rw [bind_run, hvisit] at hrun
        cases hrun
    | ok result c₁ =>
      rw [hvisit] at hgo
      have hflow : result.flow = .normal :=
        hgo.left c node List.mem_cons_self result c₁ hvisit
      dsimp only at hgo ⊢
      rw [hflow] at hgo ⊢
      obtain ⟨hhere, hnames⟩ := hnode.ended result c₁ hvisit
      have hmore := ih (fun n hn => h n (List.mem_cons_of_mem _ hn)) (visit_shares hc hvisit)
        hgo.right
      refine ⟨?_, fun a c' hrun => ?_⟩
      · rw [declarations_append, placedDeclarations_cons, hhere, ← hnames]
        exact (List.prefix_append_right_inj _).2 hmore.reached
      · rw [bind_run_ok hvisit, hflow] at hrun
        obtain ⟨hrest, hlast⟩ := hmore.ended a c' hrun
        rw [declarations_append, placedDeclarations_cons, hhere, ← hnames]
        exact ⟨congrArg _ hrest, hlast⟩

/-- At the top of a file or of a namespace, what is recorded are the names in force where
declarations are reached. -/
theorem recorded_arrivals (htop : ∀ node ∈ nodes, node.NamesOnTop)
    (hheight : ∀ node ∈ nodes, node.height ≤ depth) (hc : c.Shares)
    (hgo : GoOn setting (arrivals (arrivalsInside setting depth) setting .normal nodes c)) :
    Recorded setting depth nodes (onwards .normal nodes) c
      (arrivals (arrivalsInside setting depth) setting .normal nodes c) := by
  induction depth generalizing nodes c with
  | zero =>
    refine recorded_statements (fun node hnode _ _ _ => ?_) hc hgo
    have hpos := hheight node hnode
    rw [Node.height_eq] at hpos
    omega
  | succ depth ih =>
    refine recorded_statements (fun node hnode c hc hgo => ?_) hc hgo
    cases htop node hnode with
    | use hkind => exact recorded_use hkind
    | line hkind hbody => exact recorded_namespace hkind hbody
    | plain hwalk => exact recorded_plain hwalk hc
    | @braced _ body hkind hbody hstatements =>
      refine recorded_braced hkind hbody (ih hstatements (fun n hn => ?_) (hc.entering _) ?_)
      · have hnode := hheight node hnode
        have hbodyHeight := Node.height_childBy?_lt hbody
        have hn := Node.height_positional_lt hn
        omega
      · rw [arrivalsInside, hkind, hbody] at hgo
        exact hgo

/-! ### Files -/

variable {root : Node} {c₁ : Checker}

theorem visit_root (hroot : root.kind = .sourceFile ∨ root.kind = .block) :
    visit root setting c = (do return .statement (← onwards .normal root.positional) :
      Check Inferred) setting (c.entering c.scope.names) := by
  have hassignable : root.kind.isAssignable = false := by
    rcases hroot with hkind | hkind <;> rw [hkind] <;> rfl
  rw [visit_eq hassignable, Rules.apply_block hroot, below_block (Nat.le_refl _)]
  rfl

theorem hoist_names {r : Rules} (hrun : r.hoist root setting c = .ok () c₁) :
    c₁.scope.names = c.scope.names := by
  rw [Rules.hoist_run] at hrun
  obtain ⟨_, c₂, -, hlast⟩ := bind_ok hrun
  cases hlast
  rfl

theorem hoist_shares {height : Nat} (hc : c.Shares)
    (hrun : (Rules.below height).hoist root setting c = .ok () c₁) : c₁.Shares := by
  obtain ⟨l, hl⟩ := Checker.shares_iff.1 hc
  obtain ⟨l', hl', -⟩ := hl.step ((Rules.uniform_below none height).hoist root)
    ((Rules.composite_below height).hoist root) hrun
  exact hl'.shares

end Check

/-- The checker at the start of a file. -/
def Checker.atStart (s : Session) (included : Bool) : Checker :=
  { session := s, scope := .file included }

/-- If names change only at the top of a file and of its namespaces, and control goes on behind
all statements that are reached there, the names in front of each declaration that is reached
are those under which it was made known at the start; and if the file is checked to its end, all
those declarations are reached. -/
theorem Check.names_where_reached (s : Session) (included : Bool) (setting : Setting)
    {root : Node} {c : Checker} (hroot : root.kind = .sourceFile ∨ root.kind = .block)
    (htop : ∀ node ∈ root.positional, node.NamesOnTop)
    (hhoist : (Rules.below root.height).hoist root setting (.atStart s included) = .ok () c)
    (hgo : GoOn setting (reached setting root c)) :
    let placed := (placedDeclarations root.height (Checker.atStart s included).scope.names
      root.positional).2
    declarations (reached setting root c) <+: placed ∧
      ∀ result c', visit root setting c = .ok result c' →
        declarations (reached setting root c) = placed := by
  intro placed
  have hshares : (Checker.atStart s included).Shares := .of_alone rfl rfl
  have hplaced : (placedDeclarations root.height c.scope.names root.positional).2 = placed := by
    rw [hoist_names hhoist]
  have hrecorded := recorded_arrivals htop
    (fun node hnode => Nat.le_of_lt (Node.height_positional_lt hnode))
    ((hoist_shares hshares hhoist).entering c.scope.names) hgo
  rw [← hplaced]
  refine ⟨hrecorded.reached, fun result c' hrun => ?_⟩
  rw [visit_root hroot] at hrun
  obtain ⟨flow, c₂, hstatements, -⟩ := bind_ok hrun
  exact (hrecorded.ended flow c₂ hstatements).1

/-! ### A constant in a namespace -/

namespace Node

/-- `use B\C;` -/
def importing : Node :=
  .ofKind .useDeclaration default
    [(Node.ofKind .useClause default [(leaf .name default "B\\C").inField "name"]).inField "clause"]

/-- `const X = 1;` -/
def constant : Node :=
  .ofKind .constDeclaration default
    [(Node.ofKind .constElement default [(leaf .name default "X").inField "name",
      (leaf .integerLiteral default "1").inField "value"]).inField "element"]

/-- `namespace A { use B\C; const X = 1; }` -/
def bracing : Node :=
  .ofKind .namespaceDefinition default [(leaf .name default "A").inField "name",
    (Node.ofKind .block default [importing, constant]).inField "body"]

def bracingFile : Node := .ofKind .sourceFile default [bracing]

end Node

/-- The names in force in front of the constant. -/
def NameContext.inBracing : NameContext := (enter (some "A")).addImport .classLike "B\\C" none

theorem placedDeclarations_bracing (names : NameContext) :
    (placedDeclarations Node.bracingFile.height names Node.bracingFile.positional).2 =
      [(.inBracing, Node.constant)] := by
  have hbraced : Node.bracing.kind = .namespaceDefinition := rfl
  have huse : Node.importing.kind = .useDeclaration := rfl
  have hconst : Node.constant.kind = .constDeclaration := rfl
  have hheight : Node.bracingFile.height = 5 + 1 := rfl
  have hpositional : Node.bracingFile.positional = [Node.bracing] := rfl
  rw [hheight, hpositional, placedDeclarations_braced hbraced rfl]
  show (placedDeclarations 5 (.enter (some "A")) [Node.importing, Node.constant]).2 = _
  rw [placedDeclarations_cons, placedDeclarations_use huse,
    placedDeclarations_plain (by simp [hconst]) (by simp [hconst]), hconst]
  rfl

/-- The checker behind the declaration of the constant. -/
def Checker.withConstant (c : Checker) : Checker :=
  let ty := TyUnion.of (.int (some 1))
  { c with session := c.session.modifyRegistry (·.addConstant (c.scope.names.qualify "X") ty) }

section

variable {setting : Setting} {c : Checker} {height : Nat}

/-- A declaration of one constant. -/
theorem Rules.declareConstants_one {r : Rules} {node element value : Node} {name : String}
    (helements : node.childrenBy "element" = [element])
    (hname : element.fieldText? "name" = some name) (hvalue : element.childBy? "value" = some value)
    (check : String → Node → Check Unit) :
    r.declareConstants node check = (do
      let ty ← r.expr value
      check name element
      let qualified := (← scope).names.qualify name
      modifyRegistry (·.addConstant qualified ty)) := by
  unfold Rules.declareConstants
  simp [helements, hname, hvalue]

theorem forEach_one (names : NameContext) (node : Node) (step : Node → Check Unit) :
    Rules.forEach [(names, node)] step = (do
      setNames names
      step node) := by
  simp [Rules.forEach]

theorem quietly_run_ok {α : Type} {m : Check α} {a : α} {c' : Checker}
    (hrun : m setting { c with muted := c.muted + 1 } = .ok a c') :
    quietly m setting c = .ok a { c' with muted := c'.muted - 1 } := by
  rw [quietly_run, hrun]

theorem declareConstants_constant (hc : c.scope.assigning = none) (hheight : 1 < height)
    {check : String → Node → Check Unit}
    (hcheck : ∀ element, check "X" element setting c = .ok () c) :
    (Rules.below height).declareConstants .constant check setting c = .ok () c.withConstant := by
  have hvisit : visit (.leaf .integerLiteral default "1") setting c =
      .ok (.value (.of (.int (some 1)))) c := by
    rw [visit_eq rfl, bind_run_ok (dropValue_run hc)]
    rfl
  have hexpr : (Rules.below height).expr ((Node.leaf .integerLiteral default "1").inField "value")
      setting c = .ok (.of (.int (some 1))) c := by
    rw [Rules.expr, Rules.below_visit hheight, visit_inField, bind_run_ok hvisit]
    rfl
  have hname : Node.constant.children.head!.fieldText? "name" = some "X" := rfl
  rw [Rules.declareConstants_one rfl hname rfl, bind_run_ok hexpr, bind_run_ok (hcheck _)]
  rfl

theorem visit_constant (hc : c.scope.assigning = none) :
    visit .constant setting c = .ok (.statement .normal) c.withConstant := by
  have hcheck : ∀ element, checkConstantName "X" element setting c = .ok () c := by
    intro element
    have hadmits : Convention.constant.admits "X" = true := by decide
    unfold checkConstantName checkName
    rw [hadmits]
    simp
    rfl
  rw [visit_eq rfl, bind_run_ok (dropValue_run hc)]
  have hkind : Node.constant.kind = .constDeclaration := rfl
  unfold Rules.apply Rules.logical? Rules.constDeclaration
  rw [hkind]
  simp only [bind_assoc]
  rw [bind_run_ok (declareConstants_constant hc (by decide) hcheck)]
  rfl

end

/-- The checker of a file in which the constant is known. -/
def Checker.bracing : Checker := (Checker.blank.entering .inBracing).withConstant.entering {}

theorem hoist_bracing :
    (Rules.below Node.bracingFile.height).hoist .bracingFile .alone .blank = .ok () .bracing := by
  let r := Rules.below Node.bracingFile.height
  let c := Checker.blank.entering .inBracing
  have hall : r.hoistAll [(.inBracing, .constant)] = (do
      Rules.forEach [(.inBracing, .constant)] fun node =>
        quietly (r.declareConstants node fun _ _ => pure ())
      let _ ← hoistedStarts) := by
    unfold Rules.hoistAll
    simp [Node.constant, Node.ofKind, NodeKind.isClassLike]
  have hdeclare : r.declareConstants .constant (fun _ _ => pure ()) .alone { c with muted := 1 } =
      .ok () { c with muted := 1 }.withConstant :=
    declareConstants_constant rfl (by decide) fun _ => rfl
  have hquiet : quietly (r.declareConstants .constant fun _ _ => pure ()) .alone c =
      .ok () c.withConstant := quietly_run_ok hdeclare
  have heach : Rules.forEach [(.inBracing, .constant)] (fun node =>
      quietly (r.declareConstants node fun _ _ => pure ())) .alone .blank =
        .ok () c.withConstant := by
    rw [forEach_one]
    exact hquiet
  rw [Rules.hoist_run, placedDeclarations_bracing, hall]
  simp only [bind_assoc]
  rw [bind_run_ok heach]
  rfl

section

variable {setting : Setting} {c : Checker}

theorem visit_importing :
    visit .importing setting (c.entering (.enter (some "A"))) =
      .ok (.statement .normal) (c.entering .inBracing) := visit_use rfl

theorem onwards_bracing :
    onwards .normal [.importing, .constant] setting (c.entering (.enter (some "A"))) =
      .ok .normal (c.entering .inBracing).withConstant := by
  rw [onwards_normal, bind_run_ok visit_importing]
  show onwards .normal [.constant] setting (c.entering .inBracing) = _
  rw [onwards_normal]
  exact bind_run_ok (visit_constant rfl)

theorem visit_bracing :
    visit .bracing setting c =
      .ok (.statement .normal) ((c.entering .inBracing).withConstant.entering {}) := by
  have hkind : Node.bracing.kind = .namespaceDefinition := rfl
  rw [visit_braced hkind rfl]
  exact bind_run_ok onwards_bracing

/-- What is reached in the file. -/
theorem reached_bracing : reached setting .bracingFile c =
    [(c.entering c.scope.names, .bracing), (c.entering (.enter (some "A")), .importing),
      (c.entering .inBracing, .constant)] := by
  have hinside : arrivalsInside setting Node.bracingFile.height .bracing
      (c.entering c.scope.names) = [(c.entering (.enter (some "A")), .importing),
        (c.entering .inBracing, .constant)] := by
    show arrivals (arrivalsInside setting 5) setting .normal [.importing, .constant]
      (c.entering (.enter (some "A"))) = _
    rw [arrivals_normal, visit_importing]
    show _ :: arrivals (arrivalsInside setting 5) setting .normal [.constant] _ = _
    rw [arrivals_normal, visit_constant rfl]
    rfl
  show arrivals _ setting .normal [.bracing] _ = _
  rw [arrivals_normal, hinside, visit_bracing]
  rfl

theorem goOn_bracing : GoOn setting (reached setting .bracingFile c) := by
  rw [reached_bracing]
  intro c' node hmem result c'' hrun
  simp only [List.mem_cons, List.not_mem_nil, or_false, Prod.mk.injEq] at hmem
  obtain ⟨rfl, rfl⟩ | ⟨rfl, rfl⟩ | ⟨rfl, rfl⟩ := hmem
  · rw [visit_bracing] at hrun
    cases hrun
    rfl
  · rw [visit_importing] at hrun
    cases hrun
    rfl
  · rw [visit_constant rfl] at hrun
    cases hrun
    rfl

end

/-- In `namespace A { use B\C; const X = 1; }` the constant is made known and reached where the
namespace and the import are in force. -/
theorem names_where_reached_bracing :
    (Rules.below Node.bracingFile.height).hoist .bracingFile .alone .blank = .ok () .bracing ∧
      declarations (reached .alone .bracingFile .bracing) = [(.inBracing, .constant)] := by
  have htop : ∀ node ∈ Node.bracingFile.positional, node.NamesOnTop := by
    intro node hnode
    obtain rfl := List.mem_singleton.1 hnode
    refine .braced rfl rfl fun statement hstatement => ?_
    obtain rfl | rfl := List.mem_pair.1 hstatement
    · exact .use rfl
    · exact .plain (by decide)
  have hrun : ∃ c, visit .bracingFile .alone .bracing = .ok (.statement .normal) c := by
    rw [visit_root (.inl rfl)]
    show ∃ c, (do return .statement (← onwards .normal [.bracing]) : Check Inferred) .alone _ = _
    rw [onwards_normal]
    simp only [bind_assoc]
    exact ⟨_, bind_run_ok visit_bracing⟩
  obtain ⟨-, hends⟩ := names_where_reached Checker.blank.session false .alone (.inl rfl) htop
    hoist_bracing goOn_bracing
  obtain ⟨c, hrun⟩ := hrun
  refine ⟨hoist_bracing, ?_⟩
  rw [hends _ c hrun]
  exact placedDeclarations_bracing _

end PhpCheck
