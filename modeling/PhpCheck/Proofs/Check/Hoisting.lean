import PhpCheck.Proofs.Check.Findings
import PhpCheck.Proofs.Check.Lower

/-!
Classes that are known before they are reached.

A class at the top of a file is made known before the statements of the file are checked,
and what is found in its members is dropped then: it is to be found again when the class
is reached.  A class in a block is made known where it is reached, and what is found is
noted.  `Check.file_class` compares the two for a file with one class.
-/

namespace PhpCheck

open Check

theorem NodeKind.isClassLike_iff {kind : NodeKind} : kind.isClassLike = true ↔
    kind = .classDeclaration ∨ kind = .interfaceDeclaration ∨ kind = .traitDeclaration := by
  simp [isClassLike]

theorem Node.positional_ofKind {node : Node} (hfield : node.field = none) (kind : NodeKind)
    (span : Span) : (ofKind kind span [node]).positional = [node] := by
  simp [positional, ofKind, hfield]

/-- A statement that declares a class, an interface or a trait. -/
structure Node.DeclaresClass (node : Node) : Prop where
  classLike : node.kind.isClassLike = true
  statement : node.field = none
  named : (node.childBy? "name").isSome = true

/-- The qualified name of a declaration in a scope. -/
def Scope.declaredName (s : Scope) (node : Node) : String :=
  s.names.qualify ((node.fieldText? "name").getD "")

variable {setting : Setting} {c : Checker}

/-! ### Findings that change nothing else -/

theorem Check.checkName_run (convention : Convention) (name : String) (node : Node)
    (message : String) (setting : Setting) (config : Config) :
    ∃ found : List Diagnostic, (∀ d ∈ found, d.kind = .namingConventionViolation) ∧
      ∀ c : Checker, c.muted = 0 → c.session.config = config →
        checkName convention name node message setting c =
          .ok () (c.withFindings (found ++ c.diagnostics)) := by
  have hmild : DiagnosticKind.namingConventionViolation.isFatal = false := rfl
  have hrun : ∀ c : Checker, checkName convention name node message setting c =
      (if c.session.config.analyzer.namingConventions && !convention.admits name then
        report .namingConventionViolation node message else pure () : Check Unit) setting c :=
    fun _ => rfl
  by_cases hbad : (config.analyzer.namingConventions && !convention.admits name) = true
  · refine ⟨[setting.finding .namingConventionViolation node message], by simp [Setting.finding],
      fun c hmuted hconfig => ?_⟩
    rw [hrun, hconfig, if_pos hbad, report_mild hmild, if_pos hmuted]
    rfl
  · refine ⟨[], by simp, fun c _ hconfig => ?_⟩
    rw [hrun, hconfig, if_neg hbad]
    rfl

theorem Check.reportAll_run {α : Type} {kind : DiagnosticKind} (hmild : kind.isFatal = false)
    (node : Node) (message : α → String) (xs : List α) {c : Checker} (hmuted : c.muted = 0) :
    xs.forM (fun x => report kind node (message x)) setting c =
      .ok () (c.withFindings
        ((xs.map fun x => setting.finding kind node (message x)).reverse ++ c.diagnostics)) := by
  induction xs generalizing c with
  | nil => rfl
  | cons x rest ih =>
    show (report kind node (message x) >>= fun _ => rest.forM _) setting c = _
    rw [bind_run, report_mild hmild, if_pos hmuted]
    dsimp only
    rw [ih (show (c.note _).muted = 0 from hmuted), List.map_cons, List.reverse_cons,
      List.append_assoc]
    rfl

theorem Rules.reportCollisions_run (node : Node) (className : String)
    (collisions : List TraitCollision) (setting : Setting) :
    ∃ found : List Diagnostic, (∀ d ∈ found, d.kind = .traitCollision) ∧
      ∀ c : Checker, c.muted = 0 →
        reportCollisions node className collisions setting c =
          .ok () (c.withFindings (found ++ c.diagnostics)) :=
  ⟨_, by simp [Setting.finding], fun _ hmuted => reportAll_run rfl node _ collisions hmuted⟩

/-! ### Making a class known -/

/-- The checker behind the declaration of a class that is new. -/
def Checker.declaring (c : Checker) (node : Node) (className file : String) : Checker :=
  { c with
    session := c.session.modifyRegistry (·.addClass (c.scope.names.skeleton node className file))
    ownClasses := symbolKey className :: c.ownClasses
    hoisted := node.span.start :: c.hoisted }

theorem Rules.declareSkeleton_run (node : Node) (className : String) :
    declareSkeleton node className setting c =
      match c.session.registry.declaredClass? className with
      | none => .ok true (c.declaring node className setting.file)
      | some _ => .ok false c := by
  have hrun : declareSkeleton node className setting c =
      (do
        let isNew := (c.session.registry.declaredClass? className).isNone
        if isNew then
          modifyRegistry (·.addClass (c.scope.names.skeleton node className setting.file))
          noteClass className
          noteHoisted node
        return isNew : Check Bool) setting c := rfl
  rw [hrun]
  cases c.session.registry.declaredClass? className <;> rfl

theorem Rules.declareSkeleton_new {className : String}
    (hnew : c.session.registry.declaredClass? className = none) (node : Node) :
    declareSkeleton node className setting c =
      .ok true (c.declaring node className setting.file) := by
  rw [declareSkeleton_run, hnew]

theorem Rules.declareSkeleton_known {className : String}
    (hknown : c.session.registry.declaredClass? className ≠ none) (node : Node) :
    declareSkeleton node className setting c = .ok false c := by
  rw [declareSkeleton_run]
  cases hclass : c.session.registry.declaredClass? className with
  | none => exact absurd hclass hknown
  | some info => rfl

theorem Check.inScope_run {α : Type} (inner : Scope) (m : Check α) :
    inScope inner m setting c = match m setting { c with scope := inner } with
      | .ok a c' => .ok (a, c'.scope) { c' with scope := c.scope }
      | .error e c' => .error e { c' with scope := c.scope } := by
  rw [inScope_eq_around]
  rfl

/-- The scope of the body of a class. -/
def Checker.classBody (c : Checker) (node : Node) (className : String) : Scope :=
  c.scope.classBody {
    name := className
    parent := (c.session.registry.class? className).bind (·.parent)
    isTrait := node.kind == .traitDeclaration }

theorem Rules.inClass_run {α : Type} (node : Node) (className : String) (m : Check α) :
    inClass node className m setting c =
      match m setting { c with scope := c.classBody node className } with
      | .ok a c' => .ok a { c' with scope := c.scope }
      | .error e c' => .error e { c' with scope := c.scope } := by
  show (inScope (c.classBody node className) m >>= fun x => pure x.1) setting c = _
  rw [bind_run, inScope_run]
  cases m setting { c with scope := c.classBody node className } <;> rfl

theorem Rules.populateClass_scope {r : Rules} {node : Node} {className : String} {c c' : Checker}
    {collisions : List TraitCollision}
    (hrun : r.populateClass node className setting c = .ok collisions c') :
    c'.scope = c.scope := by
  obtain ⟨parts, c₁, hparts, hread⟩ := bind_ok hrun
  obtain ⟨known, c₂, hknown, hlast⟩ := bind_ok hread
  cases hknown
  have hscope : c₁.scope = c.scope := by
    rw [inClass_run] at hparts
    split at hparts
    · cases hparts
      rfl
    · cases hparts
  rw [← hscope]
  cases hclass : c₁.session.registry.class? className with
  | none =>
    rw [hclass] at hlast
    cases hlast
    rfl
  | some info =>
    rw [hclass] at hlast
    cases hlast
    rfl

/-! ### Making it known before it is reached -/

theorem placedDeclarations_class {node : Node} (hkind : node.kind.isClassLike = true) (depth : Nat)
    (names : NameContext) : placedDeclarations depth names [node] = (names, [(names, node)]) := by
  rw [placedDeclarations]
  rcases NodeKind.isClassLike_iff.1 hkind with hkind | hkind | hkind
  all_goals simp [hkind, placedDeclarations]

theorem placedDeclarations_block {node : Node} (hkind : node.kind = .block) (depth : Nat)
    (names : NameContext) : placedDeclarations depth names [node] = (names, []) := by
  rw [placedDeclarations]
  simp [hkind, placedDeclarations]

namespace Rules

@[simp]
theorem forEach_nil (step : Node → Check Unit) : forEach [] step = pure () := rfl

theorem forEach_here (node : Node) (step : Node → Check Unit) :
    forEach [(c.scope.names, node)] step setting c = step node setting c := by
  have hone : forEach [(c.scope.names, node)] step =
      (do setNames c.scope.names; step node : Check Unit) := by
    simp [forEach]
  rw [hone]
  rfl

theorem hoistAll_nil (r : Rules) : r.hoistAll [] = hoistedStarts >>= fun _ => pure () := by
  simp [hoistAll]

/-- The only declaration of a file is a class. -/
theorem hoistAll_class {node : Node} (hkind : node.kind.isClassLike = true) (r : Rules)
    (names : NameContext) : r.hoistAll [(names, node)] = (do
      forEach [(names, node)] fun node => do
        let _ ← declareSkeleton node (← declaredName node)
      let hoisted ← hoistedStarts
      forEach (if hoisted.contains node.span.start then [(names, node)] else []) fun node => do
        let className ← declaredName node
        reportCollisions node className (← quietly (r.populateClass node className))) := by
  have hothers : (node.kind == .constDeclaration) = false ∧
      (node.kind == .functionDefinition) = false := by
    rcases NodeKind.isClassLike_iff.1 hkind with hkind | hkind | hkind <;> rw [hkind] <;> decide
  have hsorted : ∀ b : Bool, (bif b then [(names, node)] else []).mergeSort
      (fun a b => memberOrder a.2 ≤ memberOrder b.2) = if b then [(names, node)] else [] := by
    intro b
    cases b <;> simp
  unfold hoistAll
  simp only [List.filter_singleton, hkind, hothers, hsorted, cond_true, cond_false, forEach_nil,
    pure_bind, bind_pure_unit]

theorem hoist_run (r : Rules) (root : Node) : r.hoist root setting c =
    (do
      r.hoistAll (placedDeclarations root.height c.scope.names root.positional).2
      setNames c.scope.names : Check Unit) setting c := rfl

theorem declare_run (node : Node) :
    (do let _ ← declareSkeleton node (← declaredName node) : Check Unit) setting c =
      (do let _ ← declareSkeleton node (c.scope.declaredName node) : Check Unit) setting c := rfl

variable {root node : Node}

theorem hoist_block (hroot : root.positional = [node]) (hkind : node.kind = .block) (r : Rules) :
    r.hoist root setting c = .ok () c := by
  rw [hoist_run, hroot, placedDeclarations_block hkind, hoistAll_nil]
  rfl

theorem hoist_new (hroot : root.positional = [node]) (hkind : node.kind.isClassLike = true)
    (hnew : c.session.registry.declaredClass? (c.scope.declaredName node) = none) (r : Rules) :
    r.hoist root setting c =
      (do
        let collisions ← quietly (r.populateClass node (c.scope.declaredName node))
        reportCollisions node (c.scope.declaredName node) collisions
        setNames c.scope.names : Check Unit) setting
      (c.declaring node (c.scope.declaredName node) setting.file) := by
  rw [hoist_run, hroot, placedDeclarations_class hkind, hoistAll_class hkind]
  simp only [bind_assoc]
  rw [bind_run, forEach_here, declare_run, bind_run, declareSkeleton_new hnew]
  dsimp only
  generalize hc' : c.declaring node (c.scope.declaredName node) setting.file = c'
  have hscope : c.scope = c'.scope := hc' ▸ rfl
  have hstart : c'.hoisted.contains node.span.start = true := by simp [← hc', Checker.declaring]
  rw [hscope]
  show (do
    forEach (if c'.hoisted.contains node.span.start then [(c'.scope.names, node)] else []) _
    setNames c'.scope.names : Check Unit) setting c' = _
  rw [if_pos hstart, bind_run, forEach_here, ← bind_run]
  simp only [bind_assoc]
  rfl

theorem hoist_known (hroot : root.positional = [node]) (hkind : node.kind.isClassLike = true)
    (hknown : c.session.registry.declaredClass? (c.scope.declaredName node) ≠ none)
    (hstart : node.span.start ∉ c.hoisted) (r : Rules) : r.hoist root setting c = .ok () c := by
  rw [hoist_run, hroot, placedDeclarations_class hkind, hoistAll_class hkind]
  simp only [bind_assoc]
  rw [bind_run, forEach_here, declare_run, bind_run, declareSkeleton_known hknown]
  show (do
    forEach (if c.hoisted.contains node.span.start then [(c.scope.names, node)] else []) _
    setNames c.scope.names : Check Unit) setting c = _
  rw [if_neg (by simpa using hstart)]
  rfl

/-- A class that is new is made known before it is reached.  The checker is as behind its
declaration, but for what was found in its members. -/
theorem hoist_declared (hroot : root.positional = [node]) (hkind : node.kind.isClassLike = true)
    (hnew : c.session.registry.declaredClass? (c.scope.declaredName node) = none)
    (hmuted : c.muted = 0) (hclean : c.diagnostics = []) {c₁ : Checker}
    (hdeclared : (below node.height).declareClass node (c.scope.declaredName node) setting c =
      .ok () c₁) (hquiet : ∀ d ∈ c₁.diagnostics, ¬d.HasEffect) :
    c₁.scope = c.scope ∧ c₁.muted = 0 ∧ node.span.start ∈ c₁.hoisted ∧
    ∃ found ⊆ c₁.diagnostics, (∀ d ∈ found, d.kind = .traitCollision) ∧
      (below root.height).hoist root setting c = .ok () (c₁.withFindings found) := by
  have hlower : node.height ≤ root.height :=
    Nat.le_of_lt (Node.height_positional_lt (hroot ▸ List.mem_singleton_self node))
  have hpopulate := (agreeBelow_below hlower).populateClass (c.scope.declaredName node)
  have hcomposite := (composite_below node.height).populateClass node (c.scope.declaredName node)
  rw [declareClass, bind_run, declareSkeleton_new hnew] at hdeclared
  dsimp only at hdeclared
  rw [if_pos rfl] at hdeclared
  obtain ⟨collisions, c₂, hfilled, hreported⟩ := bind_ok hdeclared
  have hkept := hcomposite.keeps setting _ _ _ hfilled
  have hscope : c₂.scope = c.scope := (populateClass_scope hfilled).trans rfl
  have hloud : c₂.muted = 0 := hkept.muted.trans hmuted
  obtain ⟨found, hcollisions, hfound⟩ :=
    reportCollisions_run node (c.scope.declaredName node) collisions setting
  rw [hfound c₂ hloud] at hreported
  cases hreported
  refine ⟨hscope, hloud, hkept.hoisted.subset List.mem_cons_self, found,
    List.subset_append_left _ _, hcollisions, ?_⟩
  have hsilent := quietly_unnoticed hcomposite hfilled hmuted fun d hd =>
    hquiet d (List.mem_append_right found hd)
  rw [show (c.declaring node _ _).diagnostics = [] from hclean] at hsilent
  rw [hoist_new hroot hkind hnew, hpopulate, bind_run, hsilent]
  dsimp only
  rw [bind_run, hfound (c₂.withFindings []) hloud, ← hscope]
  show EStateM.Result.ok () (c₂.withFindings (found ++ [])) = _
  rw [List.append_nil]
  rfl

/-! ### Reaching it -/

theorem apply_block (hkind : node.kind = .sourceFile ∨ node.kind = .block) (r : Rules)
    (assigning : Option TyUnion) :
    r.apply node assigning = do return .statement (← r.block node) := by
  unfold apply logical?
  rcases hkind with hkind | hkind
  · rw [hkind]
  · rw [hkind]

theorem apply_classLike (hkind : node.kind.isClassLike = true) (r : Rules)
    (assigning : Option TyUnion) :
    r.apply node assigning = do return .statement (← r.classDeclaration node) := by
  unfold apply logical?
  rcases NodeKind.isClassLike_iff.1 hkind with hkind | hkind | hkind
  · rw [hkind]
  · rw [hkind]
  · rw [hkind]

/-- Where nothing is being assigned, a node is checked by the rule for it. -/
theorem visitNode_run (hfree : c.scope.assigning = none) (r : Rules) (node : Node) :
    r.visitNode node setting c = r.apply node none setting c := by
  show r.apply node (if node.kind.isAssignable then c.scope.assigning else none) setting
    { c with scope := { c.scope with assigning := none } } = _
  rw [← hfree, ite_self]

end Rules

namespace Check

/-- Checks the statements of a file. -/
def statements (root : Node) : Check TyUnion := do
  let _ ← visit root
  fileValue

/-- What is left of a file with one class when the class is known. -/
def knownClass (node : Node) (className : String) : Check TyUnion := do
  (Rules.below node.height).checkClass node className
  fileValue

/-- What is left of a file with one class, where the class may not be known. -/
def reachedClass (node : Node) (className : String) : Check TyUnion := do
  unless ← isHoisted node do (Rules.below node.height).declareClass node className
  knownClass node className

variable {node : Node}

theorem statements_only {part : Node} (hkind : node.kind = .sourceFile ∨ node.kind = .block)
    (hpart : node.positional = [part]) (hfree : c.scope.assigning = none) :
    statements node setting c = statements part setting c := by
  have hlower : part.height < node.height :=
    Node.height_positional_lt (hpart ▸ List.mem_singleton_self part)
  have hvisit : visit node setting c =
      (do return .statement (← visit part).flow : Check Inferred) setting c := by
    rw [visit, Rules.visitNode_run hfree, Rules.apply_block hkind, Rules.block, Rules.statements,
      hpart]
    simp [Flow.isNormal, Rules.below_visit hlower]
  rw [statements, statements, bind_run, hvisit, bind_run, bind_run]
  cases visit part setting c <;> rfl

theorem statements_class {nameNode : Node} (hkind : node.kind.isClassLike = true)
    (hname : node.childBy? "name" = some nameNode) (setting : Setting) (config : Config) :
    ∃ found : List Diagnostic, (∀ d ∈ found, d.kind = .namingConventionViolation) ∧
      ∀ c : Checker, c.scope.assigning = none → c.muted = 0 → c.session.config = config →
        statements node setting c = reachedClass node (c.scope.declaredName node) setting
          (c.withFindings (found ++ c.diagnostics)) := by
  obtain ⟨found, hnames, hfound⟩ := checkName_run .classLike nameNode.textD nameNode
    s!"class name {nameNode.textD} should be PascalCase" setting config
  refine ⟨found, hnames, fun c hfree hmuted hconfig => ?_⟩
  have hqualified : c.scope.names.qualify nameNode.textD = c.scope.declaredName node := by
    rw [Scope.declaredName, Node.fieldText?, hname]
    rfl
  have hscope : scope setting (c.withFindings (found ++ c.diagnostics)) =
      .ok c.scope (c.withFindings (found ++ c.diagnostics)) := rfl
  rw [statements, bind_run, visit, Rules.visitNode_run hfree, Rules.apply_classLike hkind,
    Rules.classDeclaration, hname, ← bind_run]
  simp only [bind_assoc, pure_bind]
  rw [bind_run, hfound c hmuted hconfig]
  dsimp only
  rw [bind_run, hscope]
  dsimp only
  rw [hqualified]
  refine congrFun (congrFun (bind_congr fun hoisted => ?_) setting) _
  cases hoisted <;> simp [knownClass]

theorem knownClass_run (node : Node) (className : String) (c : Checker) (ds : List Diagnostic) :
    knownClass node className setting (c.withFindings ds) =
      withEarlier ds (knownClass node className setting (c.withFindings [])) := by
  have hcomposite : (knownClass node className).Composite :=
    .bind ((Rules.composite_below node.height).checkClass node className) fun _ => .fileValue
  exact hcomposite.extends setting (c.withFindings []) ds

theorem reachedClass_unknown {className : String} {c c₁ : Checker}
    (hstart : node.span.start ∉ c.hoisted) (hclean : c.diagnostics = [])
    (hdeclared : (Rules.below node.height).declareClass node className setting c = .ok () c₁)
    (found : List Diagnostic) :
    reachedClass node className setting (c.withFindings (found ++ c.diagnostics)) =
      withEarlier (c₁.diagnostics ++ found)
        (knownClass node className setting (c₁.withFindings [])) := by
  have hearlier : c.withFindings (found ++ c.diagnostics) = c.withEarlier found := by
    rw [Checker.withFindings, Checker.withEarlier, hclean, List.append_nil, List.nil_append]
  have hunknown : isHoisted node setting (c.withEarlier found) =
      .ok false (c.withEarlier found) := by
    show EStateM.Result.ok (c.hoisted.contains node.span.start) _ = _
    rw [List.contains_eq_mem, decide_eq_false hstart]
  have hextends := ((Rules.composite_below node.height).declareClass node className).extends
    setting c found
  rw [hdeclared] at hextends
  rw [hearlier, reachedClass, bind_run, hunknown]
  dsimp only
  rw [if_neg Bool.false_ne_true, bind_run, hextends, ← knownClass_run]
  rfl

theorem reachedClass_known {className : String} (hstart : node.span.start ∈ c.hoisted)
    (ds : List Diagnostic) :
    reachedClass node className setting (c.withFindings ds) =
      withEarlier ds (knownClass node className setting (c.withFindings [])) := by
  have hknown : isHoisted node setting (c.withFindings ds) = .ok true (c.withFindings ds) := by
    show EStateM.Result.ok (c.hoisted.contains node.span.start) _ = _
    rw [List.contains_eq_mem, decide_eq_true hstart]
  rw [reachedClass, bind_run, hknown, ← knownClass_run]
  rfl

theorem file_run {root part : Node} (hkind : root.kind = .sourceFile)
    (hpart : root.positional = [part]) {c' : Checker} (hfree : c'.scope.assigning = none)
    (hhoist : (Rules.below root.height).hoist root setting c = .ok () c') :
    file root setting c = statements part setting c' := by
  rw [file, bind_run, hhoist]
  exact statements_only (.inl hkind) hpart hfree

/-- A file with one class.  If the class stands in a block, it is made known where it is
reached; otherwise it is known by then.  What is found about its name is the same, and so
is what is found from there on, but of what is found while it is made known only the
collisions of its traits are noted in the second case. -/
theorem file_class (hnode : node.DeclaresClass) {c c₁ : Checker}
    (hfree : c.scope.assigning = none) (hmuted : c.muted = 0) (hclean : c.diagnostics = [])
    (hhoisted : c.hoisted = [])
    (hdeclared : (Rules.below node.height).declareClass node (c.scope.declaredName node) setting c =
      .ok () c₁) (hquiet : ∀ d ∈ c₁.diagnostics, ¬d.HasEffect)
    (hconfig : c₁.session.config = c.session.config) (span blockSpan : Span) :
    let last := knownClass node (c.scope.declaredName node) setting (c₁.withFindings [])
    ∃ names collisions : List Diagnostic, (∀ d ∈ names, d.kind = .namingConventionViolation) ∧
      (∀ d ∈ collisions, d ∈ c₁.diagnostics ∧ d.kind = .traitCollision) ∧
      file (.ofKind .sourceFile span [.ofKind .block blockSpan [node]]) setting c =
        withEarlier (c₁.diagnostics ++ names) last ∧
      file (.ofKind .sourceFile span [node]) setting c =
        withEarlier (names ++ collisions) last := by
  intro last
  obtain ⟨hkind, hfield, hnamed⟩ := hnode
  obtain ⟨nameNode, hname⟩ := Option.isSome_iff_exists.1 hnamed
  obtain ⟨names, hnames, hstatements⟩ := statements_class hkind hname setting c.session.config
  have hstart : node.span.start ∉ c.hoisted := by simp [hhoisted]
  have hreached := reachedClass_unknown hstart hclean hdeclared names
  rw [← hstatements c hfree hmuted rfl] at hreached
  have hblock := Node.positional_ofKind (show (Node.ofKind .block blockSpan [node]).field = none
    from rfl) .sourceFile span
  have hnested := (file_run rfl hblock hfree (Rules.hoist_block hblock rfl _)).trans
    ((statements_only (.inr rfl) (Node.positional_ofKind hfield _ _) hfree).trans hreached)
  have hroot := Node.positional_ofKind hfield .sourceFile span
  by_cases hnew : c.session.registry.declaredClass? (c.scope.declaredName node) = none
  · obtain ⟨hscope, hmuted₁, hstart₁, found, hfound, hcollisions, hhoist⟩ :=
      Rules.hoist_declared hroot hkind hnew hmuted hclean hdeclared hquiet
    have hfree₁ : (c₁.withFindings found).scope.assigning = none := hscope ▸ hfree
    refine ⟨names, found, hnames, fun d hd => ⟨hfound hd, hcollisions d hd⟩, hnested, ?_⟩
    rw [file_run rfl hroot hfree₁ hhoist,
      hstatements (c₁.withFindings found) hfree₁ hmuted₁ hconfig,
      show (c₁.withFindings found).scope = c.scope from hscope]
    exact reachedClass_known hstart₁ (names ++ found)
  · -- Another declaration of the name came first, and the members are not looked at.
    rw [Rules.declareClass, bind_run, Rules.declareSkeleton_known hnew] at hdeclared
    cases hdeclared
    refine ⟨names, [], hnames, fun d hd => absurd hd List.not_mem_nil, hnested, ?_⟩
    rw [file_run rfl hroot hfree (Rules.hoist_known hroot hkind hnew hstart _), hreached, hclean,
      List.append_nil, List.nil_append]

end Check

end PhpCheck
