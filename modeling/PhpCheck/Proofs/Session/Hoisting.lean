import PhpCheck.Proofs.Check.Hoisting
import PhpCheck.Proofs.Registry.Builtin
import PhpCheck.Proofs.Report.Order
import PhpCheck.Proofs.Session.Request

/-!
What making a class known before it is reached does to a report.

A class at the top of a file is made known before the statements are checked, a class in
a block where it is reached.  The report on a file with one class has more findings in the
second case: those of making the class known are added, of which the first case has only
some (`Session.diagnostics_in_block`).
-/

namespace PhpCheck

open Check

/-- What was found when a step ends. -/
def Check.findings {α : Type} : EStateM.Result Abort Checker α → List Diagnostic
  | .ok _ c => c.diagnostics
  | .error _ c => c.diagnostics

theorem Check.findings_withEarlier {α : Type} (ds : List Diagnostic)
    (last : EStateM.Result Abort Checker α) : findings (withEarlier ds last) = findings last ++
    ds := by
  cases last <;> rfl

theorem Check.after_diagnostics {α : Type} (m : Check α) (setting : Setting) (c : Checker) :
    (m.after setting c).diagnostics = findings (m setting c) := by
  unfold Check.after
  cases m setting c <;> rfl

namespace Session

/-- How a file is set that is analyzed in a session. -/
def setting (path : String) : Setting :=
  { file := path, dir := (Path.parent? path).getD "", loads }

/-- The checker at the start of a file that is asked for. -/
def checker (s : Session) (path : String) : Checker :=
  { session := s.enter path .direct, scope := .file false }

/-- What is found in the tree of a file. -/
def treeFindings (s : Session) (path : String) (root : Node) : List Diagnostic :=
  findings (Check.file root (setting path) (s.checker path))

/-- The checker behind the declaration of a class at the start of a file, if that goes to
its end. -/
def declared? (s : Session) (path : String) (node : Node) : Option Checker :=
  let c := s.checker path
  match (Rules.below node.height).declareClass node (c.scope.declaredName node) (setting path)
    c with
  | .ok _ c => some c
  | .error _ _ => none

/-- What is found in a class that is known, where the checker is as behind its
declaration. -/
def bodyFindings (path : String) (node : Node) (c : Checker) : List Diagnostic :=
  findings (knownClass node ((Scope.file false).declaredName node) (setting path)
    (c.withFindings []))

theorem analyzeTree_diagnostics (s : Session) (path : String) (root : Node) :
    (s.analyzeTree path root).1.diagnostics =
      (tidy (s.treeFindings (Path.normalize path) root)).mergeSort
        fun a b => (a.compare b).isLE := by
  unfold analyzeTree checkTree treeFindings
  dsimp only [ReaderT.run, EStateM.run, setting, checker]
  split
  · rename_i hrun
    rw [hrun]
    rfl
  · rename_i hrun
    rw [hrun]
    rfl

theorem mem_analyzeTree {s : Session} {path : String} {root : Node} {d : Diagnostic} :
    d ∈ (s.analyzeTree path root).1.diagnostics ↔
      d ∈ s.treeFindings (Path.normalize path) root := by
  rw [analyzeTree_diagnostics, List.mem_mergeSort, mem_tidy]

/-- Reports on one file have the same findings in the same order, if they have the same
findings. -/
theorem analyzeTree_congr {s : Session} {path : String} {root root' : Node}
    (hsame : ∀ d, d ∈ (s.analyzeTree path root).1.diagnostics ↔
      d ∈ (s.analyzeTree path root').1.diagnostics) :
    (s.analyzeTree path root).1.diagnostics = (s.analyzeTree path root').1.diagnostics := by
  have hlocated : ∀ d ∈ s.treeFindings (Path.normalize path) root,
      d.location.file = Path.normalize path := by
    intro d hd
    rw [treeFindings, ← after_diagnostics] at hd
    exact (Check.composite_file root).locates _ _ (fun d hd => absurd hd List.not_mem_nil) d hd
  have hfound : ∀ d, d ∈ s.treeFindings (Path.normalize path) root ↔
      d ∈ s.treeFindings (Path.normalize path) root' := by
    intro d
    rw [← mem_analyzeTree, hsame, mem_analyzeTree]
  rw [analyzeTree_diagnostics, analyzeTree_diagnostics, tidy_congr hlocated hfound]

/-! ### The configuration -/

/-- Checking does not change the configuration of a session. -/
theorem config_of_ok {α : Type} {m : Check α} (hm : m.Composite) {path : String} {c c' : Checker}
    {a : α} (hrun : m (setting path) c = .ok a c') :
    c'.session.config = c.session.config := by
  have hpasses : m.Passes SameConfig (setting path) :=
    hm.passage passage_sameConfig (within_loads respects_sameConfig)
  have hpassed := hpasses c
  rw [Check.after, hrun] at hpassed
  exact hpassed

/-! ### Findings and reports -/

variable {node : Node}

/-- What is found in a file with one class. -/
theorem treeFindings_class (hnode : node.DeclaresClass) {s : Session} {path : String} {c : Checker}
    (hdeclared : s.declared? path node = some c) (hquiet : ∀ d ∈ c.diagnostics, ¬d.HasEffect)
    (span blockSpan : Span) :
    ∃ names collisions : List Diagnostic, (∀ d ∈ names, d.kind = .namingConventionViolation) ∧
      (∀ d ∈ collisions, d ∈ c.diagnostics ∧ d.kind = .traitCollision) ∧
      s.treeFindings path (.ofKind .sourceFile span [.ofKind .block blockSpan [node]]) =
        bodyFindings path node c ++ (c.diagnostics ++ names) ∧
      s.treeFindings path (.ofKind .sourceFile span [node]) =
        bodyFindings path node c ++ (names ++ collisions) := by
  have hcomposite := (Rules.composite_below node.height).declareClass node
    ((s.checker path).scope.declaredName node)
  unfold declared? at hdeclared
  dsimp only at hdeclared
  split at hdeclared
  · rename_i c hrun
    cases hdeclared
    obtain ⟨names, collisions, hnames, hcollisions, hnested, htop⟩ :=
      Check.file_class hnode rfl rfl rfl rfl hrun hquiet (config_of_ok hcomposite hrun) span
        blockSpan
    refine ⟨names, collisions, hnames, hcollisions, ?_, ?_⟩
    · rw [treeFindings, hnested, findings_withEarlier]
      rfl
    · rw [treeFindings, htop, findings_withEarlier]
      rfl
  · cases hdeclared

/-- The report on a class in a block has the findings of the report on the class at the
top of a file, and those of making the class known.  So the two are the same just when
the latter are found anyway. -/
theorem diagnostics_in_block (hnode : node.DeclaresClass) (s : Session) (path : String)
    {c : Checker}
    (hdeclared : s.declared? (Path.normalize path) node = some c)
    (hquiet : ∀ d ∈ c.diagnostics, ¬d.HasEffect) (span blockSpan : Span) :
    let top := (s.analyzeTree path (.ofKind .sourceFile span [node])).1
    let nested := (s.analyzeTree path
      (.ofKind .sourceFile span [.ofKind .block blockSpan [node]])).1
    (∀ d, d ∈ nested.diagnostics ↔ d ∈ top.diagnostics ∨ d ∈ c.diagnostics) ∧
    (nested.diagnostics = top.diagnostics ↔ ∀ d ∈ c.diagnostics, d ∈ top.diagnostics) := by
  intro top nested
  have hmem : ∀ d, d ∈ nested.diagnostics ↔ d ∈ top.diagnostics ∨ d ∈ c.diagnostics := by
    obtain ⟨names, collisions, -, hcollisions, hnested, htop⟩ :=
      treeFindings_class hnode hdeclared hquiet span blockSpan
    intro d
    rw [mem_analyzeTree, mem_analyzeTree, hnested, htop]
    simp only [List.mem_append]
    constructor
    · rintro (hbody | hfound | hmisnamed)
      · exact .inl (.inl hbody)
      · exact .inr hfound
      · exact .inl (.inr (.inl hmisnamed))
    · rintro ((hbody | hmisnamed | hcollision) | hfound)
      · exact .inl hbody
      · exact .inr (.inr hmisnamed)
      · exact .inr (.inl (hcollisions d hcollision).1)
      · exact .inr (.inl hfound)
  refine ⟨hmem, fun heq d hd => ?_, fun hfound => ?_⟩
  · exact heq ▸ (hmem d).2 (.inr hd)
  · exact analyzeTree_congr fun d => (hmem d).trans ⟨fun h => h.elim id (hfound d), .inl⟩

/-- Of the findings of the report on a class at the top of a file, all are found in the
body of the class but those about its name and collisions of its traits. -/
theorem mem_bodyFindings (hnode : node.DeclaresClass) {s : Session} {path : String} {c : Checker}
    (hdeclared : s.declared? (Path.normalize path) node = some c)
    (hquiet : ∀ d ∈ c.diagnostics, ¬d.HasEffect) {span : Span} {d : Diagnostic}
    (hfound : d ∈ (s.analyzeTree path (.ofKind .sourceFile span [node])).1.diagnostics)
    (hname : d.kind ≠ .namingConventionViolation) (hcollision : d.kind ≠ .traitCollision) :
    d ∈ bodyFindings (Path.normalize path) node c := by
  obtain ⟨names, collisions, hnames, hcollisions, -, htop⟩ :=
    treeFindings_class hnode hdeclared hquiet span span
  rw [mem_analyzeTree, htop] at hfound
  rcases List.mem_append.1 hfound with hbody | hrest
  · exact hbody
  · rcases List.mem_append.1 hrest with hmisnamed | hcollided
    · exact absurd (hnames d hmisnamed) hname
    · exact absurd (hcollisions d hcollided).2 hcollision

/-! ### A contradiction that is not found -/

/-- A property that is documented as a text and declared as a number. -/
def misdocumented : Node :=
  let element := (Node.ofKind .propertyElement default []).withField "name"
    (.leaf .variableName default "x")
  (((Node.ofKind .propertyDeclaration default []).withField "doc"
    (.leaf .docComment default "/** @var string */")).withField "type"
    (.leaf .typeHint default "int")).withField "element" element

/-- A class with that property. -/
def misdocumentedClass : Node :=
  ((Node.ofKind .classDeclaration default []).withField "name" (.leaf .name default "A")).withField
    "body" (.ofKind .classBody default [misdocumented])

/-- What is found in it. -/
def mismatch (setting : Setting) : Diagnostic :=
  let documented : TyUnion := .of (.string none)
  let declared : TyUnion := .of (.int none)
  setting.finding .documentationMismatch misdocumented
    s!"documented property type {documented.text} does not match declared {declared.text}"

theorem declaredType_misdocumented (context : TypeContext) {c : Checker} (hmuted : c.muted = 0)
    (setting : Setting) :
    Rules.declaredType context misdocumented "type"
        (((misdocumented.doc?.map DocComment.read).getD {}).var? none) "property type" setting c =
      .ok (some (.of (.int none))) (c.note (mismatch setting)) := by
  have hmild : DiagnosticKind.documentationMismatch.isFatal = false := rfl
  have hstring : context.resolve (.named "string" []) = .of (.string none) := by cbv
  have hint : context.resolve (.named "int" []) = .of (.int none) := by cbv
  have hdocumented : ((misdocumented.doc?.map DocComment.read).getD {}).var? none =
      some (.named "string" []) := rfl
  have hread : TypeExpr.read? "int".toList = some (.named "int" []) := rfl
  have hdeclared : (misdocumented.fieldText? "type").bind context.resolveText? =
      some (.of (.int none)) := by
    show (TypeExpr.read? "int".toList).map context.resolve = _
    rw [hread, Option.map_some, hint]
  have hcontradicted : ∀ h : Hierarchy,
      TyUnion.compliesWith h (.of (.string none)) (.of (.int none)) = false := by
    intro h
    cbv
  rw [Rules.declaredType, hdocumented, hdeclared, Option.map_some, hstring]
  unfold Rules.reconcile
  simp only [hcontradicted, Bool.false_eq_true, if_false]
  show (report .documentationMismatch misdocumented _ >>= fun _ => pure _) setting c = _
  rw [bind_run, report_mild hmild, if_pos hmuted]
  rfl

/-- The property as a member of its class. -/
def misdocumentedMember : Member :=
  { name := "x", ty := .of (.int none), declared := some (.of (.int none)), owner := "A" }

theorem classPart_misdocumented (r : Rules) (p : ClassParts) {c : Checker} (hmuted : c.muted = 0)
    (setting : Setting) : r.classPart "A" false p misdocumented setting c =
      .ok (p.addMember .property misdocumentedMember) (c.note (mismatch setting)) := by
  show r.propertyMembers "A" misdocumented p setting c = _
  unfold Rules.propertyMembers
  rw [bind_run]
  show (Rules.declaredType _ misdocumented _ _ _ >>= _) setting _ = _
  rw [bind_run, declaredType_misdocumented _ hmuted]
  rfl

/-- The members of a class that uses no traits are filled in without collisions, and
nothing is found but what is found in the members. -/
theorem populateClass_of_parts {r : Rules} {node : Node} {className : String} {setting : Setting}
    {c c' : Checker} {parts : ClassParts}
    (hparts : Rules.inClass node className (do
      node.members.foldlM (r.classPart className (node.kind == .interfaceDeclaration))
        (← Rules.documentedMembers className node)) setting c = .ok parts c')
    (htraits : parts.traits = []) :
    ∃ c'', r.populateClass node className setting c = .ok [] c'' ∧
      c''.diagnostics = c'.diagnostics := by
  have hknown : Check.registry setting c' = .ok c'.session.registry c' := rfl
  unfold Rules.populateClass
  dsimp only
  cases hclass : c'.session.registry.class? className with
  | none =>
    refine ⟨c', ?_, rfl⟩
    rw [bind_run, hparts]
    dsimp only
    rw [bind_run, hknown]
    dsimp only
    rw [hclass]
    rfl
  | some info =>
    refine ⟨{ c' with session := c'.session.modifyRegistry (·.modifyClass className fun _ =>
      (info.populate c'.session.registry.order parts []).1) }, ?_, rfl⟩
    rw [bind_run, hparts]
    dsimp only
    rw [bind_run, hknown]
    dsimp only
    rw [hclass, htraits]
    rfl

theorem populateClass_misdocumented (r : Rules) {c : Checker} (hmuted : c.muted = 0)
    (setting : Setting) : ∃ c', r.populateClass misdocumentedClass "A" setting c = .ok [] c' ∧
      c'.diagnostics = mismatch setting :: c.diagnostics := by
  have hparts : ∀ {c : Checker}, c.muted = 0 → (do
      misdocumentedClass.members.foldlM (r.classPart "A" false)
        (← Rules.documentedMembers "A" misdocumentedClass)) setting c =
      .ok (ClassParts.addMember {} .property misdocumentedMember) (c.note (mismatch setting)) := by
    intro c hmuted
    show (r.classPart "A" false {} misdocumented >>= fun p => pure p) setting c = _
    rw [bind_pure, classPart_misdocumented r {} hmuted]
  have hmuted' : Checker.muted { c with scope := c.classBody misdocumentedClass "A" } = 0 := hmuted
  have hbody : Rules.inClass misdocumentedClass "A" (do
      misdocumentedClass.members.foldlM (r.classPart "A" false)
        (← Rules.documentedMembers "A" misdocumentedClass)) setting c =
      .ok (ClassParts.addMember {} .property misdocumentedMember) (c.note (mismatch setting)) := by
    rw [Rules.inClass_run, hparts hmuted']
    rfl
  exact populateClass_of_parts hbody rfl

theorem declared?_misdocumented {s : Session} (hnew : s.registry.declaredClass? "A" = none)
    (path : String) : ∃ c, s.declared? path misdocumentedClass = some c ∧
      c.diagnostics = [mismatch (setting path)] := by
  obtain ⟨c', hpopulate, hfound⟩ := populateClass_misdocumented
    (Rules.below misdocumentedClass.height)
    (show ((s.checker path).declaring misdocumentedClass "A" (setting path).file).muted =
      0 from rfl)
    (setting path)
  have hdeclared : (Rules.below misdocumentedClass.height).declareClass misdocumentedClass "A"
      (setting path) (s.checker path) = .ok () c' := by
    rw [Rules.declareClass, bind_run, Rules.declareSkeleton_new hnew]
    show (Rules.populateClass _ misdocumentedClass "A" >>= _) (setting path) _ = _
    rw [bind_run, hpopulate]
    rfl
  refine ⟨c', ?_, hfound⟩
  unfold declared?
  show (match (Rules.below misdocumentedClass.height).declareClass misdocumentedClass "A"
    (setting path) (s.checker path) with
    | .ok _ c => some c
    | .error _ _ => none) = _
  rw [hdeclared]

theorem bodyFindings_misdocumented (path : String) (c : Checker) :
    bodyFindings path misdocumentedClass c = [] := rfl

theorem start_registry (config : Config) (loader : Loader) (order : ClassInfo.Order) :
    (start config loader order).registry = { Builtin.registry with order } := by
  rw [start]

/-- The contradiction is reported where the class stands in a block, and not where it
stands at the top of a file. -/
theorem misdocumented_in_block :
    let s := start {} .none
    let top := (s.analyzeTree "/t.php" (.ofKind .sourceFile default [misdocumentedClass])).1
    let nested := (s.analyzeTree "/t.php"
      (.ofKind .sourceFile default [.ofKind .block default [misdocumentedClass]])).1
    mismatch (setting (Path.normalize "/t.php")) ∈ nested.diagnostics ∧
      nested.diagnostics ≠ top.diagnostics := by
  intro s top nested
  have hnode : misdocumentedClass.DeclaresClass := ⟨rfl, rfl, rfl⟩
  have hletter : (symbolKey "A").length = 1 := by cbv
  have hnew : s.registry.declaredClass? "A" = none := by
    rw [start_registry, Registry.declaredClass?_order, Builtin.declaredClass?_letter hletter]
  clear_value s
  obtain ⟨c, hdeclared, hfound⟩ := declared?_misdocumented hnew (Path.normalize "/t.php")
  have hkind : (mismatch (setting (Path.normalize "/t.php"))).kind = .documentationMismatch := rfl
  have hquiet : ∀ d ∈ c.diagnostics, ¬d.HasEffect := by
    rw [hfound]
    intro d hd
    rw [List.mem_singleton.1 hd, Diagnostic.HasEffect, hkind]
    rintro (heq | ⟨heq, -⟩) <;> cases heq
  obtain ⟨hmem, hsame⟩ := diagnostics_in_block hnode s "/t.php" hdeclared hquiet default default
  have hin : mismatch (setting (Path.normalize "/t.php")) ∈ c.diagnostics := by
    rw [hfound]
    exact List.mem_singleton_self _
  refine ⟨(hmem _).2 (.inr hin), fun heq => ?_⟩
  have hbody := mem_bodyFindings hnode hdeclared hquiet (hsame.1 heq _ hin)
    (by rw [hkind]; decide) (by rw [hkind]; decide)
  rw [bodyFindings_misdocumented] at hbody
  cases hbody

end Session

end PhpCheck
