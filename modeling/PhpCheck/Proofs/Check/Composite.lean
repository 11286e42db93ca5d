import PhpCheck.Check.Visit
import PhpCheck.Proofs.Scope.Frame

/-!
What a step of the checker can do.

Steps are functions of the state, and as such could do anything.  Those that the
checker takes are put together from few: steps that leave the session and the findings
alone, looking at the registry and writing to it, loading files, and reporting.  A
scope is entered and left around a step, and findings are dropped for the time of a
step.  `Check.Composite` says so of a step, and that the analysis of a file is such a
step is shown rule by rule.  What holds of the few steps, and of two steps in turn when
it holds of both, then holds of every analysis, by induction on how a step is put
together.
-/

namespace PhpCheck

open Check

/-- A change of the checker that neither reads nor writes the session, the findings,
whether they are noted, the functions of the file, and the classes that are missing. -/
def Checker.Apart {α : Type} (f : Checker → α × Checker) : Prop :=
  ∀ c session diagnostics muted ownFunctions missingClasses,
    f { c with session, diagnostics, muted, ownFunctions, missingClasses } =
      ((f c).1, { (f c).2 with session, diagnostics, muted, ownFunctions, missingClasses })

/-- The second checker is left of the first by a step. -/
structure Checker.Kept (c c' : Checker) : Prop where
  muted : c'.muted = c.muted
  scope : c.scope.Kept c'.scope
  hoisted : c.hoisted <:+ c'.hoisted
  ownFunctions : c.ownFunctions <:+ c'.ownFunctions
  diagnostics : c.diagnostics <:+ c'.diagnostics
  /-- Where a class is noted as missing, that is reported. -/
  missing : c'.missingClasses = c.missingClasses ∨
    c.muted = 0 ∧ ∃ d ∈ c'.diagnostics, d.kind = .classLoadFailure

theorem Checker.Kept.refl (c : Checker) : c.Kept c :=
  ⟨rfl, .refl _, List.suffix_refl _, List.suffix_refl _, List.suffix_refl _, .inl rfl⟩

theorem Checker.Kept.trans {c c' c'' : Checker} (hfirst : c.Kept c') (hthen : c'.Kept c'') :
    c.Kept c'' where
  muted := hthen.muted.trans hfirst.muted
  scope := hfirst.scope.trans hthen.scope
  hoisted := hfirst.hoisted.trans hthen.hoisted
  ownFunctions := hfirst.ownFunctions.trans hthen.ownFunctions
  diagnostics := hfirst.diagnostics.trans hthen.diagnostics
  missing := by
    rcases hthen.missing with hthen' | ⟨hmuted, hfound⟩
    · rcases hfirst.missing with hfirst' | ⟨hmuted, d, hd, hkind⟩
      · exact .inl (hthen'.trans hfirst')
      · exact .inr ⟨hmuted, d, hthen.diagnostics.subset hd, hkind⟩
    · exact .inr ⟨hfirst.muted ▸ hmuted, hfound⟩

namespace Check

/-- Takes a step between a change and another that undoes it.  If the step ends the
analysis, so much of the change is undone as `undo` says. -/
def around {α β γ : Type} (enter : Checker → β × Checker) (leave : β → α → Checker → γ × Checker)
    (undo : β → Checker → Checker) (m : Check α) : Check γ := fun setting c =>
  match m setting (enter c).2 with
  | .ok a c' => .ok (leave (enter c).1 a c').1 (leave (enter c).1 a c').2
  | .error e c' => .error e (undo (enter c).1 c')

/-- Reports a bad name, if names are checked. -/
def reportMisnamed (bad : Bool) (node : Node) (message : String) : Check Unit := do
  if (← analyzerConfig).namingConventions && bad then
    report .namingConventionViolation node message

/-- Makes a function known, and notes that it is one of the file if it is new. -/
def registerFunction (name : String) (f : Signature) : Check Unit := do
  let isNew := ((← registry).function? name).isNone
  modifyRegistry (·.addFunction name f)
  if isNew then noteFunction name

/-- Gives a function of the file another signature. -/
def reviseFunction (given : Bool) (name : String) (f : Signature) : Check Unit := do
  if given && (← isOwnFunction name) then modifyRegistry (·.updateFunction name f)

end Check

section

variable {α : Type} (next : Check α)

theorem Check.reportMisnamed_bind (node : Node) (message : String) : (do
      if (← analyzerConfig).namingConventions then
        report .namingConventionViolation node message
      next) = (do reportMisnamed true node message; next) := by
  unfold reportMisnamed
  rw [bind_assoc]
  congr
  funext config
  cases config.namingConventions <;> rfl

theorem Check.registerFunction_bind (name : String) (f : Signature) : (do
      let isNew := ((← registry).function? name).isNone
      modifyRegistry (·.addFunction name f)
      if isNew then noteFunction name
      next) = (do registerFunction name f; next) := by
  unfold registerFunction
  rw [bind_assoc]
  congr
  funext known
  cases known.function? name <;> rfl

theorem Check.reviseFunction_bind (given : Bool) (name : String) (f : Signature) : (do
      if given && (← isOwnFunction name) then modifyRegistry (·.updateFunction name f)
      next) = (do reviseFunction given name f; next) := by
  unfold reviseFunction
  rw [bind_assoc]
  congr
  funext own
  cases given && own <;> rfl

end

/-- Steps that are put together from the primitive ones. -/
inductive Check.Composite : {α : Type} → Check α → Prop
  | pure {α : Type} (a : α) : Composite (Pure.pure a : Check α)
  | bind {α β : Type} {m : Check α} {f : α → Check β} (hm : Composite m)
      (hf : ∀ a, Composite (f a)) : Composite (m >>= f)
  | apart {α : Type} {f : Checker → α × Checker} (hf : Checker.Apart f)
      (hkept : ∀ c : Checker, c.Kept (f c).2) : Composite (modifyGet f : Check α)
  | around {α β γ : Type} (enter : Checker → β × Checker)
      (leave : β → α → Checker → γ × Checker) (undo : β → Checker → Checker) {m : Check α}
      (henter : Checker.Apart enter) (hleave : ∀ b a, Checker.Apart (leave b a))
      (hundo : ∀ b, Checker.Apart fun c => ((), undo b c))
      (hkept : ∀ (c c' : Checker) (a : α), (enter c).2.Kept c' → c.Kept (leave (enter c).1 a c').2)
      (hm : Composite m) : Composite (around enter leave undo m)
  | quietly {α : Type} {m : Check α} (hm : Composite m) : Composite (quietly m)
  | report (kind : DiagnosticKind) (node : Node) (message : String)
      (hkind : kind ≠ .namingConventionViolation) : Composite (report kind node message)
  | reportMisnamed (bad : Bool) (node : Node) (message : String) :
      Composite (reportMisnamed bad node message)
  | reportMissing (name : String) (node : Node) : Composite (reportMissing name node)
  | reportUndefined (name : String) (node : Node) : Composite (reportUndefined name node)
  | currentFile : Composite currentFile
  | currentDir : Composite currentDir
  | registry : Composite registry
  | modifyRegistry (f : Registry → Registry) (hf : ∀ r, (f r).functions = r.functions) :
      Composite (modifyRegistry f)
  | registerFunction (name : String) (f : Signature) : Composite (registerFunction name f)
  | reviseFunction (given : Bool) (name : String) (f : Signature) :
      Composite (reviseFunction given name f)
  | configured {α : Type} {f : AnalyzerConfig → Check α}
      (hsame : ∀ config named, f { config with namingConventions := named } = f config)
      (hf : ∀ config, Composite (f config)) : Composite (analyzerConfig >>= f)
  | autoload (name : String) : Composite (autoload name)
  | resolveInclude? (target : String) : Composite (resolveInclude? target)
  | includeFile (path : String) (once : Bool) : Composite (includeFile path once)

attribute [grind ←] Check.Composite.pure Check.Composite.bind Check.Composite.quietly
  Check.Composite.report Check.Composite.reportMisnamed Check.Composite.reportMissing
  Check.Composite.reportUndefined Check.Composite.currentFile Check.Composite.currentDir
  Check.Composite.registry Check.Composite.modifyRegistry Check.Composite.registerFunction
  Check.Composite.reviseFunction Check.Composite.autoload Check.Composite.resolveInclude?
  Check.Composite.includeFile

/-! ### Running steps -/

theorem Check.bind_run {α β : Type} (m : Check α) (f : α → Check β) (setting : Setting)
    (c : Checker) : (m >>= f) setting c = match m setting c with
      | .ok a c => f a setting c
      | .error e c => .error e c := by
  show EStateM.bind (m setting) (fun a => f a setting) c = _
  rw [EStateM.bind]
  cases m setting c <;> rfl

theorem Check.bind_run_ok {α β : Type} {m : Check α} {f : α → Check β} {setting : Setting}
    {c c' : Checker} {a : α} (hm : m setting c = .ok a c') :
    (m >>= f) setting c = f a setting c' := by
  rw [bind_run, hm]

theorem Check.bind_run_error {α β : Type} {m : Check α} {f : α → Check β} {setting : Setting}
    {c c' : Checker} {e : Abort} (hm : m setting c = .error e c') :
    (m >>= f) setting c = .error e c' := by
  rw [bind_run, hm]

theorem Check.bind_ok {α β : Type} {m : Check α} {f : α → Check β} {setting : Setting}
    {c c'' : Checker} {b : β} (hrun : (m >>= f) setting c = .ok b c'') :
    ∃ a c', m setting c = .ok a c' ∧ f a setting c' = .ok b c'' := by
  rw [bind_run] at hrun
  cases hm : m setting c with
  | ok a c' =>
    rw [hm] at hrun
    exact ⟨a, c', rfl, hrun⟩
  | error e c' =>
    rw [hm] at hrun
    cases hrun

theorem Check.modifyGet_run {α : Type} (f : Checker → α × Checker) (setting : Setting)
    (c : Checker) : (modifyGet f : Check α) setting c = .ok (f c).1 (f c).2 := rfl

/-! ### Steps with something around them -/

section

variable {α : Type}

theorem Check.inScope_eq_around (inner : Scope) (m : Check α) : inScope inner m =
    around (fun c => (c.scope, { c with scope := inner }))
      (fun outer a c => ((a, c.scope), { c with scope := outer }))
      (fun outer c => { c with scope := outer }) m := by
  funext setting c
  show ((tryCatch m fun e => setScope c.scope >>= fun _ => throw e) >>= fun a => scope >>= fun s =>
    setScope c.scope >>= fun _ => Pure.pure (a, s)) setting { c with scope := inner } = _
  rw [bind_run]
  have hcatch : (tryCatch m fun e => setScope c.scope >>= fun _ => throw e : Check α) setting
      { c with scope := inner } = match m setting { c with scope := inner } with
        | .ok a c' => .ok a c'
        | .error e c' => .error e { c' with scope := c.scope } := by
    show EStateM.tryCatch (m setting) _ _ = _
    unfold EStateM.tryCatch
    cases m setting { c with scope := inner } <;> rfl
  rw [hcatch, around]
  cases m setting { c with scope := inner } <;> rfl

theorem Check.whileAssigning_eq_around (value : TyUnion) (m : Check α) : whileAssigning value m =
    around (fun c => ((), { c with scope := { c.scope with assigning := some value } }))
      (fun _ a c => (a, { c with scope := { c.scope with assigning := none } }))
      (fun _ c => c) m := by
  funext setting c
  show (m >>= fun a => modifyScope (fun s => { s with assigning := none }) >>= fun _ => Pure.pure a)
    setting
    { c with scope := { c.scope with assigning := some value } } = _
  rw [bind_run, around]
  cases m setting { c with scope := { c.scope with assigning := some value } } <;> rfl

theorem Check.whileProbing_eq_around (m : Check α) : whileProbing m =
    around (fun c => (c.scope.probing, { c with scope := { c.scope with probing := true } }))
      (fun before a c => (a, { c with scope := { c.scope with probing := before } }))
      (fun _ c => c) m := by
  funext setting c
  show (m >>= fun a => modifyScope (fun s => { s with probing := c.scope.probing }) >>= fun _ =>
    Pure.pure a) setting
    { c with scope := { c.scope with probing := true } } = _
  rw [bind_run, around]
  cases m setting { c with scope := { c.scope with probing := true } } <;> rfl

theorem Check.inLoop_eq_around (m : Check α) : inLoop m =
    around (fun c => ((), { c with scope := c.scope.enterLoop }))
      (fun _ a c => ((a, c.scope.exitLoop.1), { c with scope := c.scope.exitLoop.2 }))
      (fun _ c => c) m := by
  funext setting c
  show (m >>= fun a => scope >>= fun s => setScope s.exitLoop.2 >>= fun _ =>
    Pure.pure (a, s.exitLoop.1)) setting
    { c with scope := c.scope.enterLoop } = _
  rw [bind_run, around]
  cases m setting { c with scope := c.scope.enterLoop } <;> rfl

end

namespace Check.Composite

theorem ite {α : Type} {p : Prop} [Decidable p] {m n : Check α} (hm : m.Composite)
    (hn : n.Composite) : (if p then m else n).Composite := by
  split
  · exact hm
  · exact hn

/-! ### The state of the checker -/

theorem reads {α : Type} {f : Checker → α}
    (hf : ∀ c session diagnostics muted ownFunctions missingClasses,
      f { c with session, diagnostics, muted, ownFunctions, missingClasses } = f c) :
    (do return f (← get) : Check α).Composite := by
  refine apart (f := fun c => (f c, c)) (fun c s ds n own missing => ?_) fun c => .refl _
  dsimp only
  rw [hf]

theorem writes {f : Checker → Checker}
    (hf : ∀ c session diagnostics muted ownFunctions missingClasses,
      f { c with session, diagnostics, muted, ownFunctions, missingClasses } =
        { f c with session, diagnostics, muted, ownFunctions, missingClasses })
    (hkept : ∀ c : Checker, c.Kept (f c)) : (modify f : Check Unit).Composite := by
  refine apart (f := fun c => ((), f c)) (fun c s ds n own missing => ?_) hkept
  dsimp only
  rw [hf]

@[grind ←]
theorem scope : Check.scope.Composite := reads fun _ _ _ _ _ _ => rfl

theorem modifyScope {f : Scope → Scope} (hf : ∀ s : Scope, s.Kept (f s)) :
    (modifyScope f).Composite :=
  writes (fun _ _ _ _ _ _ => rfl) fun c => { Checker.Kept.refl c with scope := hf c.scope }

@[grind ←]
theorem snapshot (e : Env) : (snapshot e).Composite :=
  apart (fun _ _ _ _ _ _ => rfl) fun c => { Checker.Kept.refl c with }

@[grind ←]
theorem hoistedStarts : Check.hoistedStarts.Composite := reads fun _ _ _ _ _ _ => rfl

@[grind ←]
theorem noteHoisted (node : Node) : (noteHoisted node).Composite :=
  writes (fun _ _ _ _ _ _ => rfl) fun c =>
    { Checker.Kept.refl c with hoisted := List.suffix_cons _ _ }

@[grind ←]
theorem isOwnClass (name : String) : (isOwnClass name).Composite := reads fun _ _ _ _ _ _ => rfl

@[grind ←]
theorem noteClass (name : String) : (noteClass name).Composite :=
  writes (fun _ _ _ _ _ _ => rfl) fun c => { Checker.Kept.refl c with }

@[grind ←]
theorem returnFromFile (ty : TyUnion) : (returnFromFile ty).Composite :=
  writes (fun _ _ _ _ _ _ => rfl) fun c => { Checker.Kept.refl c with }

theorem fileValue : Check.fileValue.Composite := reads fun _ _ _ _ _ _ => rfl

@[grind ←]
theorem setEnv (e : Env) : (setEnv e).Composite := modifyScope fun s => s.kept_env e

@[grind ←]
theorem bindVariable (name : String) (ty : TyUnion) : (bindVariable name ty).Composite :=
  modifyScope fun s => s.kept_env (s.env.set name ty)

@[grind ←]
theorem setNames (names : NameContext) : (setNames names).Composite :=
  modifyScope fun s => s.kept_names names

@[grind ←]
theorem env : Check.env.Composite := by
  grind [Check.env]

@[grind ←]
theorem lookup? (name : String) : (lookup? name).Composite := by
  grind [Check.lookup?]

@[grind ←]
theorem tolerant : Check.tolerant.Composite := by
  grind [Check.tolerant]

@[grind ←]
theorem hierarchy : Check.hierarchy.Composite := by
  grind [Check.hierarchy]

@[grind ←]
theorem isHoisted (node : Node) : (isHoisted node).Composite := by
  grind [Check.isHoisted]

@[grind ←]
theorem typeContext (templates : List String) : (typeContext templates).Composite := by
  grind [Check.typeContext]

/-! ### Steps with something around them -/

section

variable {α : Type} {m : Check α}

@[grind ←]
theorem inScope (inner : Scope) (hm : m.Composite) : (inScope inner m).Composite := by
  rw [inScope_eq_around]
  exact around _ _ _ (fun _ _ _ _ _ _ => rfl) (fun _ _ _ _ _ _ _ _ => rfl)
    (fun _ _ _ _ _ _ _ => rfl)
    (fun c _ _ hkept => { hkept with scope := .refl c.scope }) hm

@[grind ←]
theorem whileAssigning (value : TyUnion) (hm : m.Composite) :
    (whileAssigning value m).Composite := by
  rw [whileAssigning_eq_around]
  exact around _ _ _ (fun _ _ _ _ _ _ => rfl) (fun _ _ _ _ _ _ _ _ => rfl)
    (fun _ _ _ _ _ _ _ => rfl)
    (fun _ _ _ hkept => { hkept with scope := hkept.scope.unassign }) hm

@[grind ←]
theorem whileProbing (hm : m.Composite) : (whileProbing m).Composite := by
  rw [whileProbing_eq_around]
  exact around _ _ _ (fun _ _ _ _ _ _ => rfl) (fun _ _ _ _ _ _ _ _ => rfl)
    (fun _ _ _ _ _ _ _ => rfl)
    (fun _ _ _ hkept => { hkept with scope := hkept.scope.unprobe }) hm

@[grind ←]
theorem inLoop (hm : m.Composite) : (inLoop m).Composite := by
  rw [inLoop_eq_around]
  exact around _ _ _ (fun _ _ _ _ _ _ => rfl) (fun _ _ _ _ _ _ _ _ => rfl)
    (fun _ _ _ _ _ _ _ => rfl)
    (fun _ _ _ hkept => { hkept with scope := hkept.scope.exitLoop }) hm

end

/-! ### Steps for all elements of a list -/

@[grind ←]
theorem forM {α : Type} {f : α → Check PUnit} (hf : ∀ a, (f a).Composite) (xs : List α) :
    Composite (xs.forM f) := by
  induction xs with
  | nil => exact .pure _
  | cons x xs ih => exact .bind (hf x) fun _ => ih

@[grind ←]
theorem foldlM {α β : Type} {f : β → α → Check β} (hf : ∀ b a, (f b a).Composite) (b : β)
    (xs : List α) : Composite (xs.foldlM f b) := by
  induction xs generalizing b with
  | nil => exact .pure _
  | cons x xs ih => exact .bind (hf b x) fun _ => ih _

@[grind ←]
theorem mapM {α β : Type} {f : α → Check β} (hf : ∀ a, (f a).Composite) (xs : List α) :
    Composite (xs.mapM f) := by
  induction xs with
  | nil => exact .pure _
  | cons x xs ih =>
    rw [List.mapM_cons]
    exact .bind (hf x) fun _ => .bind ih fun _ => .pure _

@[grind ←]
theorem filterMapM {α β : Type} {f : α → Check (Option β)} (hf : ∀ a, (f a).Composite)
    (xs : List α) : Composite (xs.filterMapM f) := by
  induction xs with
  | nil => exact .pure _
  | cons x xs ih =>
    rw [List.filterMapM_cons]
    refine .bind (hf x) fun b => ?_
    cases b with
    | none => exact ih
    | some b => exact .bind ih fun _ => .pure _

end Check.Composite

/-! ### Rules -/

/-- Rules whose steps are put together from the primitive ones. -/
structure Rules.Composite (r : Rules) : Prop where
  visit : ∀ node, (r.visit node).Composite
  split : ∀ node, (r.split node).Composite

attribute [grind ←] Rules.Composite.visit Rules.Composite.split

variable {r : Rules}

@[grind ←]
theorem Rules.Composite.expr (hr : r.Composite) (node : Node) : (r.expr node).Composite := by
  unfold Rules.expr
  grind

@[grind ←]
theorem Rules.Composite.exprs (hr : r.Composite) (nodes : List Node) :
    (r.exprs nodes).Composite := by
  unfold Rules.exprs
  grind

@[grind ←]
theorem Rules.Composite.expr? (hr : r.Composite) (node? : Option Node) :
    (r.expr? node?).Composite := by
  unfold Rules.expr?
  grind

@[grind ←]
theorem Rules.Composite.assign (hr : r.Composite) (target : Node) (value : TyUnion) :
    (r.assign target value).Composite := by
  unfold Rules.assign
  grind

@[grind ←]
theorem Rules.Composite.probe (hr : r.Composite) (node : Node) : (r.probe node).Composite := by
  unfold Rules.probe
  grind

@[grind ←]
theorem Rules.Composite.condition (hr : r.Composite) (node : Node) :
    (r.condition node).Composite := by
  unfold Rules.condition
  grind

@[grind ←]
theorem Rules.Composite.visitArguments (hr : r.Composite) (arguments : Option Node) :
    (r.visitArguments arguments).Composite := by
  unfold Rules.visitArguments
  grind

@[grind ←]
theorem Check.Composite.classReference (name : String) : (Check.classReference name).Composite := by
  unfold Check.classReference
  grind

@[grind ←]
theorem Check.Composite.ensureClass (name : String) (node : Node) :
    (Check.ensureClass name node).Composite := by
  unfold Check.ensureClass
  grind

@[grind ←]
theorem Check.Composite.knownClass? (name : String) (node : Node) :
    (Check.knownClass? name node).Composite := by
  unfold Check.knownClass?
  grind

@[grind ←]
theorem Rules.Composite.scopeClass? (hr : r.Composite) (node : Node) :
    (r.scopeClass? node).Composite := by
  unfold Rules.scopeClass?
  grind

@[grind ←]
theorem Check.Composite.accepts (value expected : TyUnion) :
    (Check.accepts value expected).Composite := by
  unfold Check.accepts
  grind

/-! ### Names -/

@[grind ←]
theorem Check.Composite.checkName (c : Convention) (name : String) (node : Node)
    (message : String) : (Check.checkName c name node message).Composite :=
  .reportMisnamed (!c.admits name) node message

@[grind ←]
theorem Check.Composite.checkConstantName (name : String) (node : Node) :
    (Check.checkConstantName name node).Composite := by
  unfold Check.checkConstantName
  grind

/-! ### Members and elements -/

@[grind ←]
theorem Rules.Composite.memberName? (hr : r.Composite) (node : Node) :
    (r.memberName? node).Composite := by
  unfold Rules.memberName?
  grind

@[grind ←]
theorem Check.Composite.accessMember (node : Node) (className : String) (kind : MemberKind)
    (name : String) (assigning : Option TyUnion) :
    (Check.accessMember node className kind name assigning).Composite := by
  unfold Check.accessMember
  refine .bind .scope fun s => .bind .registry fun known => ?_
  extract_lets next
  have hnext : ∀ found, (next found).Composite := by grind
  clear_value next
  grind

@[grind ←]
theorem Check.Composite.accessReceiver (node : Node) (name : String) (assigning : Option TyUnion)
    (onlyScalars : Bool) (result : TyUnion) (receiver : Receiver) :
    (Check.accessReceiver node name assigning onlyScalars result receiver).Composite := by
  unfold Check.accessReceiver
  grind

@[grind ←]
theorem Rules.Composite.propertyAccess (hr : r.Composite) (node : Node)
    (assigning : Option TyUnion) : (r.propertyAccess node assigning).Composite := by
  unfold Rules.propertyAccess
  split
  · refine .bind (hr.expr _) fun objectTy => .bind (hr.memberName? _) fun name? => ?_
    split
    · exact .bind (.foldlM (.accessReceiver _ _ _ _) _ _) fun _ => .pure _
    · exact .pure _
  · exact .pure _

@[grind ←]
theorem Rules.Composite.staticPropertyAccess (hr : r.Composite) (node : Node)
    (assigning : Option TyUnion) : (r.staticPropertyAccess node assigning).Composite := by
  unfold Rules.staticPropertyAccess
  split
  · refine .bind (hr.scopeClass? _) fun className? => ?_
    grind
  · exact .pure _

@[grind ←]
theorem Rules.Composite.className (hr : r.Composite) (scopeNode : Node) :
    (r.className scopeNode).Composite := by
  unfold Rules.className
  grind

@[grind ←]
theorem Rules.Composite.classConstant (hr : r.Composite) (node : Node) :
    (r.classConstant node).Composite := by
  unfold Rules.classConstant
  split
  · extract_lets name
    refine .ite (hr.className _) (.bind (hr.scopeClass? _) fun className? => ?_)
    grind
  · exact .pure _

@[grind ←]
theorem Rules.Composite.container? (hr : r.Composite) (node : Node) :
    (r.container? node).Composite := by
  unfold Rules.container?
  grind

@[grind ←]
theorem Rules.Composite.subscript (hr : r.Composite) (node : Node) (assigning : Option TyUnion) :
    (r.subscript node assigning).Composite := by
  unfold Rules.subscript
  grind

/-! ### Calls -/

@[grind ←]
theorem Check.Composite.checkCallback (node : Node) (ty : TyUnion) :
    (Rules.checkCallback node ty).Composite := by
  unfold Rules.checkCallback
  grind

@[grind ←]
theorem Rules.Composite.checkArgument (hr : r.Composite) (value : Node) (parameter : Param)
    (index : Nat) (function : String) :
    (r.checkArgument value parameter index function).Composite := by
  unfold Rules.checkArgument
  grind

@[grind ←]
theorem Rules.Composite.passArgument (hr : r.Composite) (f : Signature) (name : String)
    (p : Passed) (argument : Node) : (r.passArgument f name p argument).Composite := by
  unfold Rules.passArgument
  split
  · exact .pure _
  · refine .ite (by grind) ?_
    extract_lets parameterName
    split
    extract_lets last next
    have hnext : ∀ u, (next u).Composite := by grind
    clear_value next
    grind

@[grind ←]
theorem Check.Composite.checkArity (node : Node) (f : Signature) (name : String)
    (p : Rules.Passed) : (Rules.checkArity node f name p).Composite := by
  unfold Rules.checkArity
  refine .ite (.pure _) ?_
  extract_lets missing missingNames given next
  have hnext : ∀ u, (next u).Composite := by grind
  clear_value next
  split
  · refine .configured (fun _ _ => rfl) fun config => ?_
    grind
  · exact hnext _

@[grind ←]
theorem Rules.Composite.checkCall (hr : r.Composite) (node : Node) (f : Signature)
    (arguments : Option Node) (name : String) : (r.checkCall node f arguments name).Composite := by
  unfold Rules.checkCall
  exact .bind (.foldlM (hr.passArgument _ _) _ _) fun _ => .checkArity _ _ _ _

@[grind ←]
theorem Rules.Composite.callMember (hr : r.Composite) (node : Node) (m : Resolved)
    (className name : String) (arguments : Option Node) :
    (r.callMember node m className name arguments).Composite := by
  unfold Rules.callMember
  grind

@[grind ←]
theorem Rules.Composite.invokeMethod (hr : r.Composite) (node : Node) (className : String)
    (kind : MemberKind) (name : String) (arguments : Option Node) :
    (r.invokeMethod node className kind name arguments).Composite := by
  unfold Rules.invokeMethod
  refine .bind (.ensureClass _ _) fun known => ?_
  split
  · refine .bind .registry fun registry => .bind .scope fun s => ?_
    cases registry.findMember className kind name s.callingClass with
    | found m =>
      have hcall := hr.callMember node m className name arguments
      dsimp only
      cases m.spelling with
      | some spelling =>
        dsimp only
        rw [reportMisnamed_bind]
        exact .bind (.reportMisnamed true node _) fun _ => hcall
      | none => exact hcall
    | inaccessible m => grind
    | missing => grind
  · grind

@[grind ←]
theorem Rules.Composite.callReceiver (hr : r.Composite) (node : Node) (name : String)
    (arguments : Option Node) (onlyScalars : Bool) (state : Bool × TyUnion) (receiver : Receiver) :
    (r.callReceiver node name arguments onlyScalars state receiver).Composite := by
  unfold Rules.callReceiver
  grind

@[grind ←]
theorem Rules.Composite.methodCall (hr : r.Composite) (node : Node) :
    (r.methodCall node).Composite := by
  unfold Rules.methodCall
  split
  · refine .bind (hr.expr _) fun objectTy => .bind (hr.memberName? _) fun name? => ?_
    cases name? with
    | some name =>
      refine .bind (.foldlM (hr.callReceiver _ _ _ _) _ _) fun _ => ?_
      grind
    | none => grind
  · exact .pure _

@[grind ←]
theorem Rules.Composite.staticCall (hr : r.Composite) (node : Node) :
    (r.staticCall node).Composite := by
  unfold Rules.staticCall
  grind

@[grind ←]
theorem Rules.Composite.construct (hr : r.Composite) (node : Node) (className : String)
    (arguments : Option Node) : (r.construct node className arguments).Composite := by
  unfold Rules.construct
  grind

@[grind ←]
theorem Check.Composite.findFunction? (candidates : List String) :
    (Rules.findFunction? candidates).Composite := by
  unfold Rules.findFunction?
  grind

@[grind ←]
theorem Check.Composite.loadFunction? (candidates : List String) :
    (Rules.loadFunction? candidates).Composite := by
  unfold Rules.loadFunction?
  grind

@[grind ←]
theorem Rules.Composite.defineConstant (hr : r.Composite) (arguments : Option Node) :
    (r.defineConstant arguments).Composite := by
  unfold Rules.defineConstant
  grind

@[grind ←]
theorem Rules.Composite.dynamicCall (hr : r.Composite) (node callee : Node)
    (arguments : Option Node) : (r.dynamicCall node callee arguments).Composite := by
  unfold Rules.dynamicCall
  grind

@[grind ←]
theorem Rules.Composite.functionCall (hr : r.Composite) (node : Node) :
    (r.functionCall node).Composite := by
  unfold Rules.functionCall
  split
  · exact .pure _
  · refine .ite (.bind .scope fun s => .bind (.loadFunction? _) fun found => ?_) ?_
    · grind
    · exact hr.dynamicCall _ _ _

/-! ### Conditions -/

@[grind ←]
theorem Rules.Composite.connect (hr : r.Composite) (c : Connective) (left right : Node) :
    (r.connect c left right).Composite := by
  unfold Rules.connect
  grind

end PhpCheck
