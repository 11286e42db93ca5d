import PhpCheck.Proofs.Check.Visit
import PhpCheck.Session.Run

/-!
What the analysis of a file does to the session around it.

A relation between sessions that holds of what loading a file does, and of writing to
the registry, holds between the sessions before and after a file is checked, also when
its analysis is broken off.
-/

namespace PhpCheck

/-- The checker behind a step, whether or not the step ends the analysis. -/
def Check.after {α : Type} (m : Check α) (setting : Setting) (c : Checker) : Checker :=
  match m setting c with
  | .ok _ c => c
  | .error _ c => c

/-- What may happen to a session while a file is checked. -/
structure Session.Passage (R : Session → Session → Prop) : Prop where
  refl : ∀ s, R s s
  trans : ∀ {s t u}, R s t → R t u → R s u
  registry : ∀ s f, R s (s.modifyRegistry f)

/-- Loading files does nothing else to a session. -/
structure Loads.Within (R : Session → Session → Prop) (l : Loads) : Prop where
  autoload : ∀ name s, R s (l.autoload name s).2
  includeFile : ∀ path once s, R s (l.includeFile path once s).2

theorem Checker.Apart.fixes {α : Type} {f : Checker → α × Checker} (hf : Checker.Apart f)
    (c : Checker) : (f c).2.session = c.session ∧ (f c).2.diagnostics = c.diagnostics ∧
      (f c).2.muted = c.muted ∧ (f c).2.ownFunctions = c.ownFunctions ∧
      (f c).2.missingClasses = c.missingClasses := by
  have hself : f c = _ := hf c c.session c.diagnostics c.muted c.ownFunctions c.missingClasses
  rw [hself]
  exact ⟨rfl, rfl, rfl, rfl, rfl⟩

theorem Check.around_run {α β γ : Type} (enter : Checker → β × Checker)
    (leave : β → α → Checker → γ × Checker) (undo : β → Checker → Checker) (m : Check α)
    (setting : Setting) (c : Checker) : around enter leave undo m setting c =
      match m setting (enter c).2 with
      | .ok a c' => .ok (leave (enter c).1 a c').1 (leave (enter c).1 a c').2
      | .error e c' => .error e (undo (enter c).1 c') := rfl

theorem Check.quietly_run {α : Type} (m : Check α) (setting : Setting) (c : Checker) :
    quietly m setting c = match m setting { c with muted := c.muted + 1 } with
      | .ok a c' => .ok a { c' with muted := c'.muted - 1 }
      | .error e c' => .error e c' := by
  show (m >>= fun a => unmute >>= fun _ => pure a) setting { c with muted := c.muted + 1 } = _
  rw [bind_run]
  cases m setting { c with muted := c.muted + 1 } <;> rfl

theorem Check.onSession_run {α : Type} (f : Session → α × Session) (setting : Setting)
    (c : Checker) :
    onSession f setting c = .ok (f c.session).1 { c with session := (f c.session).2 } := rfl

/-- What a report notes. -/
def Setting.finding (setting : Setting) (kind : DiagnosticKind) (node : Node) (message : String) :
    Diagnostic :=
  ⟨kind, .ofSpan setting.file node.span, message⟩

def Checker.note (c : Checker) (d : Diagnostic) : Checker :=
  { c with diagnostics := d :: c.diagnostics }

section

variable {kind : DiagnosticKind} {c : Checker}

theorem Check.report_fatal (hfatal : kind.isFatal = true) (node : Node) (message : String)
    (setting : Setting) : report kind node message setting c =
      .error ⟨.ofSpan setting.file node.span, message⟩
        (c.note (setting.finding kind node message)) := by
  unfold report
  simp only [hfatal, if_true]
  rfl

theorem Check.report_mild (hfatal : kind.isFatal = false) (node : Node) (message : String)
    (setting : Setting) : report kind node message setting c =
      .ok () (if c.muted = 0 then c.note (setting.finding kind node message) else c) := by
  unfold report
  simp only [hfatal]
  rfl

end

theorem Check.reportMisnamed_run (bad : Bool) (node : Node) (message : String) (setting : Setting)
    (c : Checker) : reportMisnamed bad node message setting c =
      .ok () (if c.session.config.analyzer.namingConventions && bad && c.muted == 0 then
        c.note (setting.finding .namingConventionViolation node message) else c) := by
  have hmild : DiagnosticKind.namingConventionViolation.isFatal = false := rfl
  have hrun : reportMisnamed bad node message setting c =
      (if c.session.config.analyzer.namingConventions && bad then
        report .namingConventionViolation node message else pure () : Check Unit) setting c := rfl
  rw [hrun]
  cases c.session.config.analyzer.namingConventions && bad with
  | true =>
    rw [if_pos rfl, report_mild hmild]
    by_cases hmuted : c.muted = 0 <;> simp [hmuted]
  | false => rfl

/-- The checker behind the registration of a function. -/
def Checker.registering (c : Checker) (name : String) (f : Signature) : Checker :=
  { c with
    session := c.session.modifyRegistry (·.addFunction name f)
    ownFunctions := if (c.session.registry.function? name).isNone then
      symbolKey name :: c.ownFunctions else c.ownFunctions }

theorem Check.registerFunction_run (name : String) (f : Signature) (setting : Setting)
    (c : Checker) : registerFunction name f setting c = .ok () (c.registering name f) := by
  have hrun : registerFunction name f setting c =
      (do
        modifyRegistry (·.addFunction name f)
        if (c.session.registry.function? name).isNone then noteFunction name : Check Unit)
        setting c := rfl
  rw [hrun, Checker.registering]
  cases c.session.registry.function? name <;> rfl

/-- The checker behind the revision of a function. -/
def Checker.revising (c : Checker) (given : Bool) (name : String) (f : Signature) : Checker :=
  if given && c.ownFunctions.contains (symbolKey name) then
    { c with session := c.session.modifyRegistry (·.updateFunction name f) }
  else c

theorem Checker.revising_map {c : Checker} (g : Checker → Checker)
    (hown : (g c).ownFunctions = c.ownFunctions)
    (hg : ∀ r, g { c with session := c.session.modifyRegistry r } =
      { g c with session := (g c).session.modifyRegistry r })
    (given : Bool) (name : String) (f : Signature) :
    (g c).revising given name f = g (c.revising given name f) := by
  rw [revising, revising, apply_ite g, hg, ← hown]

theorem Check.reviseFunction_run (given : Bool) (name : String) (f : Signature)
    (setting : Setting) (c : Checker) :
    reviseFunction given name f setting c = .ok () (c.revising given name f) := by
  have hrun : reviseFunction given name f setting c =
      (if given && c.ownFunctions.contains (symbolKey name) then
        modifyRegistry (·.updateFunction name f) else pure () : Check Unit) setting c := rfl
  rw [hrun, Checker.revising]
  split <;> rfl

/-- A missing class is to be reported. -/
def Checker.Misses (c : Checker) (name : String) : Prop :=
  c.muted = 0 ∧ c.missingClasses.contains (symbolKey name) = false

theorem Check.noteMissing_new {c : Checker} {name : String} (hnew : c.Misses name)
    (setting : Setting) : noteMissing name setting c =
      .ok true { c with missingClasses := symbolKey name :: c.missingClasses } := by
  rw [noteMissing, modifyGet_run, if_pos (by simpa [Checker.Misses] using hnew)]

theorem Check.noteMissing_known {c : Checker} {name : String} (hknown : ¬c.Misses name)
    (setting : Setting) : noteMissing name setting c = .ok false c := by
  rw [noteMissing, modifyGet_run, if_neg (by simpa [Checker.Misses] using hknown)]

theorem Check.reportMissing_new {c : Checker} {name : String} (hnew : c.Misses name) (node : Node)
    (setting : Setting) : reportMissing name node setting c =
      .ok () (Checker.note { c with missingClasses := symbolKey name :: c.missingClasses }
        (setting.finding .classLoadFailure node ("class " ++ name ++ " could not be loaded"))) := by
  have hmild : DiagnosticKind.classLoadFailure.isFatal = false := rfl
  unfold reportMissing
  rw [bind_run, noteMissing_new hnew]
  show report .classLoadFailure node _ setting _ = _
  rw [report_mild hmild, if_pos hnew.1]

theorem Check.reportMissing_known {c : Checker} {name : String} (hknown : ¬c.Misses name)
    (node : Node) (setting : Setting) : reportMissing name node setting c = .ok () c := by
  unfold reportMissing
  rw [bind_run, noteMissing_known hknown]
  rfl

/-- What is found where a variable is not bound. -/
def Setting.undefined (setting : Setting) (name : String) (node : Node) : Diagnostic :=
  setting.finding .undefinedName node
    (if name == Scope.this then "$this used outside of an object context"
      else s!"undefined variable ${name}")

theorem Check.isMuted_run (setting : Setting) (c : Checker) :
    isMuted setting c = .ok (decide (0 < c.muted)) c := rfl

theorem Check.reportUndefined_noted {c : Checker} (hmuted : c.muted = 0) (name : String)
    (node : Node) (setting : Setting) : reportUndefined name node setting c =
      .ok () (if name = Scope.this then c.note (setting.undefined name node)
        else { c.note (setting.undefined name node) with scope := c.scope.bind name .mixed }) := by
  have hmild : DiagnosticKind.undefinedName.isFatal = false := rfl
  have hloud : ¬0 < c.muted := by omega
  unfold reportUndefined
  rw [bind_run, report_mild hmild, if_pos hmuted]
  dsimp only
  rw [bind_run, isMuted_run]
  dsimp only [Checker.note]
  by_cases hthis : name = Scope.this
  · rw [if_pos hthis, if_neg (by simp [hthis])]
    rfl
  · rw [if_neg hthis, if_pos (by simp [hthis, hloud])]
    rfl

theorem Check.reportUndefined_muted {c : Checker} (hmuted : c.muted ≠ 0) (name : String)
    (node : Node) (setting : Setting) : reportUndefined name node setting c = .ok () c := by
  have hmild : DiagnosticKind.undefinedName.isFatal = false := rfl
  have hpos : 0 < c.muted := by omega
  unfold reportUndefined
  rw [bind_run, report_mild hmild, if_neg hmuted]
  dsimp only
  rw [bind_run, isMuted_run]
  dsimp only
  rw [if_neg (by simp [hpos])]
  rfl

/-! ### What all steps keep -/

/-- A property of checkers that the primitive steps keep.  It is about the session, the
findings and the functions of the file. -/
structure Check.Invariant (setting : Setting) (P : Checker → Prop) : Prop where
  same : ∀ c c' : Checker, c'.session = c.session → c'.diagnostics = c.diagnostics →
    c'.ownFunctions = c.ownFunctions → P c → P c'
  note : ∀ {c} kind node message, P c → P (c.note (setting.finding kind node message))
  registry : ∀ {c : Checker} f, (∀ r, (f r).functions = r.functions) → P c →
    P { c with session := c.session.modifyRegistry f }
  registering : ∀ {c} name f, P c → P (c.registering name f)
  revising : ∀ {c} given name f, P c → P (c.revising given name f)
  autoload : ∀ {c : Checker} name, P c →
    P { c with session := (setting.loads.autoload name c.session).2 }
  includeFile : ∀ {c : Checker} path once, P c →
    P { c with session := (setting.loads.includeFile path once c.session).2 }

/-- A step keeps a property of checkers, also if it ends the analysis. -/
def Check.Maintains {α : Type} (P : Checker → Prop) (setting : Setting) (m : Check α) : Prop :=
  ∀ c, P c → P (m.after setting c)

section

variable {P : Checker → Prop} {setting : Setting}

namespace Check.Maintains

variable {α β : Type}

theorem bind {m : Check α} {f : α → Check β} (hm : m.Maintains P setting)
    (hf : ∀ a, (f a).Maintains P setting) : (m >>= f).Maintains P setting := by
  intro c hc
  have hfirst := hm c hc
  unfold Check.after at hfirst ⊢
  rw [Check.bind_run]
  cases hrun : m setting c with
  | ok a c' =>
    rw [hrun] at hfirst
    exact hf a c' hfirst
  | error e c' =>
    rw [hrun] at hfirst
    exact hfirst

theorem of_run {m : Check α} {a : Checker → α} {next : Checker → Checker}
    (hrun : ∀ c, m setting c = .ok (a c) (next c)) (hnext : ∀ c, P c → P (next c)) :
    m.Maintains P setting := by
  intro c hc
  unfold Check.after
  rw [hrun]
  exact hnext c hc

theorem report (hP : Invariant setting P) (kind : DiagnosticKind) (node : Node)
    (message : String) : (Check.report kind node message).Maintains P setting := by
  intro c hc
  unfold Check.after
  cases hfatal : kind.isFatal with
  | true =>
    rw [report_fatal hfatal]
    exact hP.note kind node message hc
  | false =>
    rw [report_mild hfatal]
    dsimp only
    split
    · exact hP.note kind node message hc
    · exact hc

end Check.Maintains

/-- Every step keeps what the primitive ones keep. -/
theorem Check.Composite.maintains {α : Type} {m : Check α} (hm : m.Composite)
    (hP : Invariant setting P) : m.Maintains P setting := by
  induction hm with
  | pure a => exact fun _ hc => hc
  | bind _ _ ihm ihf => exact .bind ihm ihf
  | apart hf _ =>
    intro c hc
    obtain ⟨hsession, hfound, -, hown, -⟩ := hf.fixes c
    exact hP.same c _ hsession hfound hown hc
  | @around _ _ _ enter leave undo m henter hleave hundo _ _ ih =>
    intro c hc
    obtain ⟨hsession, hfound, -, hown, -⟩ := henter.fixes c
    have hinner := ih (enter c).2 (hP.same c _ hsession hfound hown hc)
    unfold Check.after at hinner ⊢
    rw [around_run]
    cases hm : m setting (enter c).2 with
    | ok a c' =>
      rw [hm] at hinner
      obtain ⟨hsession, hfound, -, hown, -⟩ := (hleave (enter c).1 a).fixes c'
      exact hP.same c' _ hsession hfound hown hinner
    | error e c' =>
      rw [hm] at hinner
      obtain ⟨hsession, hfound, -, hown, -⟩ := (hundo (enter c).1).fixes c'
      exact hP.same c' _ hsession hfound hown hinner
  | @quietly _ m _ ih =>
    intro c hc
    have hinner := ih { c with muted := c.muted + 1 } (hP.same c _ rfl rfl rfl hc)
    unfold Check.after at hinner ⊢
    rw [quietly_run]
    cases hm : m setting { c with muted := c.muted + 1 } with
    | ok a c' =>
      rw [hm] at hinner
      exact hP.same c' _ rfl rfl rfl hinner
    | error e c' =>
      rw [hm] at hinner
      exact hinner
  | report kind node message => exact .report hP kind node message
  | reportMisnamed bad node message =>
    refine .of_run (reportMisnamed_run bad node message setting) fun c hc => ?_
    split
    · exact hP.note _ node message hc
    · exact hc
  | reportMissing name node =>
    refine .bind (fun c hc => ?_) fun isNew => ?_
    · show P (if _ then _ else _ : Bool × Checker).2
      split
      · exact hP.same c _ rfl rfl rfl hc
      · exact hc
    · cases isNew with
      | true => exact .report hP _ node _
      | false => exact fun _ hc => hc
  | reportUndefined name node =>
    refine .bind (.report hP _ node _) fun _ => .bind (fun _ hc => hc) fun muted => ?_
    split
    · exact fun c hc => hP.same c _ rfl rfl rfl hc
    · exact fun _ hc => hc
  | currentFile | currentDir | registry | resolveInclude? _ => exact fun _ hc => hc
  | modifyRegistry f hf => exact fun _ hc => hP.registry f hf hc
  | registerFunction name f =>
    exact .of_run (registerFunction_run name f setting) fun _ hc => hP.registering name f hc
  | reviseFunction given name f =>
    exact .of_run (reviseFunction_run given name f setting) fun _ hc => hP.revising given name f hc
  | configured _ _ ih => exact .bind (fun _ hc => hc) ih
  | autoload name => exact fun _ hc => hP.autoload name hc
  | includeFile path once => exact fun _ hc => hP.includeFile path once hc

end

/-! ### The session -/

section

variable {R : Session → Session → Prop} {setting : Setting}

/-- The session of a checker came from another by a passage. -/
theorem Session.Passage.invariant (hR : Session.Passage R) (hl : setting.loads.Within R)
    (s : Session) : Check.Invariant setting fun c => R s c.session where
  same _ _ hsession _ _ hc := hsession ▸ hc
  note _ _ _ hc := hc
  registry f _ hc := hR.trans hc (hR.registry _ f)
  registering name f hc := hR.trans hc (hR.registry _ (·.addFunction name f))
  revising given name f hc := by
    unfold Checker.revising
    split
    · exact hR.trans hc (hR.registry _ (·.updateFunction name f))
    · exact hc
  autoload name hc := hR.trans hc (hl.autoload name _)
  includeFile path once hc := hR.trans hc (hl.includeFile path once _)

/-- What a step does to the session is a passage. -/
def Check.Passes {α : Type} (R : Session → Session → Prop) (setting : Setting) (m : Check α) :
    Prop :=
  ∀ c, R c.session (m.after setting c).session

namespace Check.Passes

theorem of_modifyGet {α : Type} {f : Checker → α × Checker} (hR : Session.Passage R)
    (hf : ∀ c, (f c).2.session = c.session) : (modifyGet f : Check α).Passes R setting := by
  intro c
  show R c.session (f c).2.session
  rw [hf]
  exact hR.refl _

theorem report (hR : Session.Passage R) (kind : DiagnosticKind) (node : Node) (message : String) :
    (Check.report kind node message).Passes R setting := by
  intro c
  unfold Check.after
  cases hfatal : kind.isFatal with
  | true =>
    rw [report_fatal hfatal]
    exact hR.refl _
  | false =>
    rw [report_mild hfatal]
    dsimp only
    split <;> exact hR.refl _

end Check.Passes

/-- What a step does to the session is a passage, if loading is. -/
theorem Check.Composite.passage {α : Type} {m : Check α} (hm : m.Composite)
    (hR : Session.Passage R) (hl : setting.loads.Within R) : m.Passes R setting := fun c =>
  hm.maintains (hR.invariant hl c.session) c (hR.refl _)

end

variable {R : Session → Session → Prop}

/-- The session behind the analysis of a tree is that of the checker behind it. -/
theorem Session.checkTree_session (s : Session) (loads : Loads) (path : String) (root : Node)
    (included : Bool) : (s.checkTree loads path root included).2 =
      ((Check.file root).after { file := path, dir := (Path.parent? path).getD "", loads }
        { session := s, scope := .file included }).session := by
  unfold checkTree Check.after
  dsimp only [ReaderT.run, EStateM.run]
  split
  · rename_i hrun
    rw [hrun]
  · rename_i hrun
    rw [hrun]

/-- Checking a file is a passage, if loading is. -/
theorem Session.passage_checkTree (hR : Session.Passage R) {loads : Loads}
    (hl : loads.Within R) (s : Session) (path : String) (root : Node) (included : Bool) :
    R s (s.checkTree loads path root included).2 := by
  rw [checkTree_session]
  exact (Check.composite_file root).passage hR hl { session := s, scope := .file included }

end PhpCheck
