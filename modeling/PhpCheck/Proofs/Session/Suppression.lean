import PhpCheck.Proofs.Check.Findings
import PhpCheck.Proofs.Check.Veil
import PhpCheck.Proofs.Report.Order
import PhpCheck.Proofs.Session.Request

/-!
What is left out of reports never changes what is found.

The settings about what to ignore are not looked at while files are analyzed, and whether
names are checked decides about nothing but the findings on names.  Both are veils, and a
session that is asked for anything under a veil is the session that was asked for the same
without it, with findings hidden (`Veil.serveAll`).
-/

namespace PhpCheck

/-! ### Findings that are hidden -/

namespace Veil

variable {v : Veil}

/-- A test that no finding on a name passes does not tell whether findings are hidden. -/
theorem any_findings {p : DiagnosticKind → Bool} (hp : p .namingConventionViolation = false)
    (found : List Diagnostic) : (v.findings found).any (p ·.kind) = found.any (p ·.kind) := by
  have hshown : ∀ d : Diagnostic, (v.shows d.kind && p d.kind) = p d.kind := by
    intro d
    by_cases hkind : d.kind = .namingConventionViolation
    · rw [hkind, hp, Bool.and_false]
    · rw [v.shows_of_ne _ hkind, Bool.true_and]
  unfold findings
  rw [List.any_filter]
  simp only [hshown]

/-- The rest of a file is analyzed under a veil if it is without. -/
theorem isAborted_report (r : Report) : (v.report r).isAborted = r.isAborted :=
  any_findings rfl r.diagnostics

theorem findings_eq_self {found : List Diagnostic}
    (hkinds : ∀ d ∈ found, d.kind ≠ .namingConventionViolation) : v.findings found = found :=
  List.filter_eq_self.2 fun d hd => v.shows_of_ne d.kind (hkinds d hd)

theorem report_ofDiagnostics (path : String) (found : List Diagnostic) :
    v.report (.ofDiagnostics path found) = .ofDiagnostics path (v.findings found) := by
  have herrors := any_findings (v := v) (p := fun kind => kind.severity == .error) rfl found
  unfold Report.ofDiagnostics
  exact congrArg (fun errors => Report.mk path (!errors) _) herrors.symm

end Veil

namespace Session

variable {v : Veil}

theorem outcomeOf_veil {found : List Diagnostic} {path : String}
    (hfile : ∀ d ∈ found, d.location.file = path) (value : TyUnion) (included : Bool) :
    outcomeOf path (v.findings found) value included = v.outcome
      (outcomeOf path found value included) := by
  have hsorted : ∀ found, (Report.ofDiagnostics path (tidy found)).sorted =
      .ofDiagnostics path (tidy found) := by
    intro found
    unfold Report.sorted Report.ofDiagnostics
    dsimp only
    rw [mergeSort_tidy]
  have htidy : tidy (v.findings found) = v.findings (tidy found) := tidy_filter hfile _
  unfold outcomeOf Veil.outcome FileOutcome.mapReport
  dsimp only
  rw [hsorted, hsorted, Veil.report_ofDiagnostics, htidy]

theorem directReport?_veil (s : Session) (path : String) :
    (v.session s).directReport? path = (s.directReport? path).map v.report := by
  unfold directReport?
  rw [v.results_session, Table.get?_map]
  cases s.results.get? path with
  | none => rfl
  | some outcome =>
    obtain ⟨report, value, included⟩ := outcome
    cases included <;> rfl

theorem contains_veil (s : Session) (path : String) :
    (v.session s).results.contains path = s.results.contains path := by
  unfold Table.contains
  rw [v.results_session, Table.get?_map, Option.isSome_map]

theorem maxLoadDepth_veil (c : Config) :
    (v.config c).analyzer.maxLoadDepth = c.analyzer.maxLoadDepth := by
  rw [v.analyzer]

theorem isExhausted_veil (s : Session) : (v.session s).isExhausted = s.isExhausted := by
  unfold isExhausted
  rw [← maxLoadDepth_veil (v := v) s.config]
  rfl

theorem leave_veil (s : Session) (path : String) (outcome : FileOutcome) :
    (v.session s).leave path (v.outcome outcome) = v.session (s.leave path outcome) := by
  unfold leave
  dsimp only
  rw [contains_veil]
  unfold log Veil.session mapReports
  dsimp only
  rw [Table.insert_map]
  rfl

/-! ### Files -/

variable {loads : Loads}

theorem checkTree_veil (hl : loads.Veils v) (s : Session) (path : String) (root : Node)
    (included : Bool) : (v.session s).checkTree loads path root included =
      (v.outcome (s.checkTree loads path root included).1,
        v.session (s.checkTree loads path root included).2) := by
  let setting : Setting := { file := path, dir := (Path.parent? path).getD "", loads }
  let c : Checker := { session := s, scope := .file included }
  have hrun : Check.file root setting (v.checker c) = v.result (Check.file root setting c) :=
    (Check.composite_file root).veils hl c
  have hfile := (Check.composite_file root).locates setting c (by simp [Checker.Located, c])
  unfold Check.after at hfile
  unfold checkTree
  dsimp only [ReaderT.run, EStateM.run]
  rw [show Check.file root setting { session := v.session s, scope := .file included } =
    _ from hrun]
  cases hresult : Check.file root setting c with
  | ok value c' =>
    rw [hresult] at hfile
    dsimp only [Veil.result]
    rw [← outcomeOf_veil hfile]
    rfl
  | error e c' =>
    rw [hresult] at hfile
    dsimp only [Veil.result]
    rw [← outcomeOf_veil hfile]
    rfl

theorem parseSource_error {path source : String} {found : List Diagnostic}
    (herror : parseSource path source = .error found) :
    ∀ d ∈ found, d.kind = .syntaxError := by
  unfold parseSource at herror
  dsimp only at herror
  split at herror
  · cases herror
    intro d hd
    obtain ⟨e, -, rfl⟩ := List.mem_map.1 hd
    rfl
  · split at herror
    · cases herror
      intro d hd
      rw [List.mem_singleton.1 hd]
    · cases herror

theorem checkSource_veil (hl : loads.Veils v) (s : Session) (path source : String)
    (included : Bool) : (v.session s).checkSource loads path source included =
      (v.outcome (s.checkSource loads path source included).1,
        v.session (s.checkSource loads path source included).2) := by
  unfold checkSource
  cases hparse : parseSource path source with
  | ok root => exact checkTree_veil hl s path root included
  | error found =>
    have hkinds := parseSource_error hparse
    unfold Veil.outcome FileOutcome.mapReport
    dsimp only
    rw [Veil.report_ofDiagnostics,
      Veil.findings_eq_self fun d hd => hkinds d hd ▸ by decide]

theorem run_veil (hl : loads.Veils v) (s : Session) (path source : String) (cause : Cause) :
    (v.session s).run loads path source cause =
      (v.outcome (s.run loads path source cause).1,
        v.session (s.run loads path source cause).2) := by
  have hchecked := checkSource_veil hl (s.enter path cause) path source cause.isInclude
  unfold run
  rw [v.enter_session, hchecked]
  dsimp only
  rw [leave_veil]

/-! ### Further files -/

/-- An analysis does not see through a veil. -/
def Analysis.Veils (v : Veil) (analyze : Analysis) : Prop :=
  ∀ path source cause s, analyze path source cause (v.session s) =
    (v.outcome (analyze path source cause s).1, v.session (analyze path source cause s).2)

variable {analyze : Analysis}

theorem loadClassBy_veil (ha : analyze.Veils v) (name : String) (s : Session) :
    loadClassBy analyze name (v.session s) =
      ((loadClassBy analyze name s).1, v.session (loadClassBy analyze name s).2) := by
  unfold loadClassBy
  rw [isExhausted_veil]
  cases s.isExhausted with
  | true => rfl
  | false =>
    rw [v.loader_session]
    cases (s.loader.classFile? (unrooted name)).map Path.normalize with
    | none => rfl
    | some path =>
      dsimp only
      rw [contains_veil, v.isInProgress_session]
      cases s.results.contains path || s.isInProgress path with
      | true => rfl
      | false =>
        cases s.loader.read path with
        | error e => rfl
        | ok source =>
          dsimp only
          rw [ha path source .autoloaded s]
          rfl

theorem autoloadBy_veil (ha : analyze.Veils v) (name : String) (s : Session) :
    autoloadBy analyze name (v.session s) =
      ((autoloadBy analyze name s).1, v.session (autoloadBy analyze name s).2) := by
  have hload := loadClassBy_veil ha name (s.attempt (symbolKey name))
  unfold autoloadBy
  dsimp only
  rw [show (v.session s).attempted = s.attempted from rfl,
    show (v.session s).attempt (symbolKey name) = v.session (s.attempt (symbolKey name)) from rfl,
      hload]
  split <;> rfl

theorem includeBy_veil (ha : analyze.Veils v) (path : String) (once : Bool) (s : Session) :
    includeBy analyze path once (v.session s) =
      ((includeBy analyze path once s).1, v.session (includeBy analyze path once s).2) := by
  unfold includeBy
  dsimp only
  generalize Path.normalize path = path
  rw [v.isInProgress_session, isExhausted_veil, v.results_session, Table.get?_map, v.loader_session]
  cases s.isInProgress path with
  | true => rfl
  | false =>
    cases s.results.get? path with
    | some outcome => rfl
    | none =>
      cases s.isExhausted with
      | true => rfl
      | false =>
        cases s.loader.read path with
        | error e => rfl
        | ok source =>
          have haborted := Veil.isAborted_report (v := v) (analyze path source .included s).1.report
          dsimp only
          rw [ha path source .included s]
          simp only [Veil.outcome, FileOutcome.mapReport, haborted]
          rfl

theorem veils_loadsBy (ha : analyze.Veils v) : (loadsBy analyze).Veils v :=
  ⟨autoloadBy_veil ha, includeBy_veil ha⟩

theorem veils_analyzeWithin (depth : Nat) : (analyzeWithin depth).Veils v := by
  induction depth with
  | zero => exact fun _ _ _ _ => rfl
  | succ depth ih =>
    exact fun path source cause s => run_veil (veils_loadsBy ih) s path source cause

theorem veils_analyze : Analysis.Veils v Session.analyze := by
  intro path source cause s
  unfold Session.analyze
  rw [show (v.session s).config = v.config s.config from rfl, maxLoadDepth_veil]
  exact veils_analyzeWithin _ path source cause s

theorem veils_loads : Session.loads.Veils v := veils_loadsBy veils_analyze

/-! ### Requests -/

/-- An answer in which the report is edited, if it is one. -/
def Answer.mapReport (f : Report → Report) : Answer → Answer
  | .report r => .report (f r)
  | a => a

theorem Answer.mapReport_id (a : Answer) : a.mapReport id = a := by
  cases a <;> rfl

theorem analyzeSource_veil (s : Session) (path source : String) :
    (v.session s).analyzeSource path source =
      (v.report (s.analyzeSource path source).1, v.session (s.analyzeSource path source).2) := by
  unfold analyzeSource
  dsimp only
  rw [directReport?_veil]
  cases s.directReport? (Path.normalize path) with
  | some report => rfl
  | none =>
    dsimp only [Option.map_none]
    rw [veils_analyze]
    rfl

theorem analyzeFile_veil (s : Session) (path : String) :
    (v.session s).analyzeFile path =
      ((s.analyzeFile path).1.map v.report, v.session (s.analyzeFile path).2) := by
  unfold analyzeFile
  dsimp only
  generalize Path.normalize path = path
  rw [directReport?_veil, v.isInProgress_session, v.loader_session]
  cases s.directReport? path with
  | some report => rfl
  | none =>
    cases s.isInProgress path with
    | true => rfl
    | false =>
      cases s.loader.read path with
      | error e => rfl
      | ok source =>
        dsimp only [Option.map_none]
        rw [veils_analyze]
        rfl

theorem analyzeTree_veil (s : Session) (path : String) (root : Node) :
    (v.session s).analyzeTree path root =
      (v.report (s.analyzeTree path root).1, v.session (s.analyzeTree path root).2) := by
  have hchecked := checkTree_veil (v := v) veils_loads
    (s.enter (Path.normalize path) .direct) (Path.normalize path) root false
  unfold analyzeTree
  dsimp only
  rw [v.enter_session, hchecked]
  dsimp only
  rw [leave_veil]
  rfl

theorem serve_veil (s : Session) (request : Request) :
    (v.session s).serve request =
      ((s.serve request).1.mapReport v.report, v.session (s.serve request).2) := by
  cases request with
  | source path source =>
    unfold serve
    dsimp only
    rw [analyzeSource_veil]
    rfl
  | file path =>
    unfold serve
    dsimp only
    rw [analyzeFile_veil]
    obtain ⟨result, t⟩ := s.analyzeFile path
    cases result <;> rfl
  | tree path root =>
    unfold serve
    dsimp only
    rw [analyzeTree_veil]
    rfl
  | autoload name =>
    unfold serve autoload
    dsimp only
    rw [veils_loads.autoload name s]
    rfl
  | edit change => rfl

theorem serveAll_veil (s : Session) (requests : List Request) :
    (v.session s).serveAll requests =
      ((s.serveAll requests).1.map (·.mapReport v.report), v.session (s.serveAll requests).2) := by
  induction requests generalizing s with
  | nil => rfl
  | cons request requests ih =>
    unfold serveAll
    dsimp only
    rw [serve_veil]
    dsimp only
    rw [ih]
    rfl

end Session

/-- The report without findings on how names are written. -/
def Report.unnamed (r : Report) : Report :=
  { r with diagnostics := r.diagnostics.filter (·.kind != .namingConventionViolation) }

namespace Session

theorem start_veil (v : Veil) (config : Config) (loader : Loader) (order : ClassInfo.Order) :
    start (v.config config) loader order = v.session (start config loader order) := by
  unfold start
  generalize Builtin.registry = known
  rfl

/-- Whatever a session is asked for: what it is to ignore changes nothing but its
configuration, and if names are not checked, it answers the same with the same left in
it, but for the findings on names, which are missing from all reports.

Nothing is known of the order in which the members of classes are gone through, and of
methods that differ in the case of letters it tells which one a call means.  So it is any
order, and the same one in the sessions that are compared. -/
theorem suppression (config : Config) (loader : Loader) (order : ClassInfo.Order)
    (requests : List Request) :
    let run (config : Config) := (start config loader order).serveAll requests
    let checking (names : Bool) : Config :=
      { config with analyzer := { config.analyzer with namingConventions := names } }
    (∀ ignore, run { config with ignore } =
      ((run config).1, { (run config).2 with config := { config with ignore } })) ∧
    run (checking false) = ((run (checking true)).1.map (·.mapReport Report.unnamed),
      { (run (checking true)).2.mapReports Report.unnamed with config := checking false }) ∧
    (run (checking false)).2.reports = (run (checking true)).2.reports.map Report.unnamed := by
  intro run checking
  have hrun : ∀ (v : Veil) config, run (v.config config) =
      ((run config).1.map (·.mapReport v.report), v.session (run config).2) := by
    intro v config
    show (start (v.config config) loader order).serveAll requests = _
    rw [start_veil, serveAll_veil]
  have hconfig : ∀ config, (run config).2.config = config := by
    intro config
    show ((start config loader order).serveAll requests).2.config = config
    rw [config_serveAll, start]
  have hnames : run (checking false) = ((run (checking true)).1.map (·.mapReport Report.unnamed),
      { (run (checking true)).2.mapReports Report.unnamed with config := checking false }) := by
    refine (hrun .unnamed (checking true)).trans ?_
    unfold Veil.session
    rw [hconfig]
    rfl
  refine ⟨fun ignore => ?_, hnames, ?_⟩
  · refine (hrun (.ignoring ignore) config).trans ?_
    unfold Veil.session
    rw [Veil.report_ignoring, mapReports_id, hconfig,
      List.map_congr_left fun a _ => Answer.mapReport_id a, List.map_id']
    rfl
  · rw [hnames]
    exact reports_mapReports Report.unnamed (run (checking true)).2

end Session

end PhpCheck
