import PhpCheck.Proofs.Check.Effect

/-!
Settings that only hide findings.

A veil is a change of the configuration together with the kinds of findings that are
still shown under it.  Under a veil a session has the other configuration, and its
reports lack the findings that are hidden; the rest of it is the same.  A step of the
checker does not see through the veil: taken under it, it does what it would have done,
with the findings hidden afterwards (`Composite.veils`).
-/

namespace PhpCheck

open Check

/-! ### Reports that are edited -/

def FileOutcome.mapReport (f : Report → Report) (o : FileOutcome) : FileOutcome :=
  { o with report := f o.report }

def Event.mapReport (f : Report → Report) : Event → Event
  | .entered path cause => .entered path cause
  | .left path outcome => .left path (outcome.mapReport f)

def Moment.mapReport (f : Report → Report) (m : Moment) : Moment :=
  { m with event := m.event.mapReport f }

/-- A session in which all reports are edited. -/
def Session.mapReports (f : Report → Report) (s : Session) : Session :=
  { s with
    results := s.results.map fun _ => FileOutcome.mapReport f
    journal := s.journal.map (Moment.mapReport f) }

theorem Moment.mapReport_id (m : Moment) : m.mapReport id = m := by
  obtain ⟨event, inProgress, depth⟩ := m
  cases event <;> rfl

theorem Session.mapReports_id (s : Session) : s.mapReports id = s := by
  have hresults : (s.results.map fun _ => FileOutcome.mapReport id) = s.results :=
    Table.ext_entries (List.map_id s.results.entries)
  unfold mapReports
  rw [hresults, List.map_congr_left fun m _ => Moment.mapReport_id m, List.map_id']

theorem Session.reports_mapReports (f : Report → Report) (s : Session) :
    (s.mapReports f).reports = s.reports.map f := by
  unfold Session.reports
  rw [List.map_filterMap]
  refine List.filterMap_congr fun path _ => ?_
  show ((s.results.map fun _ => FileOutcome.mapReport f).get? path).map _ = _
  rw [Table.get?_map, Option.map_map, Option.map_map]
  rfl

/-! ### Veils -/

/-- A change of the configuration that hides findings.  Names are checked where they were
and their findings are shown, and no finding of another kind is hidden. -/
structure Veil where
  config : Config → Config
  shows : DiagnosticKind → Bool
  shows_of_ne : ∀ kind, kind ≠ .namingConventionViolation → shows kind = true
  analyzer : ∀ c, (config c).analyzer = { c.analyzer with
    namingConventions := c.analyzer.namingConventions && shows .namingConventionViolation }

namespace Veil

/-- Other findings are left out of the reports; all of them are found. -/
def ignoring (ignore : IgnoreConfig) : Veil where
  config c := { c with ignore }
  shows _ := true
  shows_of_ne _ _ := rfl
  analyzer c := by rw [Bool.and_true]

/-- Names are not checked. -/
def unnamed : Veil where
  config c := { c with analyzer := { c.analyzer with namingConventions := false } }
  shows kind := kind != .namingConventionViolation
  shows_of_ne kind hkind := bne_iff_ne.2 hkind
  analyzer c := by
    dsimp only
    rw [bne_self_eq_false, Bool.and_false]

variable (v : Veil)

/-- The findings that are shown. -/
def findings (found : List Diagnostic) : List Diagnostic := found.filter fun d => v.shows d.kind

def report (r : Report) : Report := { r with diagnostics := v.findings r.diagnostics }

theorem report_ignoring (ignore : IgnoreConfig) : (ignoring ignore).report = id := by
  funext r
  unfold report findings ignoring
  dsimp only
  rw [List.filter_true]
  rfl

def outcome (o : FileOutcome) : FileOutcome := o.mapReport v.report

/-- A session under the veil. -/
def session (s : Session) : Session :=
  { s.mapReports v.report with config := v.config s.config }

@[simp]
theorem results_session (s : Session) :
    (v.session s).results = s.results.map fun _ => v.outcome := rfl

@[simp]
theorem loader_session (s : Session) : (v.session s).loader = s.loader := rfl

@[simp]
theorem isInProgress_session (s : Session) (path : String) :
    (v.session s).isInProgress path = s.isInProgress path := rfl

theorem enter_session (s : Session) (path : String) (cause : Cause) :
    (v.session s).enter path cause = v.session (s.enter path cause) := rfl

def checker (c : Checker) : Checker :=
  { c with session := v.session c.session, diagnostics := v.findings c.diagnostics }

def result {α : Type} : EStateM.Result Abort Checker α → EStateM.Result Abort Checker α
  | .ok a c => .ok a (v.checker c)
  | .error e c => .error e (v.checker c)

theorem checker_note (c : Checker) {d : Diagnostic} (hd : v.shows d.kind = true) :
    v.checker (c.note d) = (v.checker c).note d := by
  unfold checker Checker.note findings
  rw [List.filter_cons_of_pos (by simpa using hd)]

theorem checker_note_hidden (c : Checker) {d : Diagnostic} (hd : v.shows d.kind = false) :
    v.checker (c.note d) = v.checker c := by
  unfold checker Checker.note findings
  rw [List.filter_cons_of_neg (by simp [hd])]

end Veil

theorem Checker.Apart.veil {α : Type} {f : Checker → α × Checker} (hf : Checker.Apart f)
    (v : Veil) (c : Checker) : f (v.checker c) = ((f c).1, v.checker (f c).2) := by
  obtain ⟨hsession, hfound, hmuted, hown, hmissing⟩ := hf.fixes c
  refine (hf c (v.session c.session) (v.findings c.diagnostics) c.muted c.ownFunctions
    c.missingClasses).trans ?_
  rw [← hsession, ← hfound, ← hmuted, ← hown, ← hmissing]
  rfl

variable {v : Veil} {setting : Setting}

/-- Loading files does not see through a veil. -/
structure Loads.Veils (v : Veil) (l : Loads) : Prop where
  autoload : ∀ name s,
    l.autoload name (v.session s) = ((l.autoload name s).1, v.session (l.autoload name s).2)
  includeFile : ∀ path once s, l.includeFile path once (v.session s) =
    ((l.includeFile path once s).1, v.session (l.includeFile path once s).2)

/-- A step does not see through a veil. -/
def Check.Veils {α : Type} (v : Veil) (setting : Setting) (m : Check α) : Prop :=
  ∀ c, m setting (v.checker c) = v.result (m setting c)

namespace Check.Veils

variable {α β : Type}

theorem bind {m : Check α} {f : α → Check β} (hm : m.Veils v setting)
    (hf : ∀ a, (f a).Veils v setting) : (m >>= f).Veils v setting := by
  intro c
  rw [bind_run, bind_run, hm c]
  cases m setting c with
  | ok a c' => exact hf a c'
  | error e c' => rfl

theorem of_apart {f : Checker → α × Checker} (hf : Checker.Apart f) :
    (modifyGet f : Check α).Veils v setting := by
  intro c
  rw [modifyGet_run, modifyGet_run, hf.veil]
  rfl

theorem report {kind : DiagnosticKind} (hkind : kind ≠ .namingConventionViolation) (node : Node)
    (message : String) : (Check.report kind node message).Veils v setting := by
  intro c
  have hnote := v.checker_note c (d := setting.finding kind node message) (v.shows_of_ne kind hkind)
  cases hfatal : kind.isFatal with
  | true =>
    rw [report_fatal hfatal, report_fatal hfatal, ← hnote]
    rfl
  | false =>
    rw [report_mild hfatal, report_mild hfatal, ← hnote]
    by_cases hmuted : c.muted = 0
    · rw [if_pos hmuted, if_pos (show (v.checker c).muted = 0 from hmuted)]
      rfl
    · rw [if_neg hmuted, if_neg (show (v.checker c).muted ≠ 0 from hmuted)]
      rfl

/-- Where the veil hides what is found of names, they are not checked under it. -/
theorem reportMisnamed (bad : Bool) (node : Node) (message : String) :
    (Check.reportMisnamed bad node message).Veils v setting := by
  intro c
  have hnamed : (v.checker c).session.config.analyzer.namingConventions =
      (c.session.config.analyzer.namingConventions && v.shows .namingConventionViolation) :=
    congrArg AnalyzerConfig.namingConventions (v.analyzer c.session.config)
  rw [reportMisnamed_run, reportMisnamed_run, hnamed]
  generalize hfound : setting.finding .namingConventionViolation node message = d
  have hkind : d.kind = .namingConventionViolation := hfound ▸ rfl
  cases hshows : v.shows .namingConventionViolation with
  | true =>
    rw [Bool.and_true, ← v.checker_note c (hkind ▸ hshows)]
    exact congrArg (EStateM.Result.ok ()) (apply_ite v.checker _ _ _).symm
  | false =>
    rw [Bool.and_false, Bool.false_and, Bool.false_and, if_neg Bool.false_ne_true]
    dsimp only [Veil.result]
    rw [apply_ite v.checker, v.checker_note_hidden c (hkind ▸ hshows), ite_self]

theorem noteMissing (name : String) : (Check.noteMissing name).Veils v setting := by
  intro c
  by_cases hnew : c.Misses name
  · rw [noteMissing_new hnew, noteMissing_new (show (v.checker c).Misses name from hnew)]
    rfl
  · rw [noteMissing_known hnew, noteMissing_known (show ¬(v.checker c).Misses name from hnew)]
    rfl

theorem onSession {f : Session → α × Session}
    (hf : ∀ s, f (v.session s) = ((f s).1, v.session (f s).2)) :
    (Check.onSession f).Veils v setting := by
  intro c
  rw [onSession_run, onSession_run]
  have hsession : f (v.checker c).session = _ := hf c.session
  rw [hsession]
  rfl

end Check.Veils

/-- A step that is put together from the primitive ones does not see through a veil, if
loading does not. -/
theorem Check.Composite.veils {α : Type} {m : Check α} (hm : m.Composite)
    (hl : setting.loads.Veils v) : m.Veils v setting := by
  induction hm with
  | bind _ _ ihm ihf => exact .bind ihm ihf
  | apart hf _ => exact .of_apart hf
  | @around _ _ _ enter leave undo m henter hleave hundo _ _ ih =>
    intro c
    rw [around_run, around_run, henter.veil]
    dsimp only
    rw [ih (enter c).2]
    cases m setting (enter c).2 with
    | ok a c' =>
      dsimp only [Veil.result]
      rw [(hleave (enter c).1 a).veil]
    | error e c' =>
      exact congrArg (EStateM.Result.error e) (congrArg Prod.snd ((hundo (enter c).1).veil v c'))
  | quietly _ ih =>
    exact .bind (fun _ => rfl) fun _ => .bind ih fun _ => .bind (fun _ => rfl) fun _ _ => rfl
  | report kind node message hkind => exact .report hkind node message
  | reportMisnamed bad node message => exact .reportMisnamed bad node message
  | reportMissing name node =>
    refine .bind (.noteMissing name) fun isNew => ?_
    cases isNew with
    | true => exact .report (by decide) node _
    | false => exact fun _ => rfl
  | reportUndefined name node =>
    refine .bind (.report (by decide) node _) fun _ => .bind (fun _ => rfl) fun muted => ?_
    split
    · exact .of_apart fun _ _ _ _ _ _ => rfl
    · exact fun _ => rfl
  | registerFunction name f =>
    intro c
    rw [registerFunction_run, registerFunction_run]
    rfl
  | reviseFunction given name f =>
    intro c
    rw [reviseFunction_run, reviseFunction_run,
      Checker.revising_map v.checker rfl fun _ => rfl]
    rfl
  | @configured _ f hsame _ ih =>
    intro c
    show f (v.config c.session.config).analyzer setting (v.checker c) =
      v.result (f c.session.config.analyzer setting c)
    rw [v.analyzer, hsame]
    exact ih _ c
  | autoload name => exact .onSession (hl.autoload name)
  | includeFile path once => exact .onSession (hl.includeFile path once)
  | pure | currentFile | currentDir | registry | resolveInclude? _ | modifyRegistry _ _ =>
    exact fun _ => rfl

end PhpCheck
