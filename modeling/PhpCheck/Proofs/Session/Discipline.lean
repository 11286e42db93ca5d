import PhpCheck.Proofs.Check.Effect
import PhpCheck.Proofs.Session.Sound

/-!
Whatever files a session is asked for, and whatever these load in turn, files are
analyzed in good order.

Loading a file inside of another one gives the session back as it was, but for outcomes
of files that had none (`Session.Nested`).  That is shown for loads with a bound on how
deep they go, by induction on the bound: the analysis of a file is put together from
steps that do nothing else to the session, if loads with the smaller bound do nothing
else.  `Session.discipline` is about all calls in any order.
-/

namespace PhpCheck

namespace Session

/-- A session after a file was analyzed.  Nothing but its outcome was replaced. -/
structure Returns (path : String) (s t : Session) : Prop where
  config : t.config = s.config
  inProgress : t.inProgress = s.inProgress
  depth : t.depth = s.depth
  kept : ∀ p outcome, p ≠ path → s.results.get? p = some outcome →
    t.results.get? p = some outcome
  pending : ∀ p ∈ s.inProgress, t.results.get? p = s.results.get? p

/-- A session after files were loaded, while others are under analysis.  Nothing was
replaced. -/
structure Resumes (s t : Session) : Prop where
  config : t.config = s.config
  inProgress : t.inProgress = s.inProgress
  depth : t.depth = s.depth
  kept : ∀ p outcome, s.results.get? p = some outcome → t.results.get? p = some outcome
  pending : ∀ p ∈ s.inProgress, t.results.get? p = s.results.get? p

/-- What loading files does to a session. -/
def Nested (s t : Session) : Prop := s.Sound → t.Sound ∧ s.Resumes t

theorem Resumes.refl (s : Session) : s.Resumes s :=
  ⟨rfl, rfl, rfl, fun _ _ h => h, fun _ _ => rfl⟩

theorem Resumes.trans {s t u : Session} (hst : s.Resumes t) (htu : t.Resumes u) : s.Resumes u := by
  refine ⟨htu.config.trans hst.config, htu.inProgress.trans hst.inProgress,
    htu.depth.trans hst.depth, fun p outcome hp => htu.kept p outcome (hst.kept p outcome hp), ?_⟩
  intro p hp
  have hlater := htu.pending p (hst.inProgress ▸ hp)
  rw [hlater, hst.pending p hp]

/-- A file without an outcome was loaded. -/
theorem Returns.resumes {s t : Session} {path : String} (hr : s.Returns path t)
    (hfresh : s.results.contains path = false) : s.Resumes t := by
  refine ⟨hr.config, hr.inProgress, hr.depth, fun p outcome hp => ?_, hr.pending⟩
  refine hr.kept p outcome (fun heq => ?_) hp
  rw [heq] at hp
  rw [Table.contains, hp] at hfresh
  cases hfresh

theorem Sound.modifyRegistry {s : Session} (hs : s.Sound) (f : Registry → Registry) :
    (s.modifyRegistry f).Sound :=
  ⟨hs.orderly, hs.current, hs.depth_eq, hs.nodup, hs.depth_le, hs.order_nodup, hs.mem_order,
    hs.loaded, hs.stored, hs.unsettled⟩

theorem Sound.attempt {s : Session} (hs : s.Sound) (key : String) : (s.attempt key).Sound :=
  ⟨hs.orderly, hs.current, hs.depth_eq, hs.nodup, hs.depth_le, hs.order_nodup, hs.mem_order,
    hs.loaded, hs.stored, hs.unsettled⟩

theorem passage_nested : Passage Nested where
  refl s hs := ⟨hs, .refl s⟩
  trans hst htu hs := by
    obtain ⟨ht, hst⟩ := hst hs
    obtain ⟨hu, htu⟩ := htu ht
    exact ⟨hu, hst.trans htu⟩
  registry s f hs := ⟨hs.modifyRegistry f, rfl, rfl, rfl, fun _ _ h => h, fun _ _ => rfl⟩

/-! ### Analyzing a file -/

/-- An analysis keeps sessions sound, and gives them back. -/
def Analysis.Orderly (analyze : Analysis) : Prop :=
  ∀ path source cause (s : Session), s.Sound → s.Admits path cause →
    (analyze path source cause s).2.Sound ∧ s.Returns path (analyze path source cause s).2

theorem nested_checkSource {loads : Loads} (hl : loads.Within Nested) (s : Session)
    (path source : String) (included : Bool) :
    s.Nested (s.checkSource loads path source included).2 := by
  rw [checkSource]
  cases parseSource path source with
  | ok root => exact passage_checkTree passage_nested hl s path root included
  | error found => exact passage_nested.refl s

theorem orderly_run {loads : Loads} (hl : loads.Within Nested) :
    Analysis.Orderly fun path source cause s => s.run loads path source cause := by
  intro path source cause s hs ha
  have hnested := nested_checkSource hl (s.enter path cause) path source cause.isInclude
  dsimp only [run]
  generalize (s.enter path cause).checkSource loads path source cause.isInclude = result
    at hnested ⊢
  obtain ⟨outcome, t⟩ := result
  obtain ⟨ht, hr⟩ := hnested (hs.enter ha)
  dsimp only at ht hr ⊢
  have hin : t.inProgress = path :: s.inProgress := hr.inProgress
  refine ⟨ht.leave hin outcome, hr.config, ?_, ?_, ?_, ?_⟩
  · show t.inProgress.filter (· != path) = s.inProgress
    rw [hin, filter_ne_cons ha.notInProgress]
  · show t.depth - 1 = s.depth
    rw [hr.depth]
    show s.depth + 1 - 1 = s.depth
    omega
  · intro p outcome' hne hp
    show (t.results.insert path outcome).get? p = some outcome'
    rw [Table.get?_insert, if_neg (Ne.symm hne)]
    exact hr.kept p outcome' hp
  · intro p hp
    show (t.results.insert path outcome).get? p = s.results.get? p
    have hne : path ≠ p := fun heq => ha.notInProgress (heq ▸ hp)
    rw [Table.get?_insert, if_neg hne]
    exact hr.pending p (List.mem_cons_of_mem _ hp)

/-! ### Loading files -/

theorem admits_of_load {s : Session} {path : String} {cause : Cause}
    (hin : s.isInProgress path = false) (hdepth : s.isExhausted = false)
    (hfresh : s.results.contains path = false) : s.Admits path cause := by
  refine ⟨?_, ?_, ?_, fun _ => hfresh⟩
  · intro hmem
    rw [isInProgress, List.contains_iff_mem.2 hmem] at hin
    cases hin
  · rw [isExhausted, decide_eq_false_iff_not] at hdepth
    have hlt : s.depth < s.limit := by
      rw [limit]
      omega
    omega
  · intro outcome hresult
    rw [Table.contains, hresult] at hfresh
    cases hfresh

/-- Looking for a name leaves the session as it is, or analyzes a file that may be
entered.  Which of these it does not depend on how files are analyzed. -/
theorem loadClassBy_cases (name : String) (s : Session) :
    (∀ analyze, loadClassBy analyze name s = (false, s)) ∨
      ∃ path source, s.Admits path .autoloaded ∧ s.results.contains path = false ∧
        ∀ analyze, loadClassBy analyze name s = (true, (analyze path source .autoloaded s).2) := by
  unfold loadClassBy
  by_cases hdepth : s.isExhausted = true
  · exact .inl fun _ => if_pos hdepth
  simp only [hdepth, if_false, Bool.false_eq_true]
  cases (s.loader.classFile? (unrooted name)).map Path.normalize with
  | none => exact .inl fun _ => rfl
  | some path =>
    dsimp only
    by_cases hpath : (s.results.contains path || s.isInProgress path) = true
    · exact .inl fun _ => if_pos hpath
    simp only [hpath, if_false, Bool.false_eq_true]
    rw [Bool.not_eq_true, Bool.or_eq_false_iff] at hpath
    cases s.loader.read path with
    | error e => exact .inl fun _ => rfl
    | ok source =>
      have hadmits : s.Admits path .autoloaded :=
        admits_of_load hpath.2 (by simpa using hdepth) hpath.1
      exact .inr ⟨path, source, hadmits, hpath.1, fun _ => rfl⟩

/-- Including a file leaves the session as it is, or analyzes the file, which may be
entered. -/
theorem includeBy_cases (path : String) (once : Bool) (s : Session) :
    (∃ outcome, ∀ analyze, includeBy analyze path once s = (outcome, s)) ∨
      ∃ key source, s.Admits key .included ∧ s.results.contains key = false ∧
        ∀ analyze, includeBy analyze path once s =
          let (outcome, t) := analyze key source .included s
          (if outcome.report.isAborted then .failed else .analyzed outcome.value, t) := by
  unfold includeBy
  dsimp only
  generalize Path.normalize path = key
  by_cases hin : s.isInProgress key = true
  · exact .inl ⟨_, fun _ => if_pos hin⟩
  simp only [hin, if_false, Bool.false_eq_true]
  cases hresult : s.results.get? key with
  | some outcome => exact .inl ⟨_, fun _ => rfl⟩
  | none =>
    have hfresh : s.results.contains key = false := by rw [Table.contains, hresult]; rfl
    dsimp only
    by_cases hdepth : s.isExhausted = true
    · exact .inl ⟨_, fun _ => if_pos hdepth⟩
    simp only [hdepth, if_false, Bool.false_eq_true]
    cases s.loader.read key with
    | error e => exact .inl ⟨_, fun _ => rfl⟩
    | ok source =>
      have hadmits : s.Admits key .included :=
        admits_of_load (by simpa using hin) (by simpa using hdepth) hfresh
      exact .inr ⟨key, source, hadmits, hfresh, fun _ => rfl⟩

theorem nested_autoloadBy {analyze : Analysis} (ha : analyze.Orderly) (name : String)
    (s : Session) : s.Nested (autoloadBy analyze name s).2 := by
  intro hs
  rw [autoloadBy]
  by_cases hknown : s.attempted.contains (symbolKey name) = true
  · rw [if_pos hknown]
    exact passage_nested.refl s hs
  rw [if_neg hknown]
  have ht := hs.attempt (symbolKey name)
  have hresumes : s.Resumes (s.attempt (symbolKey name)) :=
    ⟨rfl, rfl, rfl, fun _ _ h => h, fun _ _ => rfl⟩
  rcases loadClassBy_cases name (s.attempt (symbolKey name)) with
    hsame | ⟨path, source, had, hf, hload⟩
  · rw [hsame]
    exact ⟨ht, hresumes⟩
  · rw [hload]
    obtain ⟨hafter, hreturns⟩ := ha path source .autoloaded _ ht had
    exact ⟨hafter, hresumes.trans (hreturns.resumes hf)⟩

theorem nested_includeBy {analyze : Analysis} (ha : analyze.Orderly) (path : String)
    (once : Bool) (s : Session) : s.Nested (includeBy analyze path once s).2 := by
  intro hs
  rcases includeBy_cases path once s with ⟨outcome, hsame⟩ | ⟨key, source, had, hf, hload⟩
  · rw [hsame]
    exact passage_nested.refl s hs
  · rw [hload]
    obtain ⟨hafter, hreturns⟩ := ha key source .included s hs had
    exact ⟨hafter, hreturns.resumes hf⟩

theorem within_nested {analyze : Analysis} (ha : analyze.Orderly) :
    (loadsBy analyze).Within Nested :=
  ⟨nested_autoloadBy ha, nested_includeBy ha⟩

theorem orderly_analyzeWithin (depth : Nat) : (analyzeWithin depth).Orderly := by
  induction depth with
  | zero =>
    intro path source cause s hs ha
    exact ⟨hs, rfl, rfl, rfl, fun _ _ _ h => h, fun _ _ => rfl⟩
  | succ depth ih => exact orderly_run (within_nested ih)

theorem orderly_analyze : analyze.Orderly := by
  intro path source cause s
  exact orderly_analyzeWithin _ path source cause s

/-! ### Calls -/

/-- What a session may be asked to do. -/
inductive Call where
  | source (path source : String)
  | file (path : String)
  | autoload (name : String)

/-- The session after a call. -/
def perform (s : Session) : Call → Session
  | .source path source => (s.analyzeSource path source).2
  | .file path => (s.analyzeFile path).2
  | .autoload name => (s.autoload name).2

def performAll (s : Session) (calls : List Call) : Session := calls.foldl perform s

/-- A sound session that analyzes nothing. -/
structure Idle (s : Session) : Prop where
  sound : s.Sound
  inProgress : s.inProgress = []

/-- A session after calls.  Outcomes of files that were analyzed for themselves stay. -/
structure Settles (s t : Session) : Prop where
  config : t.config = s.config
  kept : ∀ p outcome, s.results.get? p = some outcome → outcome.included = false →
    t.results.get? p = some outcome

theorem Settles.refl (s : Session) : s.Settles s := ⟨rfl, fun _ _ h _ => h⟩

theorem Settles.trans {s t u : Session} (hst : s.Settles t) (htu : t.Settles u) : s.Settles u :=
  ⟨htu.config.trans hst.config, fun p outcome hp hown =>
    htu.kept p outcome (hst.kept p outcome hp hown) hown⟩

theorem directReport?_eq_some {s : Session} {path : String} {outcome : FileOutcome}
    (hresult : s.results.get? path = some outcome) (hown : outcome.included = false) :
    s.directReport? path = some outcome.report := by
  rw [directReport?, hresult, Option.filter_some, if_pos (by simp [hown])]
  rfl

/-- A file that has no outcome of its own is asked for. -/
theorem Idle.analyze {s : Session} (hs : s.Idle) {path : String}
    (hnone : s.directReport? path = none) (source : String) :
    (Session.analyze path source .direct s).2.Idle ∧
      s.Settles (Session.analyze path source .direct s).2 := by
  have hunsettled : ∀ outcome, s.results.get? path = some outcome → outcome.included = true := by
    intro outcome hresult
    cases hown : outcome.included with
    | true => rfl
    | false =>
      rw [directReport?_eq_some hresult hown] at hnone
      cases hnone
  have hdepth : s.depth < max 1 s.limit := by
    have hlength := hs.sound.depth_eq
    rw [hs.inProgress, List.length_nil] at hlength
    omega
  have hadmits : s.Admits path .direct := by
    refine ⟨?_, hdepth, hunsettled, fun h => absurd rfl h⟩
    rw [hs.inProgress]
    exact List.not_mem_nil
  obtain ⟨hsound, hreturns⟩ := orderly_analyze path source .direct s hs.sound hadmits
  refine ⟨⟨hsound, hreturns.inProgress.trans hs.inProgress⟩, hreturns.config, ?_⟩
  intro p outcome hp hown
  refine hreturns.kept p outcome (fun heq => ?_) hp
  rw [hunsettled outcome (heq ▸ hp)] at hown
  cases hown

theorem Idle.perform {s : Session} (hs : s.Idle) (call : Call) :
    (s.perform call).Idle ∧ s.Settles (s.perform call) := by
  cases call with
  | source path source =>
    rw [Session.perform, analyzeSource]
    cases hreport : s.directReport? (Path.normalize path) with
    | some report => exact ⟨hs, .refl s⟩
    | none => exact hs.analyze hreport source
  | file path =>
    rw [Session.perform, analyzeFile]
    cases hreport : s.directReport? (Path.normalize path) with
    | some report => exact ⟨hs, .refl s⟩
    | none =>
      dsimp only
      by_cases hin : s.isInProgress (Path.normalize path) = true
      · rw [if_pos hin]
        exact ⟨hs, .refl s⟩
      rw [if_neg hin]
      cases s.loader.read (Path.normalize path) with
      | error e => exact ⟨hs, .refl s⟩
      | ok source => exact hs.analyze hreport source
  | autoload name =>
    rw [Session.perform, Session.autoload]
    obtain ⟨hsound, hresumes⟩ := nested_autoloadBy orderly_analyze name s hs.sound
    exact ⟨⟨hsound, hresumes.inProgress.trans hs.inProgress⟩, hresumes.config,
      fun p outcome hp _ => hresumes.kept p outcome hp⟩

theorem Idle.performAll {s : Session} (hs : s.Idle) (calls : List Call) :
    (s.performAll calls).Idle ∧ s.Settles (s.performAll calls) := by
  induction calls generalizing s with
  | nil => exact ⟨hs, .refl s⟩
  | cons call calls ih =>
    obtain ⟨hnext, hsettles⟩ := hs.perform call
    obtain ⟨hlast, hrest⟩ := ih hnext
    exact ⟨hlast, hsettles.trans hrest⟩

/-- After any calls, and whatever was analyzed in the course of them: nothing is under
analysis; at every moment of the journal the depth was the number of files under
analysis, within its bound, and no file was entered that was under analysis or had an
outcome of its own; the order lists the files with an outcome; no file was included or
autoloaded twice; and an outcome that is not that of an include stays, and is what
further calls report. -/
theorem discipline (config : Config) (loader : Loader) (order : ClassInfo.Order)
    (calls : List Call) :
    let s := (start config loader order).performAll calls
    (s.depth = 0 ∧ s.inProgress = []) ∧
    (∀ m earlier, m :: earlier <:+ s.journal →
      (m.depth = m.inProgress.length ∧ m.inProgress.Nodup ∧
        m.depth ≤ max 1 config.analyzer.maxLoadDepth) ∧
      ∀ path cause, m.event = .entered path cause → path ∉ filesAt earlier ∧
        ∀ m' ∈ earlier, ∀ outcome, m'.event = .left path outcome → outcome.included = true) ∧
    (s.order.Nodup ∧ ∀ path, path ∈ s.order ↔ s.results.contains path = true) ∧
    (loadedFiles s.journal).Nodup ∧
    ∀ key outcome, s.results.get? key = some outcome → outcome.included = false →
      (∀ later, (s.performAll later).results.get? key = some outcome) ∧
      ∀ path, Path.normalize path = key →
        (∀ source, (s.analyzeSource path source).1 = outcome.report) ∧
        (s.analyzeFile path).1 = .ok outcome.report := by
  intro s
  have hstart : (start config loader order).Idle := ⟨sound_start config loader order, rfl⟩
  obtain ⟨hidle, hsettles⟩ := hstart.performAll calls
  have hsound := hidle.sound
  have hlimit : s.limit = config.analyzer.maxLoadDepth := by
    rw [limit, hsettles.config]
    rfl
  refine ⟨⟨?_, hidle.inProgress⟩, ?_, ⟨hsound.order_nodup, hsound.mem_order⟩,
    hsound.orderly.nodup_loadedFiles, ?_⟩
  · rw [hsound.depth_eq, hidle.inProgress, List.length_nil]
  · intro m earlier hsuffix
    have hm := hsound.orderly m earlier hsuffix
    refine ⟨⟨hm.depth_eq, hm.nodup, hlimit ▸ hm.depth_le⟩, fun path cause hevent => ?_⟩
    exact ⟨(hm.entered path cause hevent).1, hm.settled path cause hevent⟩
  · intro key outcome hresult hown
    refine ⟨fun later => (hidle.performAll later).2.kept key outcome hresult hown, ?_⟩
    rintro path rfl
    have hreport := directReport?_eq_some hresult hown
    constructor
    · intro source
      rw [analyzeSource, hreport]
    · rw [analyzeFile, hreport]

end Session

end PhpCheck
