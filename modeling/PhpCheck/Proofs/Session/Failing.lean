import PhpCheck.Proofs.Check.Findings
import PhpCheck.Proofs.Report.Order
import PhpCheck.Proofs.Session.Request

/-!
Including a file whose analysis was broken off.

The first include of such a file fails.  But it leaves an outcome behind, with the type of an
unknown value (`Session.checkSource_broken`), and further includes look for an outcome only.  So
none of them fails (`Session.include_after_failure`), whatever the session does in between, as long
as the file is not asked for by itself (`Session.Later`).
-/

namespace PhpCheck

namespace Session

/-! ### Broken analyses -/

/-- The analysis of a tree that was broken off has no value. -/
theorem checkTree_broken {s : Session} {loads : Loads} {path : String} {root : Node}
    {included : Bool} (hbroken : (s.checkTree loads path root included).1.report.isAborted = true) :
    (s.checkTree loads path root included).1.value = .mixed := by
  revert hbroken
  unfold checkTree
  dsimp only [ReaderT.run, EStateM.run]
  split
  · rename_i value c' hrun
    intro hbroken
    obtain ⟨d, hd, hfatal⟩ := List.any_eq_true.1 hbroken
    have hfound : d ∈ c'.diagnostics := mem_tidy.1 (List.mem_mergeSort.1 hd)
    have hmild := (Check.composite_file root).unbroken hrun nofun d hfound
    rw [hmild] at hfatal
    cases hfatal
  · exact fun _ => rfl

theorem checkSource_broken {s : Session} {loads : Loads} {path source : String} {included : Bool}
    (hbroken : (s.checkSource loads path source included).1.report.isAborted = true) :
    (s.checkSource loads path source included).1.value = .mixed := by
  revert hbroken
  unfold checkSource
  cases parseSource path source with
  | ok root => exact checkTree_broken
  | error found => exact fun _ => rfl

/-! ### Later sessions -/

/-- A session later on, between two requests or in the midst of an analysis.  Classes became known
and were looked for, and files were entered and left, but `key` was not asked for by itself, and
was not loaded where it has an outcome. -/
inductive Later (key : String) (s : Session) : Session → Prop
  | now : Later key s s
  | registry {t : Session} (h : Later key s t) (f : Registry → Registry) :
      Later key s (t.modifyRegistry f)
  | attempt {t : Session} (h : Later key s t) (name : String) : Later key s (t.attempt name)
  | enter {t : Session} (h : Later key s t) {path : String} {cause : Cause}
      (hkey : path = key → cause ≠ .direct ∧ t.results.contains key = false) :
      Later key s (t.enter path cause)
  | leave {t : Session} (h : Later key s t) {path : String} (outcome : FileOutcome)
      (hin : path ∈ t.inProgress) : Later key s (t.leave path outcome)

section

variable {key : String} {s t u : Session}

theorem Later.trans (hst : s.Later key t) (htu : t.Later key u) : s.Later key u := by
  induction htu with
  | now => exact hst
  | registry _ f ih => exact .registry ih f
  | attempt _ name ih => exact .attempt ih name
  | enter _ hkey ih => exact .enter ih hkey
  | leave _ outcome hin ih => exact .leave ih outcome hin

/-- A file that has an outcome and is not under analysis stays like that. -/
theorem Later.settled (hst : s.Later key t) (hidle : key ∉ s.inProgress) {outcome : FileOutcome}
    (houtcome : s.results.get? key = some outcome) :
    key ∉ t.inProgress ∧ t.results.get? key = some outcome := by
  induction hst with
  | now => exact ⟨hidle, houtcome⟩
  | registry _ f ih => exact ih
  | attempt _ name ih => exact ih
  | @enter t _ path cause hkey ih =>
    have hne : key ≠ path := by
      intro heq
      have hnone := (hkey heq.symm).2
      rw [Table.contains, ih.2] at hnone
      cases hnone
    exact ⟨List.not_mem_cons_of_ne_of_not_mem hne ih.1, ih.2⟩
  | @leave t _ path other hin ih =>
    have hne : path ≠ key := fun heq => ih.1 (heq ▸ hin)
    refine ⟨fun hmem => ih.1 (List.mem_filter.1 hmem).1, ?_⟩
    show (t.results.insert path other).get? key = some outcome
    rw [Table.get?_insert, if_neg hne]
    exact ih.2

/-! ### What sessions do -/

/-- A later session in which all files are still under analysis that were. -/
structure Carries (key : String) (s t : Session) : Prop where
  later : s.Later key t
  inProgress : s.inProgress ⊆ t.inProgress

theorem passage_carries (key : String) : Passage (Carries key) where
  refl _ := ⟨.now, List.Subset.refl _⟩
  trans hst htu := ⟨hst.later.trans htu.later, fun _ hp => htu.inProgress (hst.inProgress hp)⟩
  registry _ f := ⟨.registry .now f, List.Subset.refl _⟩

/-- An analysis of a file that may be entered, for another file or for a name, carries on. -/
def Analysis.Carries (key : String) (analyze : Analysis) : Prop :=
  ∀ path source cause (s : Session), s.Admits path cause → (path = key → cause ≠ .direct) →
    Session.Carries key s (analyze path source cause s).2

theorem carries_checkSource {loads : Loads} (hl : loads.Within (Carries key)) (s : Session)
    (path source : String) (included : Bool) :
    Carries key s (s.checkSource loads path source included).2 := by
  unfold checkSource
  cases parseSource path source with
  | ok root => exact passage_checkTree (passage_carries key) hl s path root included
  | error found => exact (passage_carries key).refl s

/-- A file is entered, checked and left. -/
theorem later_run {loads : Loads} (hl : loads.Within (Carries key)) {path : String} {cause : Cause}
    (hkey : path = key → cause ≠ .direct ∧ s.results.contains key = false) (source : String) :
    s.Later key (s.run loads path source cause).2 := by
  have hchecked := carries_checkSource hl (s.enter path cause) path source cause.isInclude
  have hentered : s.Later key (s.enter path cause) := .enter .now hkey
  exact .leave (hentered.trans hchecked.later) _ (hchecked.inProgress List.mem_cons_self)

theorem carries_run {loads : Loads} (hl : loads.Within (Carries key)) :
    Analysis.Carries key fun path source cause s => s.run loads path source cause := by
  intro path source cause s had hkey
  have hfresh : path = key → cause ≠ .direct ∧ s.results.contains key = false := by
    rintro rfl
    exact ⟨hkey rfl, had.fresh (hkey rfl)⟩
  refine ⟨later_run hl hfresh source, fun p hp => ?_⟩
  have hchecked := carries_checkSource hl (s.enter path cause) path source cause.isInclude
  have hne : p ≠ path := fun heq => had.notInProgress (heq ▸ hp)
  exact List.mem_filter.2 ⟨hchecked.inProgress (List.mem_cons_of_mem _ hp), by simpa using hne⟩

theorem within_carries {analyze : Analysis} (ha : analyze.Carries key) :
    (loadsBy analyze).Within (Carries key) := by
  have hattempt : ∀ (s : Session) name, Carries key s (s.attempt name) := fun s name =>
    ⟨.attempt .now name, List.Subset.refl _⟩
  refine ⟨fun name s => ?_, fun path once s => ?_⟩
  · show Carries key s (autoloadBy analyze name s).2
    unfold autoloadBy
    dsimp only
    split
    · exact (passage_carries key).refl s
    · refine (passage_carries key).trans (hattempt s (symbolKey name)) ?_
      rcases loadClassBy_cases name (s.attempt (symbolKey name)) with
        hsame | ⟨path, source, had, -, hload⟩
      · rw [hsame]
        exact (passage_carries key).refl _
      · rw [hload]
        exact ha path source .autoloaded _ had nofun
  · show Carries key s (includeBy analyze path once s).2
    rcases includeBy_cases path once s with ⟨outcome, hsame⟩ | ⟨path', source, had, -, hload⟩
    · rw [hsame]
      exact (passage_carries key).refl s
    · rw [hload]
      exact ha path' source .included s had nofun

theorem carries_analyzeWithin (key : String) (depth : Nat) : (analyzeWithin depth).Carries key := by
  induction depth with
  | zero => exact fun _ _ _ s _ _ => (passage_carries key).refl s
  | succ depth ih => exact carries_run (within_carries ih)

/-- Loading files carries on. -/
theorem within_loads_carries (key : String) : loads.Within (Carries key) :=
  within_carries fun path source cause s => carries_analyzeWithin key _ path source cause s

/-- The session behind the check of a node is a later one. -/
theorem later_visit (key : String) {setting : Setting} (hloads : setting.loads = loads)
    (node : Node) (c : Checker) :
    c.session.Later key ((Check.visit node).after setting c).session :=
  ((Check.composite_visit node).passage (passage_carries key)
    (hloads ▸ within_loads_carries key) c).later

/-- The file that is asked for. -/
def Request.file? : Request → Option String
  | .source path _ | .file path | .tree path _ => some (Path.normalize path)
  | .autoload _ | .edit _ => none

theorem later_analyze (key : String) {path : String} (hne : path ≠ key) (source : String)
    (s : Session) : s.Later key (analyze path source .direct s).2 :=
  later_run (within_carries (carries_analyzeWithin key s.config.analyzer.maxLoadDepth))
    (fun heq => absurd heq hne) source

/-- The session behind a request is a later one, unless the file is asked for. -/
theorem later_serve {request : Request} (hother : request.file? ≠ some key) (s : Session) :
    s.Later key (s.serve request).2 := by
  cases request with
  | source path source =>
    have hne : Path.normalize path ≠ key := fun heq => hother (congrArg some heq)
    show s.Later key (s.analyzeSource path source).2
    unfold analyzeSource
    dsimp only
    cases s.directReport? (Path.normalize path) with
    | some report => exact .now
    | none => exact later_analyze key hne source s
  | file path =>
    have hne : Path.normalize path ≠ key := fun heq => hother (congrArg some heq)
    have hsame : (s.serve (.file path)).2 = (s.analyzeFile path).2 := by
      unfold serve
      dsimp only
      split <;> rename_i hrun <;> rw [hrun]
    rw [hsame]
    unfold analyzeFile
    dsimp only
    cases s.directReport? (Path.normalize path) with
    | some report => exact .now
    | none =>
      dsimp only
      split
      · exact .now
      · cases s.loader.read (Path.normalize path) with
        | ok source => exact later_analyze key hne source s
        | error e => exact .now
  | tree path root =>
    have hne : Path.normalize path ≠ key := fun heq => hother (congrArg some heq)
    have hchecked := passage_checkTree (passage_carries key) (within_loads_carries key)
      (s.enter (Path.normalize path) .direct) (Path.normalize path) root false
    have hentered : s.Later key (s.enter (Path.normalize path) .direct) :=
      .enter .now fun heq => absurd heq hne
    exact .leave (hentered.trans hchecked.later) _ (hchecked.inProgress List.mem_cons_self)
  | autoload name => exact ((within_loads_carries key).autoload name s).later
  | edit change => exact .registry .now change

end

/-! ### Includes -/

/-- A failed include of a file that has an outcome then was its first analysis. -/
theorem include_failed {s t : Session} {path : String} {once : Bool} {outcome : FileOutcome}
    (hfailed : loads.includeFile path once s = (.failed, t))
    (houtcome : t.results.get? (Path.normalize path) = some outcome) :
    Path.normalize path ∉ t.inProgress ∧ outcome.value = .mixed := by
  have hrun : includeBy analyze path once s = (.failed, t) := hfailed
  unfold includeBy at hrun
  dsimp only at hrun
  split at hrun
  · cases hrun
  · split at hrun
    · split at hrun <;> cases hrun
    · rename_i hnone
      have hnew : s ≠ t := by
        rintro rfl
        rw [hnone] at houtcome
        cases houtcome
      split at hrun
      · exact absurd (congrArg Prod.snd hrun) hnew
      · split at hrun
        · rename_i source _
          let checked := (s.enter (Path.normalize path) .included).checkSource
            (loadsBy (analyzeWithin s.config.analyzer.maxLoadDepth)) (Path.normalize path) source
            true
          have hleft : checked.2.leave (Path.normalize path) checked.1 = t := congrArg Prod.snd hrun
          have hbroken : checked.1.report.isAborted = true := by
            by_contra hwhole
            have hanswer : (if checked.1.report.isAborted then IncludeOutcome.failed
              else .analyzed checked.1.value) = .failed := congrArg Prod.fst hrun
            rw [if_neg hwhole] at hanswer
            cases hanswer
          rw [← hleft] at houtcome ⊢
          have hstored : (checked.2.results.insert (Path.normalize path) checked.1).get?
            (Path.normalize path) = some outcome := houtcome
          rw [Table.get?_insert, if_pos rfl] at hstored
          cases hstored
          refine ⟨fun hin => ?_, checkSource_broken hbroken⟩
          simpa using (List.mem_filter.1 hin).2
        · exact absurd (congrArg Prod.snd hrun) hnew

/-- Where a file has an outcome and is not under analysis, an include of it finds the outcome. -/
theorem include_stored {s : Session} {path : String} {outcome : FileOutcome}
    (hidle : Path.normalize path ∉ s.inProgress)
    (houtcome : s.results.get? (Path.normalize path) = some outcome) :
    loads.includeFile path false s = (.analyzed outcome.value, s) := by
  show includeBy analyze path false s = _
  unfold includeBy isInProgress
  dsimp only
  rw [if_neg (by simpa using hidle), houtcome]
  rfl

/-- A file that is new to the session is analyzed. -/
theorem include_read {s : Session} {path source : String} {once : Bool}
    (hidle : s.isInProgress (Path.normalize path) = false)
    (hnew : s.results.get? (Path.normalize path) = none) (hroom : s.isExhausted = false)
    (hread : s.loader.read (Path.normalize path) = .ok source) :
    loads.includeFile path once s =
      let checked := analyze (Path.normalize path) source .included s
      (if checked.1.report.isAborted then .failed else .analyzed checked.1.value, checked.2) := by
  show includeBy analyze path once s = _
  unfold includeBy
  simp only [hidle, hnew, hroom, hread, Bool.false_eq_true, if_false]

/-- After an include that failed because of what was found in the file, the file is included
without a failure, with an unknown value, in all later sessions.  These are also the sessions
during and behind the check of any node, and behind any request that does not ask for the
file. -/
theorem include_after_failure {s t : Session} {path : String}
    (hfailed : loads.includeFile path false s = (.failed, t))
    (hfatal : ∃ outcome, t.results.get? (Path.normalize path) = some outcome ∧
      outcome.report.isAborted = true) :
    (∀ u, t.Later (Path.normalize path) u → Path.normalize path ∉ u.inProgress ∧
      ∀ again, Path.normalize again = Path.normalize path →
        loads.includeFile again false u = (.analyzed .mixed, u)) ∧
    (∀ setting node c, setting.loads = loads → t.Later (Path.normalize path) c.session →
      t.Later (Path.normalize path) ((Check.visit node).after setting c).session) ∧
    ∀ u request, t.Later (Path.normalize path) u → request.file? ≠ some (Path.normalize path) →
      t.Later (Path.normalize path) (u.serve request).2 := by
  obtain ⟨outcome, houtcome, -⟩ := hfatal
  obtain ⟨hidle, hvalue⟩ := include_failed hfailed houtcome
  refine ⟨fun u hu => ?_, fun setting node c hloads hc => hc.trans (later_visit _ hloads node c),
    fun u request hu hother => hu.trans (later_serve hother u)⟩
  obtain ⟨hidle, houtcome⟩ := hu.settled hidle houtcome
  refine ⟨hidle, fun again heq => ?_⟩
  rw [← heq] at hidle houtcome
  rw [include_stored hidle houtcome, hvalue]

/-- A text that cannot be read. -/
def unreadable : String := "<?php ("

theorem parseSource_unreadable (path : String) :
    ∃ d found, parseSource path unreadable = .error (d :: found) ∧ d.kind.isFatal = true := by
  have herrors : (parse (Source.ofString unreadable)).2.isEmpty = false := by decide +kernel
  unfold parseSource
  generalize parse (Source.ofString unreadable) = result at herrors ⊢
  obtain ⟨root, errors⟩ := result
  cases errors with
  | nil => cases herrors
  | cons e errors => exact ⟨_, _, rfl, rfl⟩

/-- A session for files that cannot be read. -/
def unreading : Session where
  registry := {}
  loader := { Loader.none with read := fun _ => .ok unreadable }
  config := {}

/-- The file is included twice, and the second time it is no failure. -/
theorem include_after_failure_twice :
    let s := (loads.includeFile "/b.php" false unreading).2
    (loads.includeFile "/b.php" false unreading).1 = .failed ∧
      loads.includeFile "/b.php" false s = (.analyzed .mixed, s) := by
  obtain ⟨d, found, hread, hkind⟩ := parseSource_unreadable (Path.normalize "/b.php")
  let outcome : FileOutcome :=
    { report := .ofDiagnostics (Path.normalize "/b.php") (d :: found), value := .mixed
      included := true }
  let entered := unreading.enter (Path.normalize "/b.php") .included
  let t := entered.leave (Path.normalize "/b.php") outcome
  have hbroken : outcome.report.isAborted = true :=
    List.any_eq_true.2 ⟨d, List.mem_cons_self, hkind⟩
  have hrun : analyze (Path.normalize "/b.php") unreadable .included unreading = (outcome, t) := by
    show run unreading (loadsBy (analyzeWithin unreading.config.analyzer.maxLoadDepth))
      (Path.normalize "/b.php") unreadable .included = _
    rw [run, checkSource, hread]
    rfl
  have hfailed : loads.includeFile "/b.php" false unreading = (.failed, t) := by
    rw [include_read rfl rfl rfl rfl, hrun]
    dsimp only
    rw [if_pos hbroken]
  have houtcome : t.results.get? (Path.normalize "/b.php") = some outcome :=
    (Table.get?_insert _ _ _ _).trans (if_pos rfl)
  rw [hfailed]
  exact ⟨rfl, ((include_after_failure hfailed ⟨outcome, houtcome, hbroken⟩).1 t .now).2 _ rfl⟩

end Session

end PhpCheck
