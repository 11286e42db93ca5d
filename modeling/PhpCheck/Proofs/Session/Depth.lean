import PhpCheck.Proofs.Session.Discipline

/-!
The bound on how deep files load one another is never what ends an analysis.

`Session.analyze` allows for one file more than a session may have under analysis at a
time.  A file that is loaded where this allowance is used up would not be analyzed, but
the session has refused it before.  So an analysis is the run whose loads are analyses
of the same kind (`Session.analyze_eq_run`), with no bound to be seen.
-/

namespace PhpCheck

/-- Two ways to load files do the same in some sessions. -/
structure Loads.Agree (I : Session → Prop) (l₁ l₂ : Loads) : Prop where
  autoload : ∀ name s, I s → l₁.autoload name s = l₂.autoload name s
  includeFile : ∀ path once s, I s → l₁.includeFile path once s = l₂.includeFile path once s

variable {I : Session → Prop}

/-- A step does the same in two settings, in some sessions. -/
def Check.Agrees {α : Type} (I : Session → Prop) (s₁ s₂ : Setting) (m : Check α) : Prop :=
  ∀ c, I c.session → m s₁ c = m s₂ c

theorem Check.Agrees.bind {α β : Type} {m : Check α} {f : α → Check β} {s₁ s₂ : Setting}
    (hkept : m.Passes (fun s t => I s → I t) s₁) (hm : m.Agrees I s₁ s₂)
    (hf : ∀ a, (f a).Agrees I s₁ s₂) : (m >>= f).Agrees I s₁ s₂ := by
  intro c hc
  have hthen := hkept c hc
  unfold Check.after at hthen
  rw [Check.bind_run, Check.bind_run, ← hm c hc]
  cases hrun : m s₁ c with
  | ok a c' =>
    rw [hrun] at hthen
    exact hf a c' hthen
  | error e c' => rfl

theorem Check.agrees_report {file dir : String} {l₁ l₂ : Loads} (kind : DiagnosticKind)
    (node : Node) (message : String) :
    (report kind node message).Agrees I ⟨file, dir, l₁⟩ ⟨file, dir, l₂⟩ := by
  intro c _
  cases hfatal : kind.isFatal with
  | true => rw [report_fatal hfatal, report_fatal hfatal, Setting.finding, Setting.finding]
  | false => rw [report_mild hfatal, report_mild hfatal, Setting.finding, Setting.finding]

/-- Where two ways to load files do the same, so does a step with either of them. -/
theorem Check.Composite.congr {α : Type} {m : Check α} (hm : m.Composite)
    (hI : Session.Passage fun s t => I s → I t) {l₁ l₂ : Loads}
    (hl : l₁.Within fun s t => I s → I t) (hagree : l₁.Agree I l₂) (file dir : String) :
    m.Agrees I ⟨file, dir, l₁⟩ ⟨file, dir, l₂⟩ := by
  have hpasses : ∀ {α : Type} {m : Check α}, m.Composite →
      m.Passes (fun s t => I s → I t) ⟨file, dir, l₁⟩ := fun hm => hm.passage hI hl
  induction hm with
  | bind hm _ ihm ihf => exact .bind (hpasses hm) ihm ihf
  | around enter leave undo henter _ _ _ hm ih =>
    intro c hc
    rw [around_run, around_run, ih (enter c).2 ((henter.fixes c).1 ▸ hc)]
  | quietly hm ih =>
    refine .bind (.of_modifyGet hI fun _ => rfl) (fun _ _ => rfl) fun _ => ?_
    exact .bind (hpasses hm) ih fun _ _ _ => rfl
  | report kind node message => exact agrees_report kind node message
  | reportMisnamed bad node message =>
    intro c _
    rw [reportMisnamed_run, reportMisnamed_run, Setting.finding, Setting.finding]
  | registerFunction name f =>
    intro c _
    rw [registerFunction_run, registerFunction_run]
  | reviseFunction given name f =>
    intro c _
    rw [reviseFunction_run, reviseFunction_run]
  | configured _ _ ih => exact .bind (fun _ => hI.refl _) (fun _ _ => rfl) ih
  | reportMissing name node =>
    refine .bind (.of_modifyGet hI fun c => ?_) (fun _ _ => rfl) fun isNew => ?_
    · split <;> rfl
    · cases isNew with
      | true => exact agrees_report _ node _
      | false => exact fun _ _ => rfl
  | reportUndefined name node =>
    refine .bind (.report hI _ node _) (agrees_report _ node _) fun _ => ?_
    refine .bind (fun _ => hI.refl _) (fun _ _ => rfl) fun muted => ?_
    split <;> exact fun _ _ => rfl
  | autoload name =>
    intro c hc
    show Check.onSession (l₁.autoload name) ⟨file, dir, l₁⟩ c =
      Check.onSession (l₂.autoload name) ⟨file, dir, l₂⟩ c
    rw [Check.onSession_run, Check.onSession_run, hagree.autoload name c.session hc]
  | includeFile path once =>
    intro c hc
    show Check.onSession (l₁.includeFile path once) ⟨file, dir, l₁⟩ c =
      Check.onSession (l₂.includeFile path once) ⟨file, dir, l₂⟩ c
    rw [Check.onSession_run, Check.onSession_run, hagree.includeFile path once c.session hc]
  | _ => exact fun _ _ => rfl

namespace Session

theorem checkSource_congr (hI : Passage fun s t => I s → I t) {l₁ l₂ : Loads}
    (hl : l₁.Within fun s t => I s → I t) (hagree : l₁.Agree I l₂) {s : Session} (hs : I s)
    (path source : String) (included : Bool) :
    s.checkSource l₁ path source included = s.checkSource l₂ path source included := by
  rw [checkSource, checkSource]
  cases parseSource path source with
  | error found => rfl
  | ok root =>
    have hfile := (Check.composite_file root).congr hI hl hagree path
      ((Path.parent? path).getD "") { session := s, scope := .file included } hs
    dsimp only [checkTree, ReaderT.run, EStateM.run]
    rw [hfile]

/-! ### Analyses that do the same -/

/-- Two analyses do the same with a file that may be entered. -/
def Analysis.AgreeAt (s : Session) (a b : Analysis) : Prop :=
  ∀ path source cause, s.Admits path cause → a path source cause s = b path source cause s

theorem autoloadBy_congr {a b : Analysis} {s : Session}
    (hab : ∀ key, Analysis.AgreeAt (s.attempt key) a b) (name : String) :
    autoloadBy a name s = autoloadBy b name s := by
  rw [autoloadBy, autoloadBy]
  rcases loadClassBy_cases name (s.attempt (symbolKey name)) with
    hsame | ⟨path, source, had, -, hload⟩
  · rw [hsame, hsame]
  · rw [hload, hload, hab _ path source .autoloaded had]

theorem includeBy_congr {a b : Analysis} {s : Session} (hab : Analysis.AgreeAt s a b)
    (path : String) (once : Bool) : includeBy a path once s = includeBy b path once s := by
  rcases includeBy_cases path once s with ⟨outcome, hsame⟩ | ⟨key, source, had, -, hload⟩
  · rw [hsame, hsame]
  · rw [hload, hload, hab key source .included had]

/-- A sound session of some configuration, in which so many files are under analysis. -/
structure At (config : Config) (depth : Nat) (s : Session) : Prop where
  sound : s.Sound
  config : s.config = config
  depth : s.depth = depth

theorem passage_at (config : Config) (depth : Nat) :
    Passage fun s t => s.At config depth → t.At config depth where
  refl _ hs := hs
  trans hst htu hs := htu (hst hs)
  registry _ f hs := ⟨hs.sound.modifyRegistry f, hs.config, hs.depth⟩

theorem Nested.at {config : Config} {depth : Nat} {s t : Session} (hst : s.Nested t)
    (hs : s.At config depth) : t.At config depth := by
  obtain ⟨ht, hresumes⟩ := hst hs.sound
  exact ⟨ht, hresumes.config.trans hs.config, hresumes.depth.trans hs.depth⟩

/-- A run depends on the analyses of further files only where one more file is under
analysis. -/
theorem run_congr {a b : Analysis} (ha : a.Orderly) {s : Session} {path : String}
    {cause : Cause} (hs : s.Sound) (hadmits : s.Admits path cause)
    (hab : ∀ t, t.At s.config (s.depth + 1) → Analysis.AgreeAt t a b) (source : String) :
    s.run (loadsBy a) path source cause = s.run (loadsBy b) path source cause := by
  have hwithin : (loadsBy a).Within fun s' t =>
      s'.At s.config (s.depth + 1) → t.At s.config (s.depth + 1) :=
    ⟨fun name t ht => (nested_autoloadBy ha name t).at ht,
      fun path once t ht => (nested_includeBy ha path once t).at ht⟩
  have hagree : (loadsBy a).Agree (At s.config (s.depth + 1)) (loadsBy b) :=
    ⟨fun name t ht => autoloadBy_congr
        (fun key => hab _ ⟨ht.sound.attempt key, ht.config, ht.depth⟩) name,
      fun path once t ht => includeBy_congr (hab t ht) path once⟩
  have hentered : (s.enter path cause).At s.config (s.depth + 1) :=
    ⟨hs.enter hadmits, rfl, rfl⟩
  rw [run, run, checkSource_congr (passage_at _ _) hwithin hagree hentered]

/-- One more file does not matter where the bound is out of reach. -/
theorem analyzeWithin_succ (depth : Nat) {path : String} {cause : Cause} {s : Session}
    (hs : s.Sound) (hadmits : s.Admits path cause) (hbound : max 1 s.limit ≤ s.depth + depth)
    (source : String) :
    analyzeWithin depth path source cause s = analyzeWithin (depth + 1) path source cause s := by
  induction depth generalizing path cause s source with
  | zero =>
    have hlt := hadmits.depth_lt
    omega
  | succ depth ih =>
    refine run_congr (orderly_analyzeWithin depth) hs hadmits
      (fun t ht path source cause hadm => ?_) source
    refine ih ht.sound hadm ?_ source
    have hlimit : t.limit = s.limit := by rw [limit, limit, ht.config]
    rw [hlimit, ht.depth]
    omega

/-- An analysis runs the file, and loads others by analyses. -/
theorem analyze_eq_run {path : String} {cause : Cause} {s : Session} (hs : s.Sound)
    (hadmits : s.Admits path cause) (source : String) :
    analyze path source cause s = s.run loads path source cause := by
  have hbound : max 1 s.limit ≤ s.depth + (s.limit + 1) := by omega
  rw [analyze, ← limit, analyzeWithin_succ _ hs hadmits hbound]
  refine run_congr (orderly_analyzeWithin _) hs hadmits (fun t ht path source cause _ => ?_) source
  have hlimit : t.limit = s.limit := by rw [limit, limit, ht.config]
  rw [analyze, ← limit, hlimit]

end Session

end PhpCheck
