import PhpCheck.Proofs.Session.Discipline

/-!
What a session can be asked for, and what holds of whatever it does then.

A relation between sessions that holds when a file is checked, and when the session notes
that a file is entered, left or looked for, holds between the sessions before and after
any analysis (`Session.within_analyze`) and any request (`Session.serve_within`).
-/

namespace PhpCheck

namespace Session

/-- What a session is asked for. -/
inductive Request where
  | source (path source : String)
  | file (path : String)
  | tree (path : String) (root : Node)
  | autoload (name : String)
  /-- The registry is changed from outside. -/
  | edit (change : Registry → Registry)

/-- What a session answers. -/
inductive Answer where
  | report (report : Report)
  | failure (error : LoadError)
  | found (found : Bool)
  | done

/-- Answers a request. -/
def serve (s : Session) : Request → Answer × Session
  | .source path source =>
    (.report (s.analyzeSource path source).1, (s.analyzeSource path source).2)
  | .file path => match s.analyzeFile path with
    | (.ok report, s) => (.report report, s)
    | (.error e, s) => (.failure e, s)
  | .tree path root => (.report (s.analyzeTree path root).1, (s.analyzeTree path root).2)
  | .autoload name => (.found (s.autoload name).1, (s.autoload name).2)
  | .edit change => (.done, s.modifyRegistry change)

/-- Answers requests in turn. -/
def serveAll (s : Session) : List Request → List Answer × Session
  | [] => ([], s)
  | request :: requests =>
    let (answer, s) := s.serve request
    let (answers, s) := s.serveAll requests
    (answer :: answers, s)

/-! ### Relations between sessions -/

/-- A relation that holds whatever a session notes of its files, and when it checks one. -/
structure Respects (R : Session → Session → Prop) : Prop where
  refl : ∀ s, R s s
  trans : ∀ {s t u}, R s t → R t u → R s u
  attempt : ∀ s key, R s (s.attempt key)
  enter : ∀ s path cause, R s (s.enter path cause)
  leave : ∀ s path outcome, R s (s.leave path outcome)
  checkTree : ∀ {loads : Loads}, loads.Within R → ∀ s path root included,
    R s (s.checkTree loads path root included).2

/-- An analysis does nothing else to a session. -/
def Analysis.Within (R : Session → Session → Prop) (analyze : Analysis) : Prop :=
  ∀ path source cause s, R s (analyze path source cause s).2

variable {R : Session → Session → Prop}

theorem within_loadsBy (hR : Respects R) {analyze : Analysis} (ha : analyze.Within R) :
    (loadsBy analyze).Within R := by
  refine ⟨fun name s => ?_, fun path once s => ?_⟩
  · show R s (autoloadBy analyze name s).2
    rw [autoloadBy]
    by_cases hknown : s.attempted.contains (symbolKey name) = true
    · rw [if_pos hknown]
      exact hR.refl s
    · rw [if_neg hknown]
      refine hR.trans (hR.attempt s (symbolKey name)) ?_
      rcases loadClassBy_cases name (s.attempt (symbolKey name)) with
        hsame | ⟨path, source, -, -, hload⟩
      · rw [hsame]
        exact hR.refl _
      · rw [hload]
        exact ha path source .autoloaded (s.attempt (symbolKey name))
  · show R s (includeBy analyze path once s).2
    rcases includeBy_cases path once s with ⟨outcome, hsame⟩ | ⟨key, source, -, -, hload⟩
    · rw [hsame]
      exact hR.refl s
    · rw [hload]
      exact ha key source .included s

theorem within_analyzeWithin (hR : Respects R) (depth : Nat) : (analyzeWithin depth).Within R := by
  induction depth with
  | zero => exact fun _ _ _ s => hR.refl s
  | succ depth ih =>
    intro path source cause s
    refine hR.trans (hR.enter s path cause) (hR.trans ?_ (hR.leave _ path _))
    show R (s.enter path cause) ((s.enter path cause).checkSource
      (loadsBy (analyzeWithin depth)) path source cause.isInclude).2
    rw [checkSource]
    cases parseSource path source with
    | ok root => exact hR.checkTree (within_loadsBy hR ih) _ path root _
    | error found => exact hR.refl _

theorem within_analyze (hR : Respects R) : Analysis.Within R analyze := fun path source cause s =>
  within_analyzeWithin hR _ path source cause s

theorem within_loads (hR : Respects R) : loads.Within R := within_loadsBy hR (within_analyze hR)

theorem serve_within (hR : Respects R) (s : Session) (request : Request)
    (hedit : ∀ change, request = .edit change → R s (s.modifyRegistry change)) :
    R s (s.serve request).2 := by
  cases request with
  | source path source =>
    show R s (s.analyzeSource path source).2
    rw [analyzeSource]
    cases s.directReport? (Path.normalize path) with
    | some report => exact hR.refl s
    | none => exact within_analyze hR (Path.normalize path) source .direct s
  | file path =>
    have hsame : (s.serve (.file path)).2 = (s.analyzeFile path).2 := by
      rw [serve]
      obtain ⟨result, t⟩ := s.analyzeFile path
      cases result <;> rfl
    rw [hsame, analyzeFile]
    cases s.directReport? (Path.normalize path) with
    | some report => exact hR.refl s
    | none =>
      dsimp only
      cases s.isInProgress (Path.normalize path) with
      | true => exact hR.refl s
      | false =>
        cases s.loader.read (Path.normalize path) with
        | error e => exact hR.refl s
        | ok source => exact within_analyze hR (Path.normalize path) source .direct s
  | tree path root =>
    exact hR.trans (hR.enter s (Path.normalize path) .direct)
      (hR.trans (hR.checkTree (within_loads hR) _ (Path.normalize path) root false)
        (hR.leave _ (Path.normalize path) _))
  | autoload name => exact (within_loads hR).autoload name s
  | edit change => exact hedit change rfl

theorem serveAll_within (hR : Respects R) (s : Session) (requests : List Request)
    (hedit : ∀ s change, .edit change ∈ requests → R s (s.modifyRegistry change)) :
    R s (s.serveAll requests).2 := by
  induction requests generalizing s with
  | nil => exact hR.refl s
  | cons request requests ih =>
    have hfirst := serve_within hR s request fun change hrequest =>
      hedit s change (hrequest ▸ List.mem_cons_self)
    exact hR.trans hfirst (ih (s.serve request).2 fun s change hlater =>
      hedit s change (List.mem_cons_of_mem request hlater))

/-! ### The configuration -/

/-- Two sessions have the same configuration. -/
def SameConfig (s t : Session) : Prop := t.config = s.config

theorem passage_sameConfig : Passage SameConfig where
  refl _ := rfl
  trans hst htu := htu.trans hst
  registry _ _ := rfl

theorem respects_sameConfig : Respects SameConfig where
  refl _ := rfl
  trans hst htu := htu.trans hst
  attempt _ _ := rfl
  enter _ _ _ := rfl
  leave _ _ _ := rfl
  checkTree hl s path root included := passage_checkTree passage_sameConfig hl s path root included

theorem config_serveAll (s : Session) (requests : List Request) :
    (s.serveAll requests).2.config = s.config :=
  serveAll_within respects_sameConfig s requests fun _ _ _ => rfl

end Session

end PhpCheck
