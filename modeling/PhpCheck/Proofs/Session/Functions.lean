import Mathlib
import PhpCheck.Proofs.Check.Functions
import PhpCheck.Proofs.Report.Order
import PhpCheck.Proofs.Session.Request

/-!
The functions that a session knows.

What is known before a request is the same after it.  A function that is declared more
than once in a file is registered by the first declaration, but has the parameters of the
last one when the file has been checked (`Session.function_signatures`).
-/

namespace PhpCheck

open Check

namespace Session

/-! ### Functions of other files -/

theorem passage_keepsFunction_checkTree {name : String} {f : Signature} {loads : Loads}
    (hl : loads.Within (KeepsFunction name f)) (s : Session) (path : String) (root : Node)
    (included : Bool) : KeepsFunction name f s (s.checkTree loads path root included).2 := by
  intro hknown
  rw [checkTree_session]
  let setting : Setting := { file := path, dir := (Path.parent? path).getD "", loads }
  have hsettled : (Check.file root).Maintains (Checker.Settled name f) setting :=
    (Check.composite_file root).settled hl
  exact (hsettled { session := s, scope := .file included } ⟨hknown, List.not_mem_nil⟩).known

theorem respects_keepsFunction (name : String) (f : Signature) :
    Respects (KeepsFunction name f) where
  refl _ h := h
  trans hst htu h := htu (hst h)
  attempt _ _ h := h
  enter _ _ _ h := h
  leave _ _ _ h := h
  checkTree hl s path root included := passage_keepsFunction_checkTree hl s path root included

/-! ### Functions of a file -/

/-- The analysis of a tree that was not broken off. -/
theorem checkTree_finished {s : Session} {loads : Loads} {path : String} {root : Node}
    {included : Bool}
    (hfinished : (s.checkTree loads path root included).1.report.isAborted = false) :
    ∃ value c', Check.file root { file := path, dir := (Path.parent? path).getD "", loads }
        { session := s, scope := .file included } = .ok value c' ∧
      (s.checkTree loads path root included).2 = c'.session := by
  revert hfinished
  unfold checkTree
  dsimp only [ReaderT.run, EStateM.run]
  split
  · rename_i value c' hrun
    exact fun _ => ⟨value, c', hrun, rfl⟩
  · rename_i e c' hrun
    intro hfinished
    obtain ⟨d, hd, hfatal⟩ := (Check.composite_file root).explains _ _ _ _ hrun
    have hreported : d ∈ (outcomeOf path c'.diagnostics .mixed included).report.diagnostics :=
      List.mem_mergeSort.2 (mem_tidy.2 hd)
    have hmild := List.any_eq_false.1 hfinished d hreported
    exact absurd hfatal hmild

/-- A request to check a tree, or a text that is read as the tree. -/
inductive Checks (s : Session) : Request → (path : String) → Node → Prop
  | tree (path : String) (root : Node) : Checks s (.tree path root) path root
  | source {path source : String} {root : Node}
      (hnew : s.directReport? (Path.normalize path) = none)
      (hread : parseSource (Path.normalize path) source = .ok root) :
      Checks s (.source path source) path root
  | file {path source : String} {root : Node}
      (hnew : s.directReport? (Path.normalize path) = none)
      (hfree : s.isInProgress (Path.normalize path) = false)
      (hload : s.loader.read (Path.normalize path) = .ok source)
      (hread : parseSource (Path.normalize path) source = .ok root) :
      Checks s (.file path) path root

theorem analyze_read {path source : String} {root : Node}
    (hread : parseSource path source = .ok root) (s : Session) :
    ∃ loads : Loads, analyze path source .direct s =
      (((s.enter path .direct).checkTree loads path root false).1,
        ((s.enter path .direct).checkTree loads path root false).2.leave path
          ((s.enter path .direct).checkTree loads path root false).1) := by
  refine ⟨loadsBy (analyzeWithin s.config.analyzer.maxLoadDepth), ?_⟩
  show run s _ path source .direct = _
  rw [run, checkSource, hread]
  rfl

theorem Checks.serve {s : Session} {request : Request} {path : String} {root : Node}
    (hchecks : s.Checks request path root) :
    ∃ loads : Loads, ∃ outcome, outcome = (s.enter (Path.normalize path) .direct).checkTree loads
        (Path.normalize path) root false ∧
      s.serve request =
        (.report outcome.1.report, outcome.2.leave (Path.normalize path) outcome.1) := by
  cases hchecks with
  | tree => exact ⟨loads, _, rfl, rfl⟩
  | @source _ source _ hnew hread =>
    obtain ⟨loads, hrun⟩ := analyze_read hread s
    refine ⟨loads, _, rfl, ?_⟩
    rw [Session.serve, analyzeSource, hnew]
    dsimp only
    rw [hrun]
  | @file _ source _ hnew hfree hload hread =>
    obtain ⟨loads, hrun⟩ := analyze_read hread s
    refine ⟨loads, _, rfl, ?_⟩
    rw [Session.serve, analyzeFile, hnew]
    dsimp only
    rw [hfree, hload]
    dsimp only
    rw [hrun]
    rfl

end Session

/-- Whether the analysis that was asked for was broken off. -/
def Session.Answer.isAborted : Session.Answer → Bool
  | .report r => r.isAborted
  | _ => false

/-- A file of functions, the last of which has a body and no result. -/
structure Node.EndsWith (root node : Node) (name : String) : Prop where
  kind : root.kind = .sourceFile
  last : root.positional.getLast? = some node
  plain : ∀ n ∈ root.positional, n.PlainFunction
  named : node.fieldText? "name" = some name
  hasBody : (node.childBy? "body").isSome = true
  untyped : node.Untyped

namespace Session

/-- Functions that are known stay as they are.  In a file of functions, the last
declaration gives a function its parameters, whichever registered it. -/
theorem function_signatures (s : Session) :
    (∀ requests name f, (∀ change, .edit change ∉ requests) →
      s.registry.function? name = some f →
      (s.serveAll requests).2.registry.function? name = some f) ∧
    ∀ request path root node name, s.Checks request path root → root.EndsWith node name →
      s.registry.function? name = none → (s.serve request).1.isAborted = false →
      ∃ f, (s.serve request).2.registry.function? name = some f ∧
        f.params.map (·.name) = node.parameterNames := by
  refine ⟨fun requests name f hno => ?_, fun request path root node name hchecks hends hnew => ?_⟩
  · exact serveAll_within (respects_keepsFunction name f) s requests fun _ change hedit =>
      absurd hedit (hno change)
  · obtain ⟨loads, outcome, rfl, hserve⟩ := hchecks.serve
    obtain ⟨hkind, hlast, hplain, hnamed, hbody, huntyped⟩ := hends
    obtain ⟨nodes, hroot⟩ := List.getLast?_eq_some_iff.1 hlast
    obtain ⟨body, hbody⟩ := Option.isSome_iff_exists.1 hbody
    rw [hserve]
    intro hfinished
    obtain ⟨value, c', hrun, hsession⟩ := checkTree_finished hfinished
    have hqualify : (Scope.file false).names.qualify name = name := rfl
    have hlast := Check.file_functions hkind hroot hplain hnamed hbody huntyped hrun rfl
    rw [hqualify] at hlast
    have hlast := hlast hnew
    show ∃ f, Registry.function? (checkTree _ loads _ root false).2.registry name = some f ∧ _
    rw [hsession]
    exact hlast

/-! ### A function that is declared twice -/

/-- A parameter without a type. -/
def plainParameter (name : String) : Node :=
  .ofKind .parameter default [(Node.leaf .variableName default name).inField "name"]

/-- A function with an empty body. -/
def plainFunction (name : String) (parameters : List String) : Node :=
  .ofKind .functionDefinition default
    [(Node.leaf .name default name).inField "name",
     (Node.ofKind .parameterList default (parameters.map plainParameter)).inField "parameters",
     (Node.ofKind .block default []).inField "body"]

theorem plain_plainFunction (name : String) (parameters : List String) :
    (plainFunction name parameters).PlainFunction := by
  refine ⟨rfl, fun p hp => ?_⟩
  have hp : p ∈ (parameters.map plainParameter).filter (·.field.isNone) := hp
  obtain ⟨parameter, -, rfl⟩ := List.mem_map.1 (List.mem_filter.1 hp).1
  rfl

/-- `function f($a) {} function f($a, $b) {}` -/
def twice : Node :=
  .ofKind .sourceFile default [plainFunction "f" ["a"], plainFunction "f" ["a", "b"]]

/-- A session that knows nothing but a function `g` without parameters. -/
def knowing : Session :=
  { registry := ({} : Registry).addFunction "g" default, loader := .none, config := {} }

/-- The second declaration of `f` gives it its parameters, though the first one registered
it; `g` is as it was. -/
theorem function_signatures_twice :
    let s := knowing.serve (.tree "/t.php" twice)
    (∃ f, s.2.registry.function? "f" = some f ∧ f.params.map (·.name) = ["a", "b"]) ∧
      s.2.registry.function? "g" = some default := by
  have hends : twice.EndsWith (plainFunction "f" ["a", "b"]) "f" := by
    refine ⟨rfl, rfl, fun n hn => ?_, rfl, rfl, rfl, rfl⟩
    have hn : n ∈ [plainFunction "f" ["a"], plainFunction "f" ["a", "b"]] := hn
    rcases List.mem_pair.1 hn with rfl | rfl
    · exact plain_plainFunction "f" ["a"]
    · exact plain_plainFunction "f" ["a", "b"]
  have hfinished : (knowing.serve (.tree "/t.php" twice)).1.isAborted = false := by cbv
  have hnew : knowing.registry.function? "f" = none := by cbv
  have hknown : knowing.registry.function? "g" = some default := by cbv
  obtain ⟨hkeeps, hlast⟩ := function_signatures knowing
  exact ⟨hlast _ _ _ _ "f" (.tree "/t.php" twice) hends hnew hfinished,
    hkeeps [.tree "/t.php" twice] "g" default (by simp) hknown⟩

end Session

end PhpCheck
