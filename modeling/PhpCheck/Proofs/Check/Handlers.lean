import PhpCheck.Proofs.Check.Arrivals
import PhpCheck.Proofs.Check.Conditional
import PhpCheck.Proofs.Registry.Reach
import PhpCheck.Proofs.Types.Coverage

/-!
In which environment a handler starts.

A `try` keeps two environments: the one in front of its body, and the one in which its body
ends, however control leaves it there.  Every handler starts from their join, with what it
catches bound (`Check.untilHandler`).  So of what the body does in between a handler sees as
much as that join tells (`Check.handler_covers`): a variable that is bound only in between is
not bound in the handler, while types that a variable has at either end are covered.
-/

namespace PhpCheck

open Check

/-- The statements that a `try` guards. -/
def Node.guarded (node : Node) : List Node := ((node.childBy? "body").map Node.positional).getD []

/-- The variable that a clause binds to what it catches. -/
def Node.caught? (clause : Node) : Option String := (clause.childBy? "variable").map Node.textD

/-- The variable is bound, to a type that takes the other. -/
def Env.Covers (e : Env) (h : Hierarchy) (name : String) (u : TyUnion) : Prop :=
  ∃ v, e.get? name = some v ∧ u.compliesWith h v = true

namespace Checker

/-- The checker when a snapshot of its environment was taken. -/
def taken (c : Checker) : Checker :=
  { c.withEnv (c.scope.env.numbered c.nextSnapshot) with nextSnapshot := c.nextSnapshot + 1 }

/-- The checker in front of the body of a `try`. -/
def atBody (c : Checker) : Checker := (c.entering c.scope.names).taken

theorem taken_taken_env (c : Checker) : c.taken.taken.scope.env = c.taken.scope.env := by
  show (c.scope.env.numbered _).numbered _ = c.scope.env.numbered _
  unfold Env.numbered
  cases c.scope.env.snapshot <;> rfl

end Checker

/-! ### Types that meet -/

namespace TyUnion

variable {u v : TyUnion}

theorem Plain.complies_self (hu : u.Plain) : u.compliesWith .flat u = true :=
  hu.1.compliesWith_refl (by simp [sameName])

/-- Types without functions comply with what they are extended to, even if that stays as it
was. -/
theorem Plain.complies_extend (hu : u.Plain) (hv : v.Plain) :
    u.compliesWith .flat (u.extend v) = true ∧ v.compliesWith .flat (u.extend v) = true := by
  obtain ⟨hleft, hright⟩ := hu.complies_union hv
  unfold extend
  split
  · rename_i hsame
    exact ⟨hu.complies_self, compliesWith_of_same (hu.union hv).2 hsame hright⟩
  · exact ⟨hleft, hright⟩

end TyUnion

/-- Where variables meet, plain types on both sides are covered. -/
theorem complies_joinTypes {old new : Option TyUnion} {u : TyUnion}
    (hplain : ∀ v, old = some v ∨ new = some v → v.Plain) (hu : old = some u ∨ new = some u) :
    ∃ v, joinTypes old new = some v ∧ u.compliesWith .flat v = true := by
  have huu : u.compliesWith .flat u = true := (hplain u hu).complies_self
  cases old with
  | none =>
    obtain rfl := hu.resolve_left nofun
    exact ⟨u, rfl, huu⟩
  | some old =>
    cases new with
    | none =>
      obtain ⟨rfl⟩ := hu.resolve_right nofun
      exact ⟨u, rfl, huu⟩
    | some new =>
      obtain ⟨hold, hnew⟩ := (hplain old (.inl rfl)).complies_extend (hplain new (.inr rfl))
      refine ⟨old.extend new, rfl, ?_⟩
      rcases hu with hu | hu
      · cases hu
        exact hold
      · cases hu
        exact hnew

namespace Env

variable {e other : Env} {h : Hierarchy} {x : String} {u : TyUnion}

/-- A variable that neither environment binds is not bound where they meet. -/
theorem not_covers_merge (he : e.get? x = none) (hother : other.get? x = none) :
    ¬(e.merge other).Covers h x u := by
  rintro ⟨v, hv, -⟩
  cases hsame : e.isSnapshotOf other with
  | true =>
    rw [merge, mergeReport, if_pos hsame, he] at hv
    cases hv
  | false =>
    rw [get?_merge hsame, he, hother] at hv
    cases hv

/-- Plain types that a variable has in either environment are covered where they meet. -/
theorem covers_merge (hsharing : e.isSnapshotOf other = true → e.bindings = other.bindings)
    (hplain : ∀ v, e.get? x = some v ∨ other.get? x = some v → v.Plain)
    (hu : e.get? x = some u ∨ other.get? x = some u) : (e.merge other).Covers .flat x u := by
  cases hsame : e.isSnapshotOf other with
  | true =>
    have hget : other.get? x = e.get? x := get?_of_bindings_eq (hsharing hsame).symm x
    rw [hget, or_self] at hu
    refine ⟨u, ?_, (hplain u (.inl hu)).complies_self⟩
    rw [merge, mergeReport, if_pos hsame]
    exact hu
  | false =>
    obtain ⟨v, hv, huv⟩ := complies_joinTypes hplain hu
    exact ⟨v, (get?_merge hsame x).trans hv, huv⟩

theorem Covers.mono {k : Hierarchy} (hk : h.Within k) (he : e.Covers h x u) : e.Covers k x u := by
  obtain ⟨v, hv, huv⟩ := he
  exact ⟨v, hv, TyUnion.compliesWith_mono hk huv⟩

theorem covers_congr (hx : e.get? x = other.get? x) : e.Covers h x u ↔ other.Covers h x u := by
  unfold Covers
  rw [hx]

end Env

namespace Check

/-! ### The way to a handler -/

/-- Checks the body of a `try`: the environment from which its handlers start, and the path
through the body. -/
def throughBody (node : Node) : Check (Env × Paths) := do
  let entry ← env
  let paths : Paths ← match node.childBy? "body" with
    | some body => do
      let flow ← onwards .normal body.positional
      pure (Paths.add {} flow (← env))
    | none => pure {}
  let handlerEntry ← snapshot (entry.merge (← env))
  return (handlerEntry, paths)

/-- Starts a handler. -/
def startHandler (entry : Env) (clause : Node) : Check Unit := do
  setEnv entry
  match clause.childBy? "variable" with
  | some caught => bindVariable caught.textD (Rules.caughtTypes (← scope) clause)
  | none => pure ()

/-- Checks a `try` up to the body of a handler, which comes after some others. -/
def untilHandler (node : Node) (before : List Node) (clause : Node) : Check (Env × Paths) := do
  dropValue
  let (entry, paths) ← throughBody node
  let paths ← before.foldlM ((Rules.below node.height).catchClause entry) paths
  startHandler entry clause
  return (entry, paths)

/-- Goes on behind a `try`, given the paths through its body and its handlers. -/
def leaveTry (node : Node) (entry : Env) (paths : Paths) : Check Flow := do
  let flow := paths.flow.getD .normal
  match (node.childBy? "finally").bind (·.childBy? "body") with
  | some body =>
    setEnv (paths.exits.foldl Env.merge entry)
    let last ← (Rules.below node.height).block body
    return if !last.isNormal then last else if paths.exits.isEmpty then flow else .normal
  | none =>
    Rules.joinPaths paths.exits
    return if paths.exits.isEmpty then flow else .normal

section

variable {setting : Setting} {c c' c₁ : Checker} {node clause handler : Node}
  {before after : List Node}

theorem catchClause_eq (r : Rules) (entry : Env) (paths : Paths)
    (hhandler : clause.childBy? "body" = some handler) :
    r.catchClause entry paths clause = (do
      startHandler entry clause
      let flow ← r.block handler
      return paths.add flow (← env)) := by
  unfold Rules.catchClause startHandler
  rw [hhandler]
  cases clause.childBy? "variable" <;> rfl

/-- The body of a handler is checked from where it starts. -/
theorem visit_try (hkind : node.kind = .tryStatement)
    (hclauses : node.childrenBy "catch" = before ++ clause :: after)
    (hhandler : clause.childBy? "body" = some handler) :
    ∃ rest : Env × Paths → Flow → Check Inferred, visit node = (do
      let state ← untilHandler node before clause
      let flow ← onwards .normal handler.positional
      rest state flow) := by
  have hmem : clause ∈ node.childrenBy "catch" := by
    rw [hclauses]
    exact List.mem_append_right _ List.mem_cons_self
  have hheight : handler.height ≤ node.height := Nat.le_of_lt
    (Nat.lt_trans (Node.height_childBy?_lt hhandler) (Node.height_childrenBy_lt hmem))
  have hblock : (Rules.below node.height).block handler = onwards .normal handler.positional :=
    below_block hheight
  refine ⟨fun state flow => do
    let (entry, paths) := state
    let paths ← after.foldlM ((Rules.below node.height).catchClause entry) (paths.add flow (← env))
    return .statement (← leaveTry node entry paths), ?_⟩
  rw [visit_eq (by rw [hkind]; rfl)]
  unfold Rules.apply Rules.logical? Rules.tryStatement untilHandler throughBody
  rw [hkind, hclauses]
  cases hbody : node.childBy? "body" with
  | none =>
    simp only [List.foldlM_append, List.foldlM_cons, catchClause_eq _ _ _ hhandler, hblock,
      bind_assoc, pure_bind]
    rfl
  | some body =>
    simp only [List.foldlM_append, List.foldlM_cons, catchClause_eq _ _ _ hhandler, hblock,
      bind_assoc, pure_bind, below_block (Nat.le_of_lt (Node.height_childBy?_lt hbody))]
    rfl

/-! ### From where a handler starts -/

theorem env_run : env setting c = .ok c.taken.scope.env c.taken := rfl

/-- The environments at both ends of the body meet. -/
theorem throughBody_ok {entry : Env} {paths : Paths}
    (hrun : throughBody node setting c = .ok (entry, paths) c') :
    ∃ flow c₁, onwards .normal node.guarded setting c.taken = .ok flow c₁ ∧
      entry.bindings = (c.taken.scope.env.merge c₁.taken.scope.env).bindings := by
  unfold throughBody at hrun
  rw [bind_run_ok env_run] at hrun
  unfold Node.guarded
  cases hbody : node.childBy? "body" with
  | none =>
    rw [hbody] at hrun
    cases hrun
    exact ⟨.normal, c.taken, rfl, rfl⟩
  | some body =>
    rw [hbody] at hrun
    dsimp only at hrun
    obtain ⟨flow, c₁, hthrough, hrun⟩ := bind_ok hrun
    rw [bind_run_ok env_run] at hrun
    cases hrun
    refine ⟨flow, c₁, hthrough, ?_⟩
    exact congrArg (fun e => (c.taken.scope.env.merge e).bindings) c₁.taken_taken_env

theorem startHandler_ok {entry : Env} (hrun : startHandler entry clause setting c = .ok () c')
    {x : String} (hx : clause.caught? ≠ some x) : c'.scope.env.get? x = entry.get? x := by
  unfold startHandler at hrun
  unfold Node.caught? at hx
  cases hvariable : clause.childBy? "variable" with
  | none =>
    rw [hvariable] at hrun
    cases hrun
    rfl
  | some caught =>
    rw [hvariable] at hrun hx
    cases hrun
    have hne : caught.textD ≠ x := fun heq => hx (congrArg some heq)
    show ((Env.set _ _ _).get? x) = _
    rw [Env.get?_set, if_neg hne]

/-- But for what it catches, a handler starts from where both ends of the body meet. -/
theorem untilHandler_ok {state : Env × Paths}
    (hrun : untilHandler node before clause setting c = .ok state c') :
    ∃ flow c₁, onwards .normal node.guarded setting c.atBody = .ok flow c₁ ∧
      ∀ x, clause.caught? ≠ some x → c'.scope.env.get? x =
        (c.atBody.scope.env.merge c₁.taken.scope.env).get? x := by
  obtain ⟨_, c₀, hdrop, hrun⟩ := bind_ok hrun
  cases hdrop
  obtain ⟨⟨entry, paths⟩, c₂, hthrough, hrun⟩ := bind_ok hrun
  obtain ⟨flow, c₁, hbody, hentry⟩ := throughBody_ok hthrough
  obtain ⟨paths', c₃, hbefore, hrun⟩ := bind_ok hrun
  obtain ⟨_, c₄, hstart, hrun⟩ := bind_ok hrun
  cases hrun
  refine ⟨flow, c₁, hbody, fun x hx => ?_⟩
  rw [startHandler_ok hstart hx]
  exact Env.get?_of_bindings_eq hentry x

/-! ### What a handler sees -/

theorem uniform_onwards (flow : Flow) (nodes : List Node) : (onwards flow nodes).Uniform none := by
  refine .foldlM flow fun flow statement _ => ?_
  have hvisit : (visit statement).Uniform none := uniform_visit statement.keeps_none
  grind

/-- If both ends of the body are the same snapshot, the same variables are bound there. -/
theorem bindings_at_ends (hc : c.Shares) {nodes : List Node} {flow : Flow}
    (hrun : onwards .normal nodes setting c.taken = .ok flow c₁)
    (hsame : c.taken.scope.env.isSnapshotOf c₁.taken.scope.env = true) :
    c.taken.scope.env.bindings = c₁.taken.scope.env.bindings := by
  let ends : Check (Env × Env) := do
    let first ← env
    let _ ← onwards .normal nodes
    return (first, ← env)
  have hends : ends.Agree none .blank (Env.alike.prod Env.alike) ends := by
    refine Agree.env.bind fun l₁ first _ _ hfirst => (uniform_onwards _ _).followed fun _ => ?_
    exact Agree.env.bind fun l₂ last _ hl₂ hlast => .pure ⟨hfirst.mono hl₂, hlast⟩
  have hrun : ends setting c = .ok (c.taken.scope.env, c₁.taken.scope.env) c₁.taken :=
    (bind_run_ok env_run).trans ((bind_run_ok hrun).trans (bind_run_ok env_run))
  obtain ⟨l, hfirst, hlast⟩ := hends.of_shares hc hrun
  exact hfirst.bindings_eq hlast hsame

/-- In the state in which the body of a handler is checked, a variable that some statements of
the guarded body leave bound, but for the one that is caught, takes the type that it has behind
them exactly if it does so where both ends of that body meet.  It never does if it is not bound
at either end, and it does if it has that type at one of them and types there are plain. -/
theorem handler_covers (hkind : node.kind = .tryStatement)
    (hclauses : node.childrenBy "catch" = before ++ clause :: after)
    (hhandler : clause.childBy? "body" = some handler) {state : Env × Paths}
    (hrun : untilHandler node before clause setting c = .ok state c') :
    (∃ rest : Env × Paths → Flow → Check Inferred, visit node = (do
      let state ← untilHandler node before clause
      let flow ← onwards .normal handler.positional
      rest state flow)) ∧
    ∃ flow c₁, onwards .normal node.guarded setting c.atBody = .ok flow c₁ ∧
      ∀ pre post c₂, node.guarded = pre ++ post →
        onwards .normal pre setting c.atBody = .ok .normal c₂ →
        ∀ (r : Registry) x u, clause.caught? ≠ some x → c₂.scope.env.get? x = some u →
          let first := c.atBody.scope.env
          let last := c₁.taken.scope.env
          (c'.scope.env.Covers r.hierarchy x u ↔ (first.merge last).Covers r.hierarchy x u) ∧
          (first.get? x = none → last.get? x = none → ¬c'.scope.env.Covers r.hierarchy x u) ∧
          (c.Shares → (∀ v, first.get? x = some v ∨ last.get? x = some v → v.Plain) →
            first.get? x = some u ∨ last.get? x = some u →
            c'.scope.env.Covers r.hierarchy x u) := by
  refine ⟨visit_try hkind hclauses hhandler, ?_⟩
  obtain ⟨flow, c₁, hbody, hstart⟩ := untilHandler_ok hrun
  refine ⟨flow, c₁, hbody, fun pre post c₂ _ _ r x u hx _ => ?_⟩
  intro first last
  have hiff : c'.scope.env.Covers r.hierarchy x u ↔ (first.merge last).Covers r.hierarchy x u :=
    Env.covers_congr (hstart x hx)
  refine ⟨hiff, fun hfirst hlast => ?_, fun hc hplain hu => ?_⟩
  · rw [hiff]
    exact Env.not_covers_merge hfirst hlast
  · rw [hiff]
    have hsharing := bindings_at_ends (hc.entering c.scope.names) hbody
    exact (Env.covers_merge hsharing hplain hu).mono r.flat_within

end

end Check

/-! ### A variable that is bound in between -/

namespace Node

/-- `unset($x);` -/
def unsetting : Node := .ofKind .unsetStatement default [leaf .variableName default "x"]

/-- `catch (Exception $e) { }` -/
def catching : Node :=
  .ofKind .catchClause default
    [(Node.ofKind .nameList default [leaf .name default "Exception"]).inField "types",
      (leaf .variableName default "e").inField "variable",
      (Node.ofKind .block default []).inField "body"]

/-- `try { $x = 1; unset($x); } catch (Exception $e) { }` -/
def trying : Node :=
  .ofKind .tryStatement default
    [(Node.ofKind .block default [(assigning (number "1")).asStatement, unsetting]).inField "body",
      catching.inField "catch"]

end Node

namespace Check

section

variable {setting : Setting} {c c₁ : Checker} {statement value : Node} {name : String}
  {result : Inferred}

/-- If the body of a `try` is checked to its end, so is the way to the first handler. -/
theorem untilHandler_run {node body : Node} {flow : Flow} (clause : Node)
    (hbody : node.childBy? "body" = some body)
    (hrun : onwards .normal body.positional setting c.atBody = .ok flow c₁) :
    ∃ state c', untilHandler node [] clause setting c = .ok state c' := by
  have hthrough : ∃ state c', throughBody node setting (c.entering c.scope.names) =
      .ok state c' := by
    unfold throughBody
    rw [bind_run_ok env_run, hbody]
    exact ⟨_, _, (bind_run_ok hrun).trans (bind_run_ok env_run)⟩
  have hstart : ∀ e c, ∃ c', startHandler e clause setting c = .ok () c' := by
    intro e c
    unfold startHandler
    cases clause.childBy? "variable" <;> exact ⟨_, rfl⟩
  obtain ⟨⟨entry, paths⟩, c₂, hthrough⟩ := hthrough
  obtain ⟨c₃, hstart⟩ := hstart entry c₂
  exact ⟨(entry, paths), c₃, (bind_run_ok hthrough).trans (bind_run_ok hstart)⟩

theorem assigns_run (hs : statement.Assigns name value) (hcall : value.kind.isCall = false)
    (hc : c.scope.assigning = none) (hvalue : visit value setting c = .ok result c₁) :
    visit statement setting c =
      .ok (.statement .normal) { c₁ with scope := c₁.scope.bind name result.ty } := by
  obtain ⟨left, hv, hrun⟩ := visit_assigns hs hcall
  rw [hrun, bind_run_ok (dropValue_run hc)]
  simp only
  rw [bind_run_ok hvalue]
  exact bind_run_ok (write_run hv (visit_assigning hvalue) _)

theorem visit_one (hc : c.scope.assigning = none) :
    visit (.number "1") setting c = .ok (.value (.of (.int (some 1)))) c := by
  rw [visit_eq rfl, bind_run_ok (dropValue_run hc)]
  rfl

theorem visit_unsetting (hc : c.scope.assigning = none) :
    visit .unsetting setting c = .ok (.statement .normal) (c.withEnv (c.scope.env.erase "x")) := by
  rw [visit_eq rfl, bind_run_ok (dropValue_run hc)]
  rfl

end

/-- `try { $x = 1; unset($x); } catch (Exception $e) { }` -/
theorem handler_covers_unset :
    let one := (Node.assigning (.number "1")).asStatement
    ∃ state c c₂,
      untilHandler .trying [] (Node.catching.inField "catch") .alone .blank = .ok state c ∧
      onwards .normal [one] .alone Checker.blank.atBody = .ok .normal c₂ ∧
      c₂.scope.env.get? "x" = some (.of (.int (some 1))) ∧
      ∀ r : Registry, ¬c.scope.env.Covers r.hierarchy "x" (.of (.int (some 1))) := by
  intro one
  let c₀ := Checker.blank.atBody
  let c₁ : Checker := { c₀ with scope := c₀.scope.bind "x" (.of (.int (some 1))) }
  let c₂ := c₁.withEnv (c₁.scope.env.erase "x")
  have hassign : visit one .alone c₀ = .ok (.statement .normal) c₁ :=
    assigns_run (Node.assigns_assigning _) rfl rfl (visit_one rfl)
  have hone : onwards .normal [one] .alone c₀ = .ok .normal c₁ := by
    rw [onwards_normal]
    exact bind_run_ok hassign
  have hboth : onwards .normal [one, .unsetting] .alone c₀ = .ok .normal c₂ := by
    rw [onwards_normal, bind_run_ok hassign, Inferred.statement, onwards_normal]
    exact bind_run_ok (visit_unsetting rfl)
  have hkind : Node.trying.kind = .tryStatement := rfl
  have hbody : Node.trying.guarded = [one, .unsetting] := rfl
  have hclauses : Node.trying.childrenBy "catch" = [] ++ Node.catching.inField "catch" :: [] := rfl
  obtain ⟨state, c, hrun⟩ : ∃ state c', untilHandler .trying [] (Node.catching.inField "catch")
      .alone .blank = .ok state c' := untilHandler_run _ rfl hboth
  obtain ⟨-, flow, c₃, hends, hcovers⟩ := handler_covers hkind hclauses rfl hrun
  rw [hbody] at hends
  have hlast : c₃ = c₂ := by
    cases hends.symm.trans hboth
    rfl
  have hx : c₁.scope.env.get? "x" = some (.of (.int (some 1))) := by
    exact (Env.get?_set _ _ _ _).trans (if_pos rfl)
  refine ⟨state, c, c₁, hrun, hone, hx, fun r => ?_⟩
  obtain ⟨-, hunbound, -⟩ := hcovers [one] [.unsetting] c₁ rfl hone r "x" _ (by decide) hx
  refine hunbound rfl ?_
  rw [hlast]
  rfl

end Check

end PhpCheck
