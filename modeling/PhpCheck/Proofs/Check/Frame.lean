import PhpCheck.Proofs.Check.Effect

/-!
What checking a node leaves of the checker around it.

Rules enter scopes and leave them, drop findings for a while, and set what is being
assigned.  When a node has been checked, all of that is as it was before: the class, the
function and the loops around the node, and how reading and findings are taken
(`Check.visit_restores`).  Only the variables, the names, the results of the function and
the jumps out of its loops have changed.
-/

namespace PhpCheck

open Check

theorem Checker.kept_note (c : Checker) (d : Diagnostic) : c.Kept (c.note d) where
  muted := rfl
  scope := .refl _
  hoisted := List.suffix_refl _
  ownFunctions := List.suffix_refl _
  diagnostics := List.suffix_cons _ _
  missing := .inl rfl

/-- A step that goes to its end keeps the checker. -/
def Check.Keeps {α : Type} (setting : Setting) (m : Check α) : Prop :=
  ∀ c a c', m setting c = .ok a c' → c.Kept c'

namespace Check.Keeps

variable {α β : Type} {setting : Setting}

theorem bind {m : Check α} {f : α → Check β} (hm : m.Keeps setting)
    (hf : ∀ a, (f a).Keeps setting) : (m >>= f).Keeps setting := by
  intro c b c'' hrun
  obtain ⟨a, c', hfirst, hthen⟩ := bind_ok hrun
  exact (hm c a c' hfirst).trans (hf a c' b c'' hthen)

theorem of_modifyGet {f : Checker → α × Checker} (hf : ∀ c : Checker, c.Kept (f c).2) :
    (modifyGet f : Check α).Keeps setting := by
  intro c a c' hrun
  rw [modifyGet_run] at hrun
  cases hrun
  exact hf c

theorem of_run {m : Check α} {a : Checker → α} {next : Checker → Checker}
    (hrun : ∀ c, m setting c = .ok (a c) (next c)) (hnext : ∀ c : Checker, c.Kept (next c)) :
    m.Keeps setting := by
  intro c x c' hx
  rw [hrun] at hx
  cases hx
  exact hnext c

theorem report (kind : DiagnosticKind) (node : Node) (message : String) :
    (Check.report kind node message).Keeps setting := by
  intro c a c' hrun
  cases hfatal : kind.isFatal with
  | true =>
    rw [report_fatal hfatal] at hrun
    cases hrun
  | false =>
    rw [report_mild hfatal] at hrun
    cases hrun
    split
    · exact c.kept_note _
    · exact .refl c

end Check.Keeps

/-- Every step that is put together from the primitive ones keeps the checker. -/
theorem Check.Composite.keeps {α : Type} {m : Check α} (hm : m.Composite) (setting : Setting) :
    m.Keeps setting := by
  induction hm with
  | pure a => exact .of_modifyGet (f := fun c => (a, c)) .refl
  | bind _ _ ihm ihf => exact .bind ihm ihf
  | apart _ hkept => exact .of_modifyGet hkept
  | around enter leave _ _ _ _ hkept _ ih =>
    intro c x c₂ hrun
    rw [around_run] at hrun
    split at hrun
    · rename_i a c₁ hm
      cases hrun
      exact hkept c c₁ a (ih _ a c₁ hm)
    · cases hrun
  | quietly _ ih =>
    intro c x c₂ hrun
    rw [quietly_run] at hrun
    split at hrun
    · rename_i c₁ hm
      cases hrun
      have hstep := ih _ _ c₁ hm
      refine { hstep with muted := ?_, missing := ?_ }
      · show c₁.muted - 1 = c.muted
        rw [hstep.muted]
        exact Nat.add_sub_cancel c.muted 1
      · exact .inl (hstep.missing.resolve_right fun h => Nat.succ_ne_zero _ h.1)
    · cases hrun
  | report kind node message => exact .report kind node message
  | reportMisnamed bad node message =>
    refine .of_run (reportMisnamed_run bad node message setting) fun c => ?_
    split
    · exact c.kept_note _
    · exact .refl c
  | registerFunction name f =>
    refine .of_run (registerFunction_run name f setting) fun c =>
      { Checker.Kept.refl c with ownFunctions := ?_ }
    dsimp only [Checker.registering]
    split
    · exact List.suffix_cons _ _
    · exact List.suffix_refl _
  | reviseFunction given name f =>
    refine .of_run (reviseFunction_run given name f setting) fun c => ?_
    unfold Checker.revising
    split
    · exact { Checker.Kept.refl c with }
    · exact .refl c
  | configured _ _ ih => exact .bind (.of_modifyGet (f := fun c => (_, c)) .refl) ih
  | reportMissing name node =>
    intro c a c' hrun
    by_cases hnew : c.Misses name
    · rw [reportMissing_new hnew] at hrun
      cases hrun
      exact { Checker.Kept.refl c with
        diagnostics := List.suffix_cons _ _
        missing := .inr ⟨hnew.1, _, List.mem_cons_self, rfl⟩ }
    · rw [reportMissing_known hnew] at hrun
      cases hrun
      exact .refl c
  | reportUndefined name node =>
    refine .bind (.report _ node _) fun _ => ?_
    refine .bind (.of_modifyGet (f := fun c => (_, c)) .refl) fun muted => ?_
    split
    · exact .of_modifyGet fun c =>
        { Checker.Kept.refl c with scope := c.scope.kept_env _ }
    · exact .of_modifyGet (f := fun c => ((), c)) .refl
  | currentFile | currentDir | registry | resolveInclude? _ | modifyRegistry _ _ | autoload _
    | includeFile _ _ =>
    intro c a c' hrun
    cases hrun
    exact { Checker.Kept.refl c with }

theorem Check.visit_assigning {node : Node} {setting : Setting} {c c' : Checker} {a : Inferred}
    (hvisit : Check.visit node setting c = .ok a c') : c'.scope.assigning = none := by
  -- The value being assigned is taken before the rule for the node is applied.
  obtain ⟨s, c₁, hscope, hrun⟩ := bind_ok hvisit
  obtain ⟨_, c₂, hcleared, happly⟩ := bind_ok hrun
  cases hscope
  cases hcleared
  have hr := Rules.composite_below node.height
  exact ((hr.apply node _).keeps setting _ _ _ happly).scope.assigning rfl

/-- Checking a node restores what it entered: how findings and reading are taken, the
class, the function and the loops around the node.  Jumps are only added to loops, and
nothing is left to be assigned. -/
theorem Check.visit_restores {node : Node} {setting : Setting} {c c' : Checker} {a : Inferred}
    (hvisit : Check.visit node setting c = .ok a c') :
    c'.muted = c.muted ∧ c'.scope.probing = c.scope.probing ∧
    c'.scope.including = c.scope.including ∧ c'.scope.classContext = c.scope.classContext ∧
    c'.scope.isStatic = c.scope.isStatic ∧
    (c'.scope.function.map fun f => (f.name, f.declared, f.isGenerator)) =
      (c.scope.function.map fun f => (f.name, f.declared, f.isGenerator)) ∧
    c'.scope.jumps.length = c.scope.jumps.length ∧
    (∀ (i : Nat) (j k : Jumps), c.scope.jumps[i]? = some j → c'.scope.jumps[i]? = some k →
      j.breaks <+: k.breaks ∧ j.continues <+: k.continues) ∧
    c'.scope.assigning = none := by
  obtain ⟨hmuted, hscope, -, -, -, -⟩ := (Check.composite_visit node).keeps setting c a c' hvisit
  have hfunction := congrArg (Option.map fun f => (f.name, f.declared, f.isGenerator))
    hscope.function
  rw [Option.map_map, Option.map_map] at hfunction
  refine ⟨hmuted, hscope.probing, hscope.including, hscope.classContext, hscope.isStatic,
    hfunction, hscope.jumps.length_eq.symm, fun i j k hj hk => ?_, visit_assigning hvisit⟩
  obtain ⟨hi, rfl⟩ := List.getElem?_eq_some_iff.1 hj
  obtain ⟨hi', rfl⟩ := List.getElem?_eq_some_iff.1 hk
  have hext := hscope.jumps.get hi hi'
  exact ⟨hext.breaks, hext.continues⟩

/-- A file that loads no other. -/
def Setting.alone : Setting where
  file := "a.php"
  dir := ""
  loads := { autoload := fun _ s => (false, s), includeFile := fun _ _ s => (.failed, s) }

/-- A jump out of the only loop, in a checker that is muted and has a value to assign. -/
theorem Check.break_restores :
    let c : Checker := { session := default, muted := 2
                         scope := { assigning := some .mixed, probing := true, jumps := [{}] } }
    ∃ a c', Check.visit (.ofKind .breakStatement default []) .alone c = .ok a c' ∧ c'.muted = 2 ∧
      c'.scope.probing = true ∧ c'.scope.jumps.length = 1 ∧ c'.scope.assigning = none := by
  intro c
  obtain ⟨a, c', hvisit⟩ : ∃ a c',
      Check.visit (.ofKind .breakStatement default []) .alone c = .ok a c' := ⟨_, _, rfl⟩
  obtain ⟨hmuted, hprobing, -, -, -, -, hjumps, -, hassigning⟩ := Check.visit_restores hvisit
  exact ⟨a, c', hvisit, hmuted, hprobing, hjumps, hassigning⟩

end PhpCheck
