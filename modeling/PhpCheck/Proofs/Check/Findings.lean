import PhpCheck.Proofs.Check.Frame

/-!
What findings do to the steps that come after them.

A step does not look at what was found before it (`Composite.extends`).  Whether findings
are noted or dropped is seen in two places only: a variable that is found undefined is
bound from then on, and a class that is found missing is not reported again.  Where
nothing of that sort is found, a step does the same in a checker that is muted
(`Composite.quiet`).
-/

namespace PhpCheck

open Check

/-! ### Findings so far -/

/-- A checker that had found something before. -/
def Checker.withEarlier (c : Checker) (ds : List Diagnostic) : Checker :=
  { c with diagnostics := c.diagnostics ++ ds }

/-- The checker with other findings. -/
def Checker.withFindings (c : Checker) (ds : List Diagnostic) : Checker :=
  { c with diagnostics := ds }

/-- The result of a step, had something been found before it. -/
def Check.withEarlier {α : Type} (ds : List Diagnostic) :
    EStateM.Result Abort Checker α → EStateM.Result Abort Checker α
  | .ok a c => .ok a (c.withEarlier ds)
  | .error e c => .error e (c.withEarlier ds)

/-- A step does not look at what was found before it. -/
def Check.Extends {α : Type} (setting : Setting) (m : Check α) : Prop :=
  ∀ c ds, m setting (c.withEarlier ds) = withEarlier ds (m setting c)

theorem Checker.Apart.withEarlier {α : Type} {f : Checker → α × Checker} (hf : Checker.Apart f)
    (c : Checker) (ds : List Diagnostic) :
    f (c.withEarlier ds) = ((f c).1, (f c).2.withEarlier ds) := by
  obtain ⟨hsession, hfound, hmuted, hown, hmissing⟩ := hf.fixes c
  refine (hf c c.session (c.diagnostics ++ ds) c.muted c.ownFunctions c.missingClasses).trans ?_
  rw [← hsession, ← hfound, ← hmuted, ← hown, ← hmissing]
  rfl

namespace Check.Extends

variable {α β : Type} {setting : Setting}

theorem bind {m : Check α} {f : α → Check β} (hm : m.Extends setting)
    (hf : ∀ a, (f a).Extends setting) : (m >>= f).Extends setting := by
  intro c ds
  rw [bind_run, bind_run, hm c ds]
  cases m setting c with
  | ok a c' => exact hf a c' ds
  | error e c' => rfl

theorem of_apart {f : Checker → α × Checker} (hf : Checker.Apart f) :
    (modifyGet f : Check α).Extends setting := by
  intro c ds
  rw [modifyGet_run, modifyGet_run, hf.withEarlier]
  rfl

theorem report (kind : DiagnosticKind) (node : Node) (message : String) :
    (Check.report kind node message).Extends setting := by
  intro c ds
  cases hfatal : kind.isFatal with
  | true =>
    rw [report_fatal hfatal, report_fatal hfatal]
    rfl
  | false =>
    rw [report_mild hfatal, report_mild hfatal]
    by_cases hmuted : c.muted = 0
    · rw [if_pos hmuted, if_pos (show (c.withEarlier ds).muted = 0 from hmuted)]
      rfl
    · rw [if_neg hmuted, if_neg (show (c.withEarlier ds).muted ≠ 0 from hmuted)]
      rfl

theorem noteMissing (name : String) : (Check.noteMissing name).Extends setting := by
  intro c ds
  by_cases hnew : c.Misses name
  · rw [noteMissing_new hnew, noteMissing_new (show (c.withEarlier ds).Misses name from hnew)]
    rfl
  · rw [noteMissing_known hnew,
      noteMissing_known (show ¬(c.withEarlier ds).Misses name from hnew)]
    rfl

end Check.Extends

theorem Check.Composite.extends {α : Type} {m : Check α} (hm : m.Composite) (setting : Setting) :
    m.Extends setting := by
  induction hm with
  | pure a => exact fun _ _ => rfl
  | bind _ _ ihm ihf => exact .bind ihm ihf
  | apart hf _ => exact .of_apart hf
  | @around _ _ _ enter leave undo m henter hleave hundo _ _ ih =>
    intro c ds
    rw [around_run, around_run, henter.withEarlier]
    dsimp only
    rw [ih (enter c).2 ds]
    cases m setting (enter c).2 with
    | ok a c' =>
      dsimp only [withEarlier]
      rw [(hleave (enter c).1 a).withEarlier]
    | error e c' =>
      dsimp only [withEarlier]
      exact congrArg (EStateM.Result.error e)
        (congrArg Prod.snd ((hundo (enter c).1).withEarlier c' ds))
  | quietly _ ih =>
    exact .bind (fun _ _ => rfl) fun _ => .bind ih fun _ =>
      .bind (fun _ _ => rfl) fun _ _ _ => rfl
  | report kind node message => exact .report kind node message
  | reportMisnamed bad node message =>
    intro c ds
    rw [reportMisnamed_run, reportMisnamed_run]
    refine congrArg (EStateM.Result.ok ())
      (.trans ?_ (apply_ite (Checker.withEarlier · ds) _ _ _).symm)
    rfl
  | reviseFunction given name f =>
    intro c ds
    rw [reviseFunction_run, reviseFunction_run,
      Checker.revising_map (·.withEarlier ds) rfl fun _ => rfl]
    rfl
  | configured _ _ ih => exact .bind (fun _ _ => rfl) ih
  | reportMissing name node =>
    refine .bind (.noteMissing name) fun isNew => ?_
    cases isNew with
    | true => exact .report _ node _
    | false => exact fun _ _ => rfl
  | reportUndefined name node =>
    refine .bind (.report _ node _) fun _ => .bind (fun _ _ => rfl) fun muted => ?_
    split
    · exact .of_apart fun _ _ _ _ _ _ => rfl
    · exact fun _ _ => rfl
  | registerFunction name f =>
    intro c ds
    rw [registerFunction_run, registerFunction_run]
    rfl
  | currentFile | currentDir | registry | resolveInclude? _ | modifyRegistry _ _ | autoload _
  | includeFile _ _ => exact fun _ _ => rfl

/-! ### Places -/

/-- The findings of a checker are in the file. -/
def Checker.Located (setting : Setting) (c : Checker) : Prop :=
  ∀ d ∈ c.diagnostics, d.location.file = setting.file

theorem Setting.invariant_located {setting : Setting} :
    Invariant setting (Checker.Located setting) where
  same _ _ _ hfound _ hc := fun d hd => hc d (hfound ▸ hd)
  note _ _ _ hc := List.forall_mem_cons.2 ⟨rfl, hc⟩
  registry _ _ hc := hc
  registering _ _ hc := hc
  revising _ _ _ hc := by
    unfold Checker.revising
    split <;> exact hc
  autoload _ hc := hc
  includeFile _ _ hc := hc

/-- What a step finds is in the file. -/
theorem Check.Composite.locates {α : Type} {m : Check α} (hm : m.Composite) (setting : Setting) :
    m.Maintains (Checker.Located setting) setting :=
  hm.maintains setting.invariant_located

/-! ### Ending -/

/-- Where a step ends the analysis, something fatal was found. -/
def Check.Explains {α : Type} (setting : Setting) (m : Check α) : Prop :=
  ∀ c e c', m setting c = .error e c' → ∃ d ∈ c'.diagnostics, d.kind.isFatal = true

namespace Check.Explains

variable {α β : Type} {setting : Setting}

theorem bind {m : Check α} {f : α → Check β} (hm : m.Explains setting)
    (hf : ∀ a, (f a).Explains setting) : (m >>= f).Explains setting := by
  intro c e c'' hrun
  rw [bind_run] at hrun
  cases hfirst : m setting c with
  | ok a c' =>
    rw [hfirst] at hrun
    exact hf a c' e c'' hrun
  | error e' c' =>
    rw [hfirst] at hrun
    cases hrun
    exact hm c e _ hfirst

/-- A step that always goes to its end. -/
theorem of_run {m : Check α} {a : Checker → α} {next : Checker → Checker}
    (hrun : ∀ c, m setting c = .ok (a c) (next c)) : m.Explains setting := by
  intro c e c' herror
  rw [hrun] at herror
  cases herror

theorem report (kind : DiagnosticKind) (node : Node) (message : String) :
    (Check.report kind node message).Explains setting := by
  intro c e c' hrun
  cases hfatal : kind.isFatal with
  | true =>
    rw [report_fatal hfatal] at hrun
    cases hrun
    exact ⟨_, List.mem_cons_self, hfatal⟩
  | false =>
    rw [report_mild hfatal] at hrun
    cases hrun

end Check.Explains

theorem Check.Composite.explains {α : Type} {m : Check α} (hm : m.Composite) (setting : Setting) :
    m.Explains setting := by
  induction hm with
  | bind _ _ ihm ihf => exact .bind ihm ihf
  | apart _ _ => exact .of_run (modifyGet_run _ setting)
  | @around _ _ _ enter leave undo m henter hleave hundo _ _ ih =>
    intro c e c'' hrun
    rw [around_run] at hrun
    cases hm : m setting (enter c).2 with
    | ok a c' =>
      rw [hm] at hrun
      cases hrun
    | error e' c' =>
      rw [hm] at hrun
      cases hrun
      rw [((hundo (enter c).1).fixes c').2.1]
      exact ih (enter c).2 e c' hm
  | @quietly _ m _ ih =>
    intro c e c'' hrun
    rw [quietly_run] at hrun
    cases hm : m setting { c with muted := c.muted + 1 } with
    | ok a c' =>
      rw [hm] at hrun
      cases hrun
    | error e' c' =>
      rw [hm] at hrun
      cases hrun
      exact ih _ e _ hm
  | report kind node message => exact .report kind node message
  | reportMisnamed bad node message => exact .of_run (reportMisnamed_run bad node message setting)
  | reportMissing name node =>
    refine .bind (.of_run (modifyGet_run _ setting)) fun isNew => ?_
    cases isNew with
    | true => exact .report _ node _
    | false => exact .of_run fun _ => rfl
  | reportUndefined name node =>
    refine .bind (.report _ node _) fun _ => .bind (.of_run fun _ => rfl) fun muted => ?_
    split <;> exact .of_run fun _ => rfl
  | registerFunction name f => exact .of_run (registerFunction_run name f setting)
  | reviseFunction given name f => exact .of_run (reviseFunction_run given name f setting)
  | configured _ _ ih => exact .bind (.of_run fun _ => rfl) ih
  | autoload name => exact .of_run (onSession_run _ setting)
  | includeFile path once => exact .of_run (onSession_run _ setting)
  | pure | currentFile | currentDir | registry | resolveInclude? _ | modifyRegistry _ _ =>
    exact .of_run fun _ => rfl

/-- Nothing fatal was found. -/
def Checker.Unbroken (c : Checker) : Prop := ∀ d ∈ c.diagnostics, d.kind.isFatal = false

theorem Checker.Unbroken.note {c : Checker} (hc : c.Unbroken) {d : Diagnostic}
    (hmild : d.kind.isFatal = false) : (c.note d).Unbroken :=
  List.forall_mem_cons.2 ⟨hmild, hc⟩

/-- Where a step goes to its end, it found nothing fatal. -/
theorem Check.Composite.unbroken {α : Type} {m : Check α} (hm : m.Composite) {setting : Setting}
    {c c' : Checker} {a : α} (hrun : m setting c = .ok a c') (hc : c.Unbroken) : c'.Unbroken := by
  induction hm generalizing c c' with
  | bind _ _ ihm ihf =>
    obtain ⟨b, c₁, hfirst, hlast⟩ := bind_ok hrun
    exact ihf b hlast (ihm hfirst hc)
  | apart hf _ =>
    cases hrun
    unfold Checker.Unbroken
    rw [(hf.fixes c).2.1]
    exact hc
  | around enter leave undo henter hleave _ _ _ ih =>
    rw [around_run] at hrun
    split at hrun
    · rename_i b c₁ hstep
      cases hrun
      unfold Checker.Unbroken at hc ⊢
      rw [((hleave (enter c).1 b).fixes c₁).2.1]
      refine ih hstep ?_
      unfold Checker.Unbroken
      rwa [(henter.fixes c).2.1]
    · cases hrun
  | @quietly _ m _ ih =>
    rw [quietly_run] at hrun
    split at hrun
    · rename_i c₁ hstep
      cases hrun
      have hinner : c₁.Unbroken := ih hstep hc
      exact hinner
    · cases hrun
  | report kind node message =>
    cases hfatal : kind.isFatal with
    | true =>
      rw [report_fatal hfatal] at hrun
      cases hrun
    | false =>
      rw [report_mild hfatal] at hrun
      cases hrun
      split
      · exact hc.note hfatal
      · exact hc
  | reportMisnamed bad node message =>
    rw [reportMisnamed_run] at hrun
    cases hrun
    split
    · exact hc.note rfl
    · exact hc
  | reportMissing name node =>
    by_cases hnew : c.Misses name
    · rw [reportMissing_new hnew] at hrun
      cases hrun
      exact Checker.Unbroken.note (c := { c with missingClasses := _ }) hc rfl
    · rw [reportMissing_known hnew] at hrun
      cases hrun
      exact hc
  | reportUndefined name node =>
    by_cases hmuted : c.muted = 0
    · rw [reportUndefined_noted hmuted] at hrun
      cases hrun
      have hnoted : (c.note (setting.undefined name node)).Unbroken := hc.note rfl
      split
      · exact hnoted
      · exact hnoted
    · rw [reportUndefined_muted hmuted] at hrun
      cases hrun
      exact hc
  | registerFunction name f =>
    rw [registerFunction_run] at hrun
    cases hrun
    exact hc
  | reviseFunction given name f =>
    rw [reviseFunction_run] at hrun
    cases hrun
    unfold Checker.revising
    split
    · exact hc
    · exact hc
  | @configured _ f _ _ ih =>
    exact ih _ (c := c) hrun hc
  | pure | currentFile | currentDir | registry | resolveInclude? _ | modifyRegistry _ _
  | autoload _ | includeFile _ _ =>
    cases hrun
    exact hc

/-! ### Muting -/

/-- A finding that changes what comes after it: an undefined variable is bound from then
on, and a missing class is not reported again. -/
def Diagnostic.HasEffect (d : Diagnostic) : Prop :=
  d.kind = .classLoadFailure ∨
    d.kind = .undefinedName ∧ ∃ name : String, d.message = s!"undefined variable ${name}"

/-- A variable is not defined, and is bound from then on. -/
def Diagnostic.BindsVariable (d : Diagnostic) : Prop :=
  d.kind = .undefinedName ∧ ∃ name : String, d.message = s!"undefined variable ${name}"

/-- The checker, muted, with other findings and with other classes that are missing. -/
def Checker.hushed (c : Checker) (depth : Nat) (ds : List Diagnostic) (missing : List String) :
    Checker :=
  { c with muted := depth + 1, diagnostics := ds, missingClasses := missing }

/-- A step that goes to its end goes to the same end in a muted checker, if it does not
find a variable undefined. -/
def Check.Quiet {α : Type} (setting : Setting) (m : Check α) : Prop :=
  ∀ c a c', m setting c = .ok a c' → (c.muted = 0 → ∀ d ∈ c'.diagnostics, ¬d.BindsVariable) →
    ∀ depth ds missing,
      m setting (c.hushed depth ds missing) = .ok a (c'.hushed depth ds missing)

theorem Checker.Apart.hushed {α : Type} {f : Checker → α × Checker} (hf : Checker.Apart f)
    (c : Checker) (depth : Nat) (ds : List Diagnostic) (missing : List String) :
    f (c.hushed depth ds missing) = ((f c).1, (f c).2.hushed depth ds missing) := by
  obtain ⟨hsession, -, -, hown, -⟩ := hf.fixes c
  refine (hf c c.session ds (depth + 1) c.ownFunctions missing).trans ?_
  rw [← hsession, ← hown]
  rfl

namespace Check.Quiet

variable {α β : Type} {setting : Setting}

theorem bind {m : Check α} {f : α → Check β} (hkeeps : m.Keeps setting)
    (hthen : ∀ a, (f a).Keeps setting) (hm : m.Quiet setting) (hf : ∀ a, (f a).Quiet setting) :
    (m >>= f).Quiet setting := by
  intro c b c'' hrun hbound depth ds missing
  obtain ⟨a, c', hfirst, hlast⟩ := bind_ok hrun
  have hkept := hkeeps c a c' hfirst
  have hgrown := (hthen a c' b c'' hlast).diagnostics
  have hfirst := hm c a c' hfirst (fun hmuted d hd => hbound hmuted d (hgrown.subset hd))
    depth ds missing
  have hlast := hf a c' b c'' hlast (fun hmuted => hbound (hkept.muted ▸ hmuted)) depth ds missing
  rw [bind_run, hfirst]
  exact hlast

theorem of_apart {f : Checker → α × Checker} (hf : Checker.Apart f) :
    (modifyGet f : Check α).Quiet setting := by
  intro c a c' hrun _ depth ds missing
  cases hrun
  rw [modifyGet_run, hf.hushed]

theorem report (kind : DiagnosticKind) (node : Node) (message : String) :
    (Check.report kind node message).Quiet setting := by
  intro c a c' hrun _ depth ds missing
  cases hfatal : kind.isFatal with
  | true =>
    rw [report_fatal hfatal] at hrun
    cases hrun
  | false =>
    rw [report_mild hfatal] at hrun ⊢
    cases hrun
    rw [if_neg (show (c.hushed depth ds missing).muted ≠ 0 from Nat.succ_ne_zero depth)]
    split <;> rfl

end Check.Quiet

theorem Check.Composite.quiet {α : Type} {m : Check α} (hm : m.Composite) (setting : Setting) :
    m.Quiet setting := by
  induction hm with
  | bind hm hf ihm ihf =>
    exact .bind (hm.keeps setting) (fun a => (hf a).keeps setting) ihm ihf
  | apart hf _ => exact .of_apart hf
  | around enter leave _ henter hleave _ _ hm ih =>
    intro c x c₂ hrun hbound depth ds missing
    rw [around_run] at hrun ⊢
    split at hrun
    · rename_i a c₁ hstep
      cases hrun
      have hmuted := (henter.fixes c).2.2.1
      have hfound := ((hleave (enter c).1 a).fixes c₁).2.1
      have hinner := ih _ a c₁ hstep (fun hz d hd => hbound (hmuted ▸ hz) d (hfound ▸ hd))
        depth ds missing
      rw [henter.hushed]
      dsimp only
      rw [hinner]
      dsimp only
      rw [(hleave _ a).hushed]
    · cases hrun
  | quietly _ ih =>
    intro c a c₂ hrun _ depth ds missing
    rw [quietly_run] at hrun ⊢
    split at hrun
    · rename_i c₁ hstep
      cases hrun
      have hstart :
          ({ c.hushed depth ds missing with
            muted := (c.hushed depth ds missing).muted + 1 } : Checker) =
          Checker.hushed { c with muted := c.muted + 1 } (depth + 1) ds missing := rfl
      rw [hstart, ih _ a c₁ hstep (fun hz => absurd hz (Nat.succ_ne_zero _)) (depth + 1) ds missing]
      rfl
    · cases hrun
  | report kind node message => exact .report kind node message
  | reportMisnamed bad node message =>
    intro c a c' hrun _ depth ds missing
    rw [reportMisnamed_run] at hrun ⊢
    cases hrun
    rw [if_neg (by simp [Checker.hushed])]
    split <;> rfl
  | reviseFunction given name f =>
    intro c a c' hrun _ depth ds missing
    rw [reviseFunction_run] at hrun ⊢
    cases hrun
    rw [Checker.revising_map (·.hushed depth ds missing) rfl fun _ => rfl]
  | registerFunction name f =>
    intro c a c' hrun _ depth ds missing
    rw [registerFunction_run] at hrun ⊢
    cases hrun
    rfl
  | configured _ hf ih =>
    refine .bind (.of_modifyGet (f := fun c => (_, c)) .refl) (fun a => (hf a).keeps setting) ?_ ih
    intro c a c' hrun _ depth ds missing
    cases hrun
    rfl
  | reportMissing name node =>
    intro c a c' hrun hbound depth ds missing
    have hquiet : ¬(c.hushed depth ds missing).Misses name :=
      fun hmiss => Nat.succ_ne_zero _ hmiss.1
    rw [reportMissing_known hquiet]
    by_cases hnew : c.Misses name
    · rw [reportMissing_new hnew] at hrun
      cases hrun
      rfl
    · rw [reportMissing_known hnew] at hrun
      cases hrun
      rfl
  | reportUndefined name node =>
    intro c a c' hrun hbound depth ds missing
    rw [reportUndefined_muted (show (c.hushed depth ds missing).muted ≠ 0 from
      Nat.succ_ne_zero depth)]
    by_cases hmuted : c.muted = 0
    · rw [reportUndefined_noted hmuted] at hrun
      cases hrun
      by_cases hthis : name = Scope.this
      · rw [if_pos hthis]
        rfl
      · rw [if_neg hthis] at hbound
        refine absurd ⟨rfl, name, ?_⟩ (hbound hmuted _ List.mem_cons_self)
        exact if_neg (by simpa using hthis)
    · rw [reportUndefined_muted hmuted] at hrun
      cases hrun
      rfl
  | pure | currentFile | currentDir | registry | resolveInclude? _ | modifyRegistry _ _
  | autoload _ | includeFile _ _ =>
    intro c a c' hrun _ depth ds missing
    cases hrun
    rfl

/-- Nothing but the findings and the classes that are missing is different if a step is muted that
does not find a variable undefined. -/
theorem Check.Composite.hushed {α : Type} {m : Check α} (hm : m.Composite) {setting : Setting}
    {c c' : Checker} {a : α} {found : List Diagnostic} (hrun : m setting c = .ok a c')
    (hfound : c'.diagnostics = found ++ c.diagnostics) (hbound : ∀ d ∈ found, ¬d.BindsVariable)
    (depth : Nat) (ds : List Diagnostic) (missing : List String) :
    m setting (c.hushed depth ds missing) = .ok a (c'.hushed depth ds missing) := by
  have hextends := hm.extends setting (c.withFindings []) c.diagnostics
  have hstart : (c.withFindings []).withEarlier c.diagnostics = c := rfl
  rw [hstart, hrun] at hextends
  cases hempty : m setting (c.withFindings []) with
  | error e c₁ =>
    rw [hempty] at hextends
    cases hextends
  | ok b c₁ =>
    rw [hempty] at hextends
    cases hextends
    have hnew : c₁.diagnostics = found := List.append_cancel_right hfound
    exact hm.quiet setting _ a c₁ hempty (fun _ => hnew ▸ hbound) depth ds missing

/-- A step that does not find anything that has an effect, taken without noting what is
found. -/
theorem Check.quietly_unnoticed {α : Type} {m : Check α} (hm : m.Composite) {setting : Setting}
    {c c' : Checker} {a : α} (hrun : m setting c = .ok a c') (hmuted : c.muted = 0)
    (hquiet : ∀ d ∈ c'.diagnostics, ¬d.HasEffect) :
    quietly m setting c = .ok a (c'.withFindings c.diagnostics) := by
  have hkept := hm.keeps setting c a c' hrun
  have hmissing : c'.missingClasses = c.missingClasses :=
    hkept.missing.resolve_right fun ⟨_, d, hd, hkind⟩ => hquiet d hd (.inl hkind)
  have hstart : ({ c with muted := c.muted + 1 } : Checker) =
      c.hushed 0 c.diagnostics c.missingClasses := by
    rw [hmuted]
    rfl
  have hend : ({ c'.hushed 0 c.diagnostics c.missingClasses with muted := 0 } : Checker) =
      c'.withFindings c.diagnostics := by
    rw [Checker.withFindings, ← hmissing, ← hkept.muted.trans hmuted]
    rfl
  have hbound : ∀ d ∈ c'.diagnostics, ¬d.BindsVariable := fun d hd h => hquiet d hd (.inr h)
  rw [quietly_run, hstart,
    hm.quiet setting c a c' hrun (fun _ => hbound) 0 c.diagnostics c.missingClasses, ← hend]
  rfl

end PhpCheck
