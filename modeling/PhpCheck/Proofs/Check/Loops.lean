import PhpCheck.Proofs.Check.Blind
import PhpCheck.Proofs.Check.Sharing

/-!
From which environment the findings of a loop are noted.

Passes over a loop that are not noted widen its head (`Check.Widens`) until one brings nothing
new to it (`Check.Brings`), or until there were as many as there may be (`Check.settle_ok_iff`).
The pass that is noted starts from the last head, in the state that the passes before it have
left.  Muted, it would go to the same end if it finds no variable undefined, and passes from the
same head do alike where they stand on the same ground.  So nothing new comes back with it either
(`Check.loop_head`), but in a loop that five passes do not settle: what is copied from variable
to variable moves on by one variable with each pass (`Check.copying_unsettled`).
-/

namespace PhpCheck

/-- The environment in which a loop is entered. -/
def Checker.loopEntry (c : Checker) : Env := c.scope.env.numbered c.nextSnapshot

/-- The checker in front of the first pass over a loop. -/
def Checker.enteringLoop (c : Checker) : Checker :=
  { c.withEnv c.loopEntry with muted := c.muted + 1, nextSnapshot := c.nextSnapshot + 1 }

/-- The checker behind the passes that are not noted. -/
def Checker.unmuted (c : Checker) : Checker := { c with muted := c.muted - 1 }

/-- The session, the names in force, and what is noted of the declarations of the file are the
same. -/
structure Checker.SameGround (c c' : Checker) : Prop where
  session : c'.session = c.session
  names : c'.scope.names = c.scope.names
  hoisted : c'.hoisted = c.hoisted
  ownClasses : c'.ownClasses = c.ownClasses
  ownFunctions : c'.ownFunctions = c.ownFunctions

/-- No variable is found undefined on the way from one checker to the other. -/
def Checker.FindsDefined (c c' : Checker) : Prop :=
  ∀ found, c'.diagnostics = found ++ c.diagnostics → ∀ d ∈ found, ¬d.BindsVariable

namespace Check

/-- So many passes, each of which brings something new to the head of a loop, lead from a head
in a state to another. -/
inductive Widens (pass : Check LoopPass) (setting : Setting) :
    Nat → Env → Checker → Env → Checker → Prop
  | refl (head : Env) (c : Checker) : Widens pass setting 0 head c head c
  | pass {n : Nat} {head head' back : Env} {c c₁ c' : Checker} {p : LoopPass}
      (hpass : pass setting (c.withEnv head) = .ok p c₁) (hback : p.backEdge = some back)
      (hchanges : head.mergeChanges back = true)
      (hrest : Widens pass setting n ((head.merge back).numbered c₁.nextSnapshot)
        { c₁ with nextSnapshot := c₁.nextSnapshot + 1 } head' c') :
      Widens pass setting (n + 1) head c head' c'

/-- Something that is new to the head of the loop comes back with a pass. -/
def Brings (head : Env) (p : LoopPass) : Prop :=
  ∃ back, p.backEdge = some back ∧ head.mergeChanges back = true

/-- How passes that are not noted, over a loop that is entered in the state `c`, come to the
head from which a pass is noted, and to the state `c₁`.  The noted pass leads to `c₂`. -/
inductive Reaches (pass : Check LoopPass) (setting : Setting) (c : Checker) (head : Env)
    (c₁ c₂ : Checker) (last : LoopPass) : Prop
  /-- As many as there may be have each brought something new. -/
  | exhausted
      (hwidens : Widens pass setting maxLoopPasses c.loopEntry c.enteringLoop head c₁)
  /-- There may be more, but the last one from the same head has brought nothing new.  Nor does
  the noted one, where the last one has left the ground the same, unless it finds a variable
  undefined. -/
  | settled {n : Nat} {c₀ : Checker} {p : LoopPass} (hn : n < maxLoopPasses)
      (hwidens : Widens pass setting n c.loopEntry c.enteringLoop head c₀)
      (hpass : pass setting (c₀.withEnv head) = .ok p c₁) (hsettled : ¬Brings head p)
      (hlast : c₀.SameGround c₁ → c₁.FindsDefined c₂ → ¬Brings head last)

section

variable {pass : Check LoopPass} {setting : Setting} {c c' : Checker} {head head' : Env}

theorem settle_error {passes : Nat} {e : Abort}
    (hpass : pass setting (c.withEnv head) = .error e c') :
    settle pass (passes + 1) head setting c = .error e c' :=
  bind_run_error (m := setEnv head >>= fun _ => pass) hpass

/-- A pass with which nothing new comes back is the last one. -/
theorem settle_settled {passes : Nat} {p : LoopPass}
    (hpass : pass setting (c.withEnv head) = .ok p c')
    (hbrings : ¬Brings head p) : settle pass (passes + 1) head setting c = .ok head c' := by
  refine (bind_run_ok (m := setEnv head >>= fun _ => pass) hpass).trans ?_
  cases hback : p.backEdge with
  | none => rfl
  | some back =>
    have hchanges : head.mergeChanges back ≠ true := fun h => hbrings ⟨back, hback, h⟩
    exact congrFun (congrFun (if_neg hchanges) setting) c'

/-- A pass with which something new comes back is followed by one from a wider head. -/
theorem settle_widens {passes : Nat} {p : LoopPass} {back : Env}
    (hpass : pass setting (c.withEnv head) = .ok p c') (hback : p.backEdge = some back)
    (hchanges : head.mergeChanges back = true) :
    settle pass (passes + 1) head setting c =
      settle pass passes ((head.merge back).numbered c'.nextSnapshot) setting
        { c' with nextSnapshot := c'.nextSnapshot + 1 } := by
  refine (bind_run_ok (m := setEnv head >>= fun _ => pass) hpass).trans ?_
  rw [hback]
  show (if head.mergeChanges back = true then snapshot (head.merge back) >>= settle pass passes
    else Pure.pure head : Check Env) setting c' = _
  rw [if_pos hchanges]
  rfl

/-- The passes end with the first one that brings nothing new, and else when there were as
many as there may be. -/
theorem settle_ok_iff {passes : Nat} :
    settle pass passes head setting c = .ok head' c' ↔
      Widens pass setting passes head c head' c' ∨
        ∃ n c₁ p, n < passes ∧ Widens pass setting n head c head' c₁ ∧
          pass setting (c₁.withEnv head') = .ok p c' ∧ ¬Brings head' p := by
  induction passes generalizing head c with
  | zero =>
    constructor
    · intro hrun
      cases hrun
      exact .inl (.refl _ _)
    · rintro (hwidens | ⟨n, c₁, p, hn, -⟩)
      · cases hwidens
        rfl
      · exact absurd hn (Nat.not_lt_zero n)
  | succ passes ih =>
    constructor
    · intro hrun
      cases hpass : pass setting (c.withEnv head) with
      | error e c₁ =>
        rw [settle_error hpass] at hrun
        cases hrun
      | ok p c₁ =>
        by_cases hbrings : Brings head p
        · obtain ⟨back, hback, hchanges⟩ := hbrings
          rw [settle_widens hpass hback hchanges, ih] at hrun
          rcases hrun with hwidens | ⟨n, c₂, q, hn, hwidens, hlast, hsettled⟩
          · exact .inl (.pass hpass hback hchanges hwidens)
          · exact .inr ⟨n + 1, c₂, q, Nat.succ_lt_succ hn, .pass hpass hback hchanges hwidens,
              hlast, hsettled⟩
        · rw [settle_settled hpass hbrings] at hrun
          cases hrun
          exact .inr ⟨0, c, p, Nat.succ_pos passes, .refl _ _, hpass, hbrings⟩
    · rintro (hwidens | ⟨n, c₁, p, hn, hwidens, hlast, hsettled⟩)
      · cases hwidens with
        | pass hpass hback hchanges hrest =>
          rw [settle_widens hpass hback hchanges, ih]
          exact .inl hrest
      · cases hwidens with
        | refl => exact settle_settled hlast hsettled
        | pass hpass hback hchanges hrest =>
          rw [settle_widens hpass hback hchanges, ih]
          exact .inr ⟨_, c₁, p, Nat.lt_of_succ_lt_succ hn, hrest, hlast, hsettled⟩

/-- Checks a loop up to the pass that is noted: the head from which that pass starts, and what
it results in. -/
def reported (pass : Check LoopPass) : Check (Env × LoopPass) := do
  let head ← quietly (settle pass maxLoopPasses (← env))
  setEnv head
  return (head, ← pass)

theorem runLoop_eq (pass : Check LoopPass) : runLoop pass = (do
    let (_, last) ← reported pass
    match Env.joinAll? last.exits with
    | some after =>
      setEnv after
      return .normal
    | none => return .exit) := by
  unfold runLoop reported
  rw [bind_assoc]
  refine bind_congr fun entry => ?_
  rw [bind_assoc]
  refine bind_congr fun head => ?_
  rw [bind_assoc]
  refine bind_congr fun _ => ?_
  rw [bind_assoc]
  exact bind_congr fun last => (pure_bind _ _).symm

theorem runLoop_reported {flow : Flow} (hrun : runLoop pass setting c = .ok flow c') :
    ∃ head last c₁, reported pass setting c = .ok (head, last) c₁ := by
  rw [runLoop_eq] at hrun
  obtain ⟨⟨head, last⟩, c₁, hreported, -⟩ := bind_ok hrun
  exact ⟨head, last, c₁, hreported⟩

theorem runLoop_of_reported {last : LoopPass}
    (hrun : reported pass setting c = .ok (head, last) c') :
    ∃ flow c₁, runLoop pass setting c = .ok flow c₁ := by
  rw [runLoop_eq, bind_run_ok hrun]
  dsimp only
  cases Env.joinAll? last.exits with
  | none => exact ⟨_, _, rfl⟩
  | some after => exact ⟨_, _, rfl⟩

/-- The pass that is noted starts where the passes before it have ended. -/
theorem reported_ok {last : LoopPass} (hrun : reported pass setting c = .ok (head, last) c') :
    ∃ c₁, settle pass maxLoopPasses c.loopEntry setting c.enteringLoop = .ok head c₁ ∧
      pass setting (c₁.unmuted.withEnv head) = .ok last c' := by
  obtain ⟨entry, c₁, henv, hrest⟩ := bind_ok hrun
  cases henv
  obtain ⟨head, c₁, hquiet, hrest⟩ := bind_ok hrest
  rw [quietly_run] at hquiet
  split at hquiet
  · rename_i a c₂ hsettle
    cases hquiet
    obtain ⟨_, c₃, hset, hrest⟩ := bind_ok hrest
    cases hset
    obtain ⟨last, c₄, hlast, hpure⟩ := bind_ok hrest
    cases hpure
    exact ⟨c₂, hsettle, hlast⟩
  · cases hquiet

end

end Check

/-! ### Passes from the same head -/

namespace Checker

variable {l : Ledger} {c c' : Checker} {head : Env}

/-- A checker that is alike itself, without the loops around it. -/
abbrev AlikeAlone (l : Ledger) (c : Checker) : Prop := c.Alike none 0 false l c

theorem AlikeSelf.alone (hc : c.AlikeSelf none l) : c.AlikeAlone l :=
  { hc with scope := hc.scope.weaken }

/-- The checker in front of a loop, and its head there, are alike themselves. -/
theorem AlikeAlone.entering (hc : c.AlikeAlone l) :
    ∃ l', (c.enteringLoop.withEnv c.loopEntry).AlikeAlone l' := by
  have hpush := Ledger.le_push hc.below c.scope.env.bindings
  refine ⟨l.push hc.below c.scope.env.bindings, rfl, ?_, Ledger.below_push hc.below _⟩
  exact (hc.scope.mono hpush).withEnv (hc.scope.env.numbered hc.below)

theorem kept_withEnv (c : Checker) (e : Env) : c.Kept (c.withEnv e) :=
  { Checker.Kept.refl c with scope := c.scope.kept_env e }

/-- A muted step that leaves the ground the same changes nothing but the variables, and what was
found and seen. -/
theorem outline_eq (hkept : c.Kept c') (hassigning : c.scope.assigning = none)
    (hmuted : c.muted ≠ 0) (hground : c.SameGround c') : c.outline = c'.outline := by
  obtain ⟨hscope, hmissing⟩ := And.intro hkept.scope hkept.missing
  have hassigning' := hscope.assigning hassigning
  have hmissing := hmissing.resolve_right fun h => hmuted h.1
  unfold outline Scope.outline
  congr 1
  · exact hground.session.symm
  · rw [hassigning, hassigning', hscope.function, hscope.classContext, hscope.isStatic,
      hscope.probing, hscope.including, hground.names]
  · exact hkept.muted.symm
  · exact hground.hoisted.symm
  · exact hground.ownClasses.symm
  · exact hground.ownFunctions.symm
  · exact hmissing.symm

end Checker

namespace Check

section

variable {pass : Check LoopPass} {setting : Setting} {c c' : Checker} {head head' : Env}
  {n : Nat} {l : Ledger}

/-- The same is new to the head of a loop in two passes that are alike. -/
theorem Brings.of_alike {p q : LoopPass} (hq : Brings head q) (hhead : head.Alike l head)
    (hpq : p.Alike l q) : Brings head p := by
  obtain ⟨back, hback, hchanges⟩ := hq
  obtain ⟨back?, exits⟩ := p
  have hbacks := hpq.backEdge
  rw [hback] at hbacks
  cases hbacks with
  | some halike => exact ⟨_, rfl, (hhead.mergeReport halike).2.trans hchanges⟩

/-- A head to which nothing new comes back is not widened. -/
theorem Widens.of_settled (hsettled : ∀ p c₁, pass setting (c.withEnv head) = .ok p c₁ →
    ¬Brings head p) (hwidens : Widens pass setting n head c head' c') :
    n = 0 ∧ head' = head ∧ c' = c := by
  cases hwidens with
  | refl => exact ⟨rfl, rfl, rfl⟩
  | pass hpass hback hchanges => exact absurd ⟨_, hback, hchanges⟩ (hsettled _ _ hpass)

theorem Widens.keeps (hkeeps : pass.Keeps setting)
    (hwidens : Widens pass setting n head c head' c') : c.Kept c' := by
  induction hwidens with
  | refl => exact .refl _
  | @pass n head _ _ c c₁ _ _ hpass _ _ _ ih =>
    have hstep : c.Kept c₁ := (c.kept_withEnv head).trans (hkeeps _ _ _ hpass)
    exact { hstep with : c.Kept { c₁ with nextSnapshot := c₁.nextSnapshot + 1 } }.trans ih

/-- A pass that widens a head leaves the checker alike itself, with the next head. -/
theorem Widens.alike (hagree : pass.Agree none .blank LoopPass.alike pass)
    (hwidens : Widens pass setting n head c head' c')
    (hc : ∃ l, (c.withEnv head).AlikeAlone l) : ∃ l, (c'.withEnv head').AlikeAlone l := by
  induction hwidens with
  | refl => exact hc
  | @pass n head head' back c c₁ c' p hpass hback hchanges hrest ih =>
    obtain ⟨l, hc⟩ := hc
    obtain ⟨l₁, hl, hc₁, hp⟩ := hagree l.blank_le hc hpass hpass
    have hbacks := hp.backEdge
    rw [hback] at hbacks
    cases hbacks with
    | some halike =>
      have hnext := (hc.scope.env.mono hl).merge halike
      have hpush := Ledger.le_push hc₁.below (head.merge back).bindings
      refine ih ⟨l₁.push hc₁.below (head.merge back).bindings, rfl, ?_,
        Ledger.below_push hc₁.below _⟩
      exact (hc₁.scope.mono hpush).withEnv (hnext.numbered hc₁.below)

/-- What is new to the head with a pass that is noted was so already with the muted pass from the
same head, if that has left the ground the same and no variable is found undefined. -/
theorem brings_muted (hagree : pass.Agree none .blank LoopPass.alike pass)
    (hcomposite : pass.Composite) {p last : LoopPass} {c₀ c₁ c₂ : Checker}
    (hc₀ : (c₀.withEnv head).AlikeAlone l) (hassigning : c₀.scope.assigning = none)
    (hmuted : c₀.muted ≠ 0) (hpass : pass setting (c₀.withEnv head) = .ok p c₁)
    (hlast : pass setting (c₁.unmuted.withEnv head) = .ok last c₂) (hground : c₀.SameGround c₁)
    (hdefined : c₁.FindsDefined c₂) (hbrings : Brings head last) : Brings head p := by
  have hkept := hcomposite.keeps setting _ _ _ hpass
  obtain ⟨l₁, hl₁, hc₁, -⟩ := hagree l.blank_le hc₀ hpass hpass
  obtain ⟨l₀, hhead, hbelow⟩ := hc₀.scope.env.between hl₁ hc₀.below hc₁.below
  -- The noted pass goes to the same end if it is muted, too.
  obtain ⟨found, hfound⟩ := (hcomposite.keeps setting _ _ _ hlast).diagnostics
  have hmutedRun := hcomposite.hushed hlast hfound.symm (hdefined found hfound.symm)
    c₁.unmuted.muted c₁.diagnostics c₁.missingClasses
  have hdepth : c₁.unmuted.muted + 1 = c₁.muted := by
    show c₁.muted - 1 + 1 = c₁.muted
    have hmuted' : c₁.muted = c₀.muted := hkept.muted
    omega
  have hstart : (c₁.unmuted.withEnv head).hushed c₁.unmuted.muted c₁.diagnostics
      c₁.missingClasses = c₁.withEnv head := by
    unfold Checker.hushed
    rw [hdepth]
    rfl
  rw [hstart] at hmutedRun
  -- It starts like the pass before it, so it ends like that.
  have houtline : (c₀.withEnv head).outline = (c₁.withEnv head).outline :=
    Checker.outline_eq (hkept.trans (c₁.kept_withEnv head)) hassigning hmuted
      { hground with }
  have hstarts : (c₀.withEnv head).Alike none 0 false l₀ (c₁.withEnv head) :=
    ⟨houtline, ⟨congrArg (·.scope) houtline, nofun, hhead, .nil, nofun⟩, hbelow⟩
  obtain ⟨l₂, hl₂, -, hpasses⟩ := hagree l₀.blank_le hstarts hpass hmutedRun
  exact hbrings.of_alike (hhead.mono hl₂) hpasses

/-- Where passes do alike in checkers that are alike, they come to a head in one of two ways. -/
theorem reaches_of_reported (hagree : pass.Agree none .blank LoopPass.alike pass)
    (hcomposite : pass.Composite) (hc : c.AlikeAlone l) (hassigning : c.scope.assigning = none)
    {last : LoopPass} {c₂ : Checker}
    (hrun : reported pass setting c = .ok (head, last) c₂) :
    ∃ c₁, pass setting (c₁.unmuted.withEnv head) = .ok last c₂ ∧
      Reaches pass setting c head c₁ c₂ last := by
  obtain ⟨c₁, hsettle, hlast⟩ := reported_ok hrun
  refine ⟨c₁, hlast, ?_⟩
  rcases settle_ok_iff.1 hsettle with hwidens | ⟨n, c₀, p, hn, hwidens, hpass, hsettled⟩
  · exact .exhausted hwidens
  · refine .settled hn hwidens hpass hsettled fun hground hdefined hbrings => hsettled ?_
    obtain ⟨l₀, hc₀⟩ := hwidens.alike hagree hc.entering
    have hkept := hwidens.keeps (hcomposite.keeps setting)
    have hmuted : c₀.muted ≠ 0 := hkept.muted ▸ Nat.succ_ne_zero c.muted
    exact brings_muted hagree hcomposite hc₀ (hkept.scope.assigning hassigning) hmuted hpass
      hlast hground hdefined hbrings

end

section

variable {node : Node} {setting : Setting} {c c' : Checker} {i : Inferred}
  {front : Check (Check LoopPass)} (hloop : (Rules.below node.height).loop? node = some front)

include hloop

theorem visit_loop : visit node = (do
      let pass ← (do dropValue; front)
      return .statement (← runLoop pass)) := by
  rw [visit_eq (Rules.isAssignable_loop hloop), Rules.apply_loop hloop, bind_assoc]

theorem exists_visit {pass : Check LoopPass} {c₀ c₂ : Checker} {head : Env} {last : LoopPass}
    (hfront : (do dropValue; front) setting c = .ok pass c₀)
    (hrun : reported pass setting c₀ = .ok (head, last) c₂) :
    ∃ i c', visit node setting c = .ok i c' := by
  obtain ⟨flow, c', hrunLoop⟩ := runLoop_of_reported hrun
  refine ⟨.statement flow, c', ?_⟩
  rw [visit_loop hloop, bind_run_ok hfront, bind_run_ok hrunLoop]
  rfl

/-- The pass over a loop statement that is noted starts from a head to which nothing new came
back with the pass before it, unless five passes in a row brought something new.  Nothing new
comes back with the noted pass either, where the pass before it has left the ground the same,
unless a variable is found undefined. -/
theorem loop_head (hc : c.Shares) (hrun : visit node setting c = .ok i c') :
    ∃ pass c₀ head last c₁ c₂, (do dropValue; front) setting c = .ok pass c₀ ∧
      reported pass setting c₀ = .ok (head, last) c₂ ∧
      pass setting (c₁.unmuted.withEnv head) = .ok last c₂ ∧
      Reaches pass setting c₀ head c₁ c₂ last := by
  rw [visit_loop hloop] at hrun
  obtain ⟨pass, c₀, hstart, hrest⟩ := bind_ok hrun
  obtain ⟨flow, c₃, hrunLoop, -⟩ := bind_ok hrest
  obtain ⟨head, last, c₂, hreported⟩ := runLoop_reported hrunLoop
  obtain ⟨_, c₄, hdrop, hfront⟩ := bind_ok hstart
  have hr := Rules.uniform_below none node.height
  have hcomposite := Rules.composite_below node.height
  obtain ⟨l, hc⟩ := Checker.shares_iff.1 hc
  obtain ⟨l₀, -, hc₀, -⟩ := Uniform.dropValue.bind (fun _ => hr.front node.keeps_none hloop)
    l.blank_le hc.alone hstart hstart
  have hassigning : c₀.scope.assigning = none := by
    cases hdrop
    exact ((Rules.composite_front hloop hcomposite).keeps setting _ _ _ hfront).scope.assigning rfl
  obtain ⟨c₁, hlast, hreaches⟩ := reaches_of_reported (hr.pass node.keeps_none hloop hfront)
    (Rules.composite_pass hloop hcomposite hfront) hc₀ hassigning hreported
  exact ⟨pass, c₀, head, last, c₁, c₂, hstart, hreported, hlast, hreaches⟩

end

/-! ### A loop that settles -/

/-- The value of a step, if it goes to its end. -/
def value? {α : Type} (m : Check α) (setting : Setting) (c : Checker) : Option α :=
  match m setting c with
  | .ok a _ => some a
  | .error _ _ => none

theorem value?_eq {α : Type} {m : Check α} {setting : Setting} {c c' : Checker} {a : α}
    (hrun : m setting c = .ok a c') : m.value? setting c = some a := by
  rw [value?, hrun]

theorem exists_of_value? {α : Type} (m : Check α) (setting : Setting) (c : Checker)
    (p : α → Bool) (hvalue : (m.value? setting c).any p = true) :
    ∃ a c', m setting c = .ok a c' ∧ p a = true := by
  unfold value? at hvalue
  split at hvalue
  · exact ⟨_, _, ‹_›, hvalue⟩
  · cases hvalue

/-- Whether something new comes back to the head of a loop. -/
def brings (head : Env) (p : LoopPass) : Bool := p.backEdge.any head.mergeChanges

theorem brings_iff {head : Env} {p : LoopPass} : brings head p = true ↔ Brings head p :=
  Option.any_eq_true _ _

/-- The condition of a loop that goes on as long as `$a` is true. -/
def loopTest : Node := (Node.leaf .variableName default "a").inField "condition"

/-- `$target = value;` -/
def assigning (target : String) (value : Node) : Node :=
  let assignment := Node.ofKind .assignment default
    [(Node.leaf .variableName default target).inField "left", value.inField "right"]
  .ofKind .expressionStatement default [assignment.inField "expression"]

/-- The body of a loop in which `$a` is set to `null`. -/
def settlingBody : Node := (assigning "a" (.leaf .nullLiteral default "null")).inField "body"

def settlingLoop : Node := .ofKind .whileStatement default [loopTest, settlingBody]

/-- A checker in front of the loop, where `$a` may be anything. -/
def settlingChecker : Checker :=
  { session := default, scope := { env := Env.empty.set "a" .mixed } }

def settlingPass : Check LoopPass :=
  (Rules.below settlingLoop.height).whilePass loopTest settlingBody

theorem settling_passes (p : LoopPass) (c₁ : Checker)
    (hpass : settlingPass .alone settlingChecker.enteringLoop = .ok p c₁) :
    ¬Brings settlingChecker.loopEntry p := by
  have hvalue : (settlingPass.value? .alone settlingChecker.enteringLoop).any
      (brings settlingChecker.loopEntry) = false := by decide +kernel
  rw [value?_eq hpass] at hvalue
  exact fun hbrings => Bool.false_ne_true (hvalue.symm.trans (brings_iff.2 hbrings))

theorem settling_ground : settlingChecker.enteringLoop.SameGround
    (settlingPass.after .alone settlingChecker.enteringLoop) := by
  constructor <;> with_unfolding_all rfl

theorem settling_defined : (settlingPass.after .alone
    ((settlingPass.after .alone settlingChecker.enteringLoop).unmuted.withEnv
      settlingChecker.loopEntry)).diagnostics = [] := by decide +kernel

theorem loop?_settlingLoop :
    (Rules.below settlingLoop.height).loop? settlingLoop = some (pure settlingPass) := rfl

theorem front_settlingLoop : (do dropValue; pure settlingPass : Check (Check LoopPass)) .alone
    settlingChecker = .ok settlingPass settlingChecker := rfl

/-- What `$a` is set to is nothing new to the head of the loop with the first pass, so it is not
with the one that is noted. -/
theorem settling_head : ∃ i c', visit settlingLoop .alone settlingChecker = .ok i c' ∧
    ∃ head last c₂ back, reported settlingPass .alone settlingChecker = .ok (head, last) c₂ ∧
      last.backEdge = some back ∧ head.mergeChanges back = false := by
  have hshares : settlingChecker.Shares := .of_alone rfl rfl
  obtain ⟨⟨head, last⟩, c₂, hreported, hback⟩ := exists_of_value?
    (reported settlingPass) .alone settlingChecker (fun r => r.2.backEdge.isSome)
    (by decide +kernel)
  obtain ⟨back, hback⟩ := Option.isSome_iff_exists.1 hback
  obtain ⟨i, c', hvisit⟩ := exists_visit loop?_settlingLoop front_settlingLoop hreported
  refine ⟨i, c', hvisit, head, last, c₂, back, hreported, hback, ?_⟩
  refine Bool.eq_false_iff.2 fun hchanges => ?_
  obtain ⟨pass, c₀, head', last', c₁, c₂', hfront, hreported', hlast, hreaches⟩ :=
    loop_head loop?_settlingLoop hshares hvisit
  cases front_settlingLoop.symm.trans hfront
  cases hreported.symm.trans hreported'
  cases hreaches with
  | exhausted hwidens => exact absurd (hwidens.of_settled settling_passes).1 (by decide)
  | settled hn hwidens hpass hsettled hnoted =>
    obtain ⟨-, rfl, rfl⟩ := hwidens.of_settled settling_passes
    have hpass : settlingPass .alone settlingChecker.enteringLoop = .ok _ c₁ := hpass
    have hafter : settlingPass.after .alone settlingChecker.enteringLoop = c₁ := by
      rw [after, hpass]
    have hend : settlingPass.after .alone
        (c₁.unmuted.withEnv settlingChecker.loopEntry) = c₂ := by
      rw [after, hlast]
    refine hnoted (hafter ▸ settling_ground) (fun found hfound d hd => ?_) ⟨back, hback, hchanges⟩
    rw [← hend, ← hafter, settling_defined] at hfound
    obtain ⟨rfl, -⟩ := List.append_eq_nil_iff.1 hfound.symm
    cases hd

/-! ### A loop that does not settle -/

/-- A list of variables, each of which is given the value of the next. -/
def copies : List String → List Node
  | target :: source :: rest =>
    assigning target (.leaf .variableName default source) :: copies (source :: rest)
  | _ => []

/-- The body of a loop in which `$a` to `$f` are each copied to the variable behind it. -/
def copyingBody : Node :=
  (Node.ofKind .block default (copies ["g", "f", "e", "d", "c", "b", "a"])).inField "body"

def copyingLoop : Node := .ofKind .whileStatement default [loopTest, copyingBody]

/-- An environment in which only `$a` may have a value. -/
def copyingEnv : Env :=
  ["b", "c", "d", "e", "f", "g"].foldl (fun e name => e.set name .empty) (Env.empty.set "a" .mixed)

/-- A checker in front of the loop. -/
def copyingChecker : Checker := { session := default, scope := { env := copyingEnv } }

def copyingPass : Check LoopPass :=
  (Rules.below copyingLoop.height).whilePass loopTest copyingBody

theorem loop?_copyingLoop :
    (Rules.below copyingLoop.height).loop? copyingLoop = some (pure copyingPass) := rfl

theorem front_copyingLoop : (do dropValue; pure copyingPass : Check (Check LoopPass)) .alone
    copyingChecker = .ok copyingPass copyingChecker := rfl

/-- What `$a` is comes to `$f` with the fifth pass, and to `$g` with the one that is noted. -/
theorem copying_unsettled :
    ∃ (front : Check (Check LoopPass)) (pass : Check LoopPass) (i : Inferred)
      (c' c₁ : Checker) (head : Env) (last : LoopPass),
      (Rules.below copyingLoop.height).loop? copyingLoop = some front ∧
      visit copyingLoop .alone copyingChecker = .ok i c' ∧
      (do dropValue; front) .alone copyingChecker = .ok pass copyingChecker ∧
      reported pass .alone copyingChecker = .ok (head, last) c₁ ∧ Brings head last := by
  obtain ⟨⟨head, last⟩, c₁, hreported, hbrings⟩ := exists_of_value?
    (reported copyingPass) .alone copyingChecker (fun r => brings r.1 r.2)
    (by decide +kernel)
  obtain ⟨i, c', hvisit⟩ := exists_visit loop?_copyingLoop front_copyingLoop hreported
  exact ⟨pure copyingPass, copyingPass, i, c', c₁, head, last, loop?_copyingLoop, hvisit,
    front_copyingLoop, hreported, brings_iff.1 hbrings⟩

end Check

end PhpCheck
