import PhpCheck.Proofs.Check.Visit

/-!
The ways through a choice, and the passes over a loop, apart from what follows them.

A choice takes the ways that its condition leaves open, and goes on where they meet
(`Rules.ternaryExpression_eq`).  A loop statement evaluates what stands in front of it, and then
runs passes that are all the same (`Rules.loop?`, `Rules.apply_loop`).
-/

namespace PhpCheck

/-! ### Choices -/

section

open Check

variable {r : Rules} {node : Node}

/-- A way through a choice, if it is taken: the type and the environment at its end. -/
def Check.way (taken : Bool) (e : Env) (step : Check TyUnion) : Check (List (TyUnion × Env)) := do
  if taken then
    setEnv e
    let ty ← step
    return [(ty, ← env)]
  else return []

/-- Goes on where some ways meet. -/
def Check.meet (ways : List (TyUnion × Env)) : Check TyUnion := do
  Rules.joinPaths (ways.map (·.2))
  return ways.foldl (fun result way => result.union way.1) .empty

/-- What a condition is worth where it holds. -/
def Rules.consequence (r : Rules) (node : Node) (ty : TyUnion) : Check TyUnion :=
  match node.childBy? "consequence" with
  | some consequence => r.expr consequence
  | none => pure ty.truthy

theorem Rules.ternaryExpression_eq {test alternative : Node}
    (htest : node.childBy? "condition" = some test)
    (halternative : node.childBy? "alternative" = some alternative) :
    r.ternaryExpression node = (do
      let branches ← r.condition test
      let yes ← way (branches.known? != some false) branches.split.yes
        (r.consequence node branches.ty)
      let no ← way (branches.known? != some true) branches.split.no (r.expr alternative)
      meet (yes ++ no)) := by
  unfold ternaryExpression meet joinPaths consequence way
  rw [htest, halternative]
  dsimp only
  refine bind_congr fun branches => ?_
  by_cases hno : branches.known? = some false
  · simp [hno, Env.joinAll?]
  · by_cases hyes : branches.known? = some true
    · cases node.childBy? "consequence" <;> simp [hyes, Env.joinAll?]
    · cases node.childBy? "consequence" <;> simp [hno, hyes, Env.joinAll?]

end

/-! ### Loops -/

namespace Rules

open Check

variable (r : Rules)

def whilePass (test body : Node) : Check LoopPass := do
  let (enters, exits) ← r.enterBody (some test)
  if enters then
    let (backEdge, breaks) ← r.loopBody body
    return { backEdge, exits := exits ++ breaks }
  else return { exits }

def doWhilePass (test body : Node) : Check LoopPass := do
  let (bodyEnd, breaks) ← r.loopBody body
  match bodyEnd with
  | none => return { exits := breaks }
  | some e =>
    setEnv e
    let b ← r.condition test
    return { backEdge := if b.known? = some false then none else some b.split.yes
             exits := breaks ++ conditionExits b }

def forPass (conditions : List Node) (update : Option Node) (body : Node) : Check LoopPass := do
  r.exprs conditions.dropLast
  let (enters, exits) ← r.enterBody conditions.getLast?
  if enters then
    let (bodyEnd, breaks) ← r.loopBody body
    let backEdge ← match bodyEnd with
      | some e => do
        setEnv e
        let _ ← r.expr? update
        pure (some (← env))
      | none => pure none
    return { backEdge, exits := exits ++ breaks }
  else return { exits }

def foreachPass (i : Iteration) (key : Option Node) (value body : Node) : Check LoopPass := do
  let head ← env
  match key with
  | some key =>
    let _ ← r.assign key i.keys
  | none => pure ()
  let _ ← r.assign value i.values
  let (bodyEnd, breaks) ← r.loopBody body
  return { backEdge := bodyEnd, exits := head :: breaks ++ bodyEnd.toList }

/-- What is evaluated in front of a loop statement that has all its parts, and the pass over
the loop then. -/
def loop? (node : Node) : Option (Check (Check LoopPass)) :=
  match node.kind with
  | .whileStatement => do
    let test ← node.childBy? "condition"
    let body ← node.childBy? "body"
    return pure (r.whilePass test body)
  | .doWhileStatement => do
    let body ← node.childBy? "body"
    let test ← node.childBy? "condition"
    return pure (r.doWhilePass test body)
  | .forStatement => do
    let body ← node.childBy? "body"
    return do
      let _ ← r.expr? (node.childBy? "init")
      let conditions := ((node.childBy? "condition").map Node.positional).getD []
      return r.forPass conditions (node.childBy? "update") body
  | .foreachStatement => do
    let subject ← node.childBy? "subject"
    let value ← node.childBy? "value"
    let body ← node.childBy? "body"
    return do
      let subjectTy ← r.expr subject
      let i := Iteration.of (← registry) subjectTy
      return r.foreachPass i (node.childBy? "key") value body
  | _ => none

variable {r} {node subject value test body : Node}

theorem whileStatement_eq (htest : node.childBy? "condition" = some test)
    (hbody : node.childBy? "body" = some body) :
    r.whileStatement node = runLoop (r.whilePass test body) := by
  rw [whileStatement, htest, hbody]
  rfl

theorem doWhileStatement_eq (htest : node.childBy? "condition" = some test)
    (hbody : node.childBy? "body" = some body) :
    r.doWhileStatement node = runLoop (r.doWhilePass test body) := by
  rw [doWhileStatement, htest, hbody]
  rfl

theorem forStatement_eq (hbody : node.childBy? "body" = some body) :
    r.forStatement node = (do
      let _ ← r.expr? (node.childBy? "init")
      runLoop (r.forPass (((node.childBy? "condition").map Node.positional).getD [])
        (node.childBy? "update") body)) := by
  rw [forStatement, hbody]
  rfl

theorem foreachStatement_eq (hsubject : node.childBy? "subject" = some subject)
    (hvalue : node.childBy? "value" = some value) (hbody : node.childBy? "body" = some body) :
    r.foreachStatement node = (do
      let subjectTy ← r.expr subject
      let i := Iteration.of (← registry) subjectTy
      runLoop (r.foreachPass i (node.childBy? "key") value body)) := by
  rw [foreachStatement, hsubject, hvalue, hbody]
  rfl

/-- The four kinds of loop statements, with all their parts. -/
inductive Loops (r : Rules) (node : Node) : Check (Check LoopPass) → Prop
  | whileLoop {test body : Node} (hkind : node.kind = .whileStatement)
      (htest : node.childBy? "condition" = some test) (hbody : node.childBy? "body" = some body) :
      Loops r node (pure (r.whilePass test body))
  | doWhileLoop {test body : Node} (hkind : node.kind = .doWhileStatement)
      (htest : node.childBy? "condition" = some test) (hbody : node.childBy? "body" = some body) :
      Loops r node (pure (r.doWhilePass test body))
  | forLoop {body : Node} (hkind : node.kind = .forStatement)
      (hbody : node.childBy? "body" = some body) :
      Loops r node (do
        let _ ← r.expr? (node.childBy? "init")
        let conditions := ((node.childBy? "condition").map Node.positional).getD []
        return r.forPass conditions (node.childBy? "update") body)
  | foreachLoop {subject value body : Node} (hkind : node.kind = .foreachStatement)
      (hsubject : node.childBy? "subject" = some subject)
      (hvalue : node.childBy? "value" = some value) (hbody : node.childBy? "body" = some body) :
      Loops r node (do
        let subjectTy ← r.expr subject
        let i := Iteration.of (← registry) subjectTy
        return r.foreachPass i (node.childBy? "key") value body)

theorem loops_of_loop? {front : Check (Check LoopPass)} (hloop : r.loop? node = some front) :
    r.Loops node front := by
  unfold loop? at hloop
  split at hloop
  · obtain ⟨test, htest, hloop⟩ := Option.bind_eq_some_iff.1 hloop
    obtain ⟨body, hbody, hfront⟩ := Option.bind_eq_some_iff.1 hloop
    cases hfront
    exact .whileLoop ‹_› htest hbody
  · obtain ⟨body, hbody, hloop⟩ := Option.bind_eq_some_iff.1 hloop
    obtain ⟨test, htest, hfront⟩ := Option.bind_eq_some_iff.1 hloop
    cases hfront
    exact .doWhileLoop ‹_› htest hbody
  · obtain ⟨body, hbody, hfront⟩ := Option.bind_eq_some_iff.1 hloop
    cases hfront
    exact .forLoop ‹_› hbody
  · obtain ⟨subject, hsubject, hloop⟩ := Option.bind_eq_some_iff.1 hloop
    obtain ⟨value, hvalue, hloop⟩ := Option.bind_eq_some_iff.1 hloop
    obtain ⟨body, hbody, hfront⟩ := Option.bind_eq_some_iff.1 hloop
    cases hfront
    exact .foreachLoop ‹_› hsubject hvalue hbody
  · cases hloop

section

variable {front : Check (Check LoopPass)} (hloop : r.loop? node = some front)

include hloop

/-- A loop statement runs the loop, behind what is evaluated in front of it. -/
theorem apply_loop (assigning : Option TyUnion) : r.apply node assigning = (do
      let pass ← front
      return .statement (← runLoop pass)) := by
  cases loops_of_loop? hloop with
  | whileLoop hkind htest hbody =>
    rw [apply, logical?, hkind]
    dsimp only
    rw [whileStatement_eq htest hbody, pure_bind]
  | doWhileLoop hkind htest hbody =>
    rw [apply, logical?, hkind]
    dsimp only
    rw [doWhileStatement_eq htest hbody, pure_bind]
  | forLoop hkind hbody =>
    rw [apply, logical?, hkind]
    dsimp only
    rw [forStatement_eq hbody, bind_assoc, bind_assoc]
    simp only [pure_bind]
  | foreachLoop hkind hsubject hvalue hbody =>
    rw [apply, logical?, hkind]
    dsimp only
    rw [foreachStatement_eq hsubject hvalue hbody]
    simp only [bind_assoc, pure_bind]

/-- No value can be assigned to a loop. -/
theorem isAssignable_loop : node.kind.isAssignable = false := by
  cases loops_of_loop? hloop with
  | whileLoop hkind => exact hkind ▸ rfl
  | doWhileLoop hkind => exact hkind ▸ rfl
  | forLoop hkind => exact hkind ▸ rfl
  | foreachLoop hkind => exact hkind ▸ rfl

theorem composite_front (hr : r.Composite) : front.Composite := by
  cases loops_of_loop? hloop with
  | whileLoop => exact .pure _
  | doWhileLoop => exact .pure _
  | forLoop => exact .bind (hr.expr? _) fun _ => .pure _
  | foreachLoop => exact .bind (hr.expr _) fun _ => .bind .registry fun _ => .pure _

theorem composite_pass (hr : r.Composite) {setting : Setting} {c c' : Checker}
    {pass : Check LoopPass} (hfront : front setting c = .ok pass c') : pass.Composite := by
  cases loops_of_loop? hloop with
  | whileLoop =>
    cases hfront
    unfold whilePass
    grind
  | doWhileLoop =>
    cases hfront
    unfold doWhilePass
    refine .bind (hr.loopBody _) fun ends => ?_
    grind
  | forLoop =>
    obtain ⟨_, _, -, hpass⟩ := bind_ok hfront
    cases hpass
    unfold forPass
    refine .bind (hr.exprs _) fun _ => .bind (hr.enterBody _) fun entered => ?_
    refine .ite (.bind (hr.loopBody _) fun ends => ?_) (.pure _)
    grind
  | foreachLoop =>
    obtain ⟨_, _, -, hrest⟩ := bind_ok hfront
    obtain ⟨_, _, -, hpass⟩ := bind_ok hrest
    cases hpass
    unfold foreachPass
    refine .bind .env fun head => ?_
    grind

end

end Rules

end PhpCheck
