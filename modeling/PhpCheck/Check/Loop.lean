import PhpCheck.Check.Element
import PhpCheck.Check.Rules

/-!
Loops.  The environment at the head of a loop is widened by what comes back from
its body until nothing new comes back; only then are findings noted.
-/

namespace PhpCheck

open Check

/-- What one pass over a loop results in. -/
structure LoopPass where
  /-- The environment that goes back to the head, if the body can be repeated. -/
  backEdge : Option Env := none
  /-- The environments that leave the loop. -/
  exits : List Env := []
deriving Inhabited

/-- The number of passes after which the head of a loop counts as stable. -/
def maxLoopPasses : Nat := 5

/-- Passes over a loop until its head does not change any more, but at most so
many times.  The last head. -/
def settle (pass : Check LoopPass) : (passes : Nat) → (head : Env) → Check Env
  | 0, head => return head
  | passes + 1, head => do
    setEnv head
    match (← pass).backEdge with
    | none => return head
    | some back =>
      let (next, changed) := head.mergeReport back
      if changed then settle pass passes (← snapshot next) else return head

/-- Checks a loop, given how one pass over it is checked.  Control goes on where
the last pass leaves the loop. -/
def runLoop (pass : Check LoopPass) : Check Flow := do
  let head ← quietly (settle pass maxLoopPasses (← env))
  setEnv head
  let last ← pass
  match Env.joinAll? last.exits with
  | some after =>
    setEnv after
    return .normal
  | none => return .exit

namespace Rules

/-- Checks the body of a loop: the environment at its end, where it is started
over, and those in which it is left. -/
def loopBody (r : Rules) (body : Node) : Check (Option Env × List Env) := do
  let ((flow, last), jumps) ← inLoop do
    let flow := (← r.visit body).flow
    return (flow, ← env)
  let ends := jumps.continues ++ (if flow.isNormal then [last] else [])
  return (Env.joinAll? ends, jumps.breaks)

/-- The environments that leave a loop at its condition. -/
def conditionExits (b : Branches) : List Env :=
  if b.known? = some true then [] else [b.split.no]

/-- Checks the condition in front of a body, if there is one: whether the body may
be entered, and where the loop is left. -/
def enterBody (r : Rules) : Option Node → Check (Bool × List Env)
  | none => return (true, [])
  | some test => do
    let b ← r.condition test
    if b.known? = some false then return (false, conditionExits b)
    else
      setEnv b.split.yes
      return (true, conditionExits b)

/-- `while (condition) body` -/
def whileStatement (r : Rules) (node : Node) : Check Flow := do
  match node.childBy? "condition", node.childBy? "body" with
  | some test, some body => runLoop do
    let (enters, exits) ← r.enterBody (some test)
    if enters then
      let (backEdge, breaks) ← r.loopBody body
      return { backEdge, exits := exits ++ breaks }
    else return { exits }
  | _, _ => return .normal

/-- `do body while (condition)` -/
def doWhileStatement (r : Rules) (node : Node) : Check Flow := do
  match node.childBy? "body", node.childBy? "condition" with
  | some body, some test => runLoop do
    let (bodyEnd, breaks) ← r.loopBody body
    match bodyEnd with
    | none => return { exits := breaks }
    | some e =>
      setEnv e
      let b ← r.condition test
      return { backEdge := if b.known? = some false then none else some b.split.yes
               exits := breaks ++ conditionExits b }
  | _, _ => return .normal

/-- `for (init; condition; update) body`.  Of several conditions the last one
decides, and without a condition the loop goes on until it is left. -/
def forStatement (r : Rules) (node : Node) : Check Flow := do
  let _ ← r.expr? (node.childBy? "init")
  match node.childBy? "body" with
  | none => return .normal
  | some body =>
    let conditions := ((node.childBy? "condition").map Node.positional).getD []
    runLoop do
      r.exprs conditions.dropLast
      let (enters, exits) ← r.enterBody conditions.getLast?
      if enters then
        let (bodyEnd, breaks) ← r.loopBody body
        let backEdge ← match bodyEnd with
          | some e => do
            setEnv e
            let _ ← r.expr? (node.childBy? "update")
            pure (some (← env))
          | none => pure none
        return { backEdge, exits := exits ++ breaks }
      else return { exits }

/-- `foreach (subject as key => value) body` -/
def foreachStatement (r : Rules) (node : Node) : Check Flow := do
  match node.childBy? "subject", node.childBy? "value", node.childBy? "body" with
  | some subject, some value, some body =>
    let subjectTy ← r.expr subject
    let i := Iteration.of (← registry) subjectTy
    runLoop do
      let head ← env
      match node.childBy? "key" with
      | some key =>
        let _ ← r.assign key i.keys
      | none => pure ()
      let _ ← r.assign value i.values
      let (bodyEnd, breaks) ← r.loopBody body
      return { backEdge := bodyEnd, exits := head :: breaks ++ bodyEnd.toList }
  | _, _, _ => return .normal

end Rules

end PhpCheck
