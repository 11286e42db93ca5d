import Mathlib.Data.List.Forall2
import PhpCheck.Scope.Basic

/-!
What a piece of code leaves of the scope around it.

Variables, names and the results seen so far change as code is checked.  The class and
the function around the code do not, nor does how reading is taken, and the loops
around it stay the same loops; only further jumps out of them come to light
(`Scope.Kept`).
-/

namespace PhpCheck

/-- A function without the results seen so far. -/
def FunctionContext.head (f : FunctionContext) : FunctionContext := { f with observed := .empty }

/-- A loop out of which further jumps may have come to light. -/
structure Jumps.Extends (j k : Jumps) : Prop where
  breaks : j.breaks <+: k.breaks
  continues : j.continues <+: k.continues

theorem Jumps.Extends.refl (j : Jumps) : j.Extends j :=
  ⟨List.prefix_refl _, List.prefix_refl _⟩

theorem Jumps.Extends.trans {j k l : Jumps} (hjk : j.Extends k) (hkl : k.Extends l) :
    j.Extends l :=
  ⟨hjk.breaks.trans hkl.breaks, hjk.continues.trans hkl.continues⟩

namespace Scope

/-- The second scope is left of the first by the code in it. -/
structure Kept (s t : Scope) : Prop where
  classContext : t.classContext = s.classContext
  isStatic : t.isStatic = s.isStatic
  function : t.function.map FunctionContext.head = s.function.map FunctionContext.head
  probing : t.probing = s.probing
  including : t.including = s.including
  jumps : List.Forall₂ Jumps.Extends s.jumps t.jumps
  assigning : s.assigning = none → t.assigning = none

theorem Kept.refl (s : Scope) : s.Kept s :=
  ⟨rfl, rfl, rfl, rfl, rfl, List.forall₂_same.2 fun j _ => .refl j, id⟩

theorem forall₂_extends_trans {js ks ls : List Jumps} (hjk : List.Forall₂ Jumps.Extends js ks)
    (hkl : List.Forall₂ Jumps.Extends ks ls) : List.Forall₂ Jumps.Extends js ls := by
  induction hjk generalizing ls with
  | nil => exact hkl
  | cons hjk _ ih =>
    cases hkl with
    | cons hkl hrest => exact .cons (hjk.trans hkl) (ih hrest)

theorem Kept.trans {s t u : Scope} (hst : s.Kept t) (htu : t.Kept u) : s.Kept u :=
  ⟨htu.classContext.trans hst.classContext, htu.isStatic.trans hst.isStatic,
    htu.function.trans hst.function, htu.probing.trans hst.probing,
    htu.including.trans hst.including, forall₂_extends_trans hst.jumps htu.jumps,
    fun hs => htu.assigning (hst.assigning hs)⟩

/-! ### What changes a scope -/

theorem kept_env (s : Scope) (e : Env) : s.Kept { s with env := e } := { Kept.refl s with }

theorem kept_names (s : Scope) (names : NameContext) : s.Kept { s with names } :=
  { Kept.refl s with }

theorem kept_unassigned (s : Scope) : s.Kept { s with assigning := none } :=
  { Kept.refl s with assigning := fun _ => rfl }

theorem kept_observeReturn (s : Scope) (ty : TyUnion) : s.Kept (s.observeReturn ty) := by
  refine { Kept.refl s with function := ?_ }
  rw [observeReturn]
  cases s.function <;> rfl

theorem kept_recordJump (s : Scope) (depth : Nat) (isContinue : Bool) :
    s.Kept (s.recordJump depth isContinue) := by
  rw [recordJump]
  split
  · exact .refl s
  · refine { Kept.refl s with jumps := ?_ }
    have hone : ∀ j : Jumps, j.Extends
        (if isContinue then { j with continues := j.continues ++ [s.env] }
          else { j with breaks := j.breaks ++ [s.env] }) := by
      intro j
      split
      · exact ⟨List.prefix_refl _, List.prefix_append _ _⟩
      · exact ⟨List.prefix_append _ _, List.prefix_refl _⟩
    have hall : ∀ (js : List Jumps) (i : Nat), List.Forall₂ Jumps.Extends js (js.modify i fun j =>
        if isContinue then { j with continues := j.continues ++ [s.env] }
        else { j with breaks := j.breaks ++ [s.env] }) := by
      intro js
      induction js with
      | nil => simp
      | cons j js ih =>
        intro i
        cases i with
        | zero => exact .cons (hone j) (List.forall₂_same.2 fun j _ => .refl j)
        | succ i => exact .cons (.refl j) (ih i)
    exact hall s.jumps _

/-! ### Scopes entered and left -/

theorem Kept.unassign {s t : Scope} {value : Option TyUnion}
    (hst : ({ s with assigning := value } : Scope).Kept t) : s.Kept { t with assigning := none } :=
  { hst with assigning := fun _ => rfl }

theorem Kept.unprobe {s t : Scope} {probing : Bool} (hst : ({ s with probing } : Scope).Kept t) :
    s.Kept { t with probing := s.probing } :=
  { hst with probing := rfl }

/-- Behind a loop, the loops around it are the innermost ones again. -/
theorem Kept.exitLoop {s t : Scope} (hst : s.enterLoop.Kept t) : s.Kept t.exitLoop.2 := by
  have hjumps : List.Forall₂ Jumps.Extends ({} :: s.jumps) t.jumps := hst.jumps
  rw [Scope.exitLoop]
  cases ht : t.jumps with
  | nil =>
    rw [ht] at hjumps
    cases hjumps
  | cons j rest =>
    rw [ht] at hjumps
    cases hjumps with
    | cons _ hrest => exact { hst with jumps := hrest }

end Scope

end PhpCheck
