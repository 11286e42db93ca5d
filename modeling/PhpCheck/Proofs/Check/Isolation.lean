import Mathlib
import PhpCheck.Proofs.Check.Closed.Nodes
import PhpCheck.Proofs.Check.Functions

/-!
The variables around a function or a class are not seen in it, and not changed by it.

Two checkers that are equal but for their variables do the same at the declaration of a
class, and at a function of which the defaults are closed expressions; the variables of
each stay as they are (`Check.visit_isolated`).  A default in which a function captures a
variable is not closed, also where the name that it captures is no variable node
(`Check.capturing_sees`).
-/

namespace PhpCheck

open Check

/-- A function of which the defaults are closed, or the declaration of a class. -/
inductive Node.Isolated (node : Node) : Prop
  | function (kind : node.kind = .functionDefinition)
      (defaults : ∀ p ∈ node.parameters, ∀ default, p.childBy? "default" = some default →
        default.Closed)
  | classLike (kind : node.kind.isClassLike = true)

/-- Two checkers are equal but for their variables. -/
def Checker.SameButEnv (c₁ c₂ : Checker) : Prop := c₁.withEnv .empty = c₂.withEnv .empty

/-- Two checkers do the same: the results are equal, so are the checkers behind but for
their variables, and the variables of each are as they were. -/
inductive Check.Alike {α : Type} (c₁ c₂ : Checker) :
    EStateM.Result Abort Checker α → EStateM.Result Abort Checker α → Prop
  | ok {a : α} {c₁' c₂' : Checker} (same : c₁'.SameButEnv c₂')
      (first : c₁'.scope.env.bindings = c₁.scope.env.bindings)
      (second : c₂'.scope.env.bindings = c₂.scope.env.bindings) :
      Alike c₁ c₂ (.ok a c₁') (.ok a c₂')
  | error {x : Abort} {c₁' c₂' : Checker} (same : c₁'.SameButEnv c₂')
      (first : c₁'.scope.env.bindings = c₁.scope.env.bindings)
      (second : c₂'.scope.env.bindings = c₂.scope.env.bindings) :
      Alike c₁ c₂ (.error x c₁') (.error x c₂')

theorem Check.Blind.alike {α : Type} {setting : Setting} {m : Check α} (hm : m.Blind setting)
    {c₁ c₂ : Checker} (hsame : c₁.SameButEnv c₂) : Alike c₁ c₂ (m setting c₁) (m setting c₂) := by
  obtain ⟨k, last, hm⟩ := hm (c₁.withEnv .empty)
  have hfirst : m setting c₁ = ending plain (c₁.scope.env.taken k) last := hm c₁.scope.env
  have hsecond : m setting c₂ = ending plain (c₂.scope.env.taken k) last := by
    rw [← hm, hsame]
    rfl
  rw [hfirst, hsecond]
  cases last with
  | ok a c' => exact .ok rfl (Env.taken_bindings _ k) (Env.taken_bindings _ k)
  | error x c' => exact .error rfl (Env.taken_bindings _ k) (Env.taken_bindings _ k)

theorem Check.blind_visit {node : Node} (hnode : node.Isolated) (setting : Setting) :
    (Check.visit node).Blind setting := by
  have hr := Rules.blind_below node.height setting
  have hrule : ∀ assigning, ((Rules.below node.height).apply node assigning).Blind setting := by
    intro assigning
    cases hnode with
    | function hkind hdefaults =>
      rw [Rules.apply_functionDefinition hkind]
      exact .bind (hr.functionDefinition hdefaults) fun _ => .pure _
    | classLike hkind =>
      rw [Rules.apply_classLike hkind]
      exact .bind (.classDeclaration _ node) fun _ => .pure _
  exact .ofScope (fun _ => .bind (.modifyScope fun _ _ => rfl) fun _ => hrule _) fun _ _ => rfl

/-- A function or a class neither sees nor changes the variables around it. -/
theorem Check.visit_isolated {node : Node} (hnode : node.Isolated) (setting : Setting)
    {c₁ c₂ : Checker} (hsame : c₁.SameButEnv c₂) :
    Alike c₁ c₂ (Check.visit node setting c₁) (Check.visit node setting c₂) :=
  (blind_visit hnode setting).alike hsame

theorem Check.Alike.after_eq {α : Type} {setting : Setting} {m : Check α} {c₁ c₂ : Checker}
    (h : Alike c₁ c₂ (m setting c₁) (m setting c₂)) :
    (m.after setting c₁).SameButEnv (m.after setting c₂) := by
  unfold Check.after
  generalize m setting c₁ = first at h
  generalize m setting c₂ = second at h
  cases h with
  | ok hsame _ _ => exact hsame
  | error hsame _ _ => exact hsame

/-! ### Functions with a default -/

/-- `function f($a = value) { body }` -/
def Node.withDefault (value : Node) (body : List Node := []) : Node :=
  .ofKind .functionDefinition default
    [(Node.leaf .name default "f").inField "name",
     (Node.ofKind .parameterList default
       [.ofKind .parameter default
         [(Node.leaf .variableName default "a").inField "name",
          value.inField "default"]]).inField "parameters",
     (Node.ofKind .block default body).inField "body"]

theorem Node.default_withDefault {value p d : Node} {body : List Node}
    (hp : p ∈ (withDefault value body).parameters)
    (hd : p.childBy? "default" = some d) : d = value.inField "default" := by
  obtain rfl := List.mem_singleton.1 hp
  exact (Option.some.inj hd).symm

/-- A checker that knows nothing. -/
def Checker.blank : Checker :=
  { session := { registry := {}, loader := .none, config := {} }, scope := .file false }

/-- `$x = $x . 's';` -/
def Node.lengthening : Node :=
  .ofKind .expressionStatement default
    [(Node.ofKind .assignment default
      [(Node.leaf .variableName default "x").inField "left",
       (Node.ofKind .binaryExpression default
        [(Node.leaf .variableName default "x").inField "left",
         (Node.leaf .operator default ".").inField "operator",
         (Node.leaf .stringLiteral default "'s'").inField "right"]).inField "right"]).inField
      "expression"]

/-- At `function f($a = 1) { $x = $x . 's'; }`, whether or not `$x` is bound around it. -/
theorem Check.visit_isolated_literal :
    let node := Node.withDefault (.leaf .integerLiteral default "1") [.lengthening]
    let c := Checker.blank.withEnv (Env.empty.set "x" .mixed)
    node.Isolated ∧ Checker.blank.SameButEnv c ∧
      Alike .blank c (Check.visit node .alone .blank) (Check.visit node .alone c) := by
  intro node c
  have hnode : node.Isolated := by
    refine .function rfl fun p hp d hd => ?_
    rw [Node.default_withDefault hp hd]
    exact .of rfl rfl nofun fun child hchild => nomatch hchild
  exact ⟨hnode, rfl, visit_isolated hnode .alone rfl⟩

/-- `function () use (x) {}`, where `x` is no variable node. -/
def Node.capturing : Node :=
  .ofKind .anonymousFunction default
    [(Node.ofKind .parameterList default []).inField "parameters",
     (Node.ofKind .closureUseList default
       [.ofKind .closureUse default [(Node.leaf .name default "x").inField "name"]]).inField "uses",
     (Node.ofKind .block default []).inField "body"]

/-- No variable stands in the default of `function f($a = function () use (x) {}) {}`, but a
finding tells whether `$x` is bound around it. -/
theorem Check.capturing_sees :
    let node := Node.withDefault .capturing
    let c := Checker.blank.withEnv (Env.empty.set "x" .mixed)
    node.kind = .functionDefinition ∧
      (∀ p ∈ node.parameters, ∀ d, p.childBy? "default" = some d →
        ∀ n ∈ d.walk, n.kind ≠ .variableName ∧ n.kind ≠ .variableVariable) ∧
      Checker.blank.SameButEnv c ∧
      ¬Alike .blank c (Check.visit node .alone .blank) (Check.visit node .alone c) := by
  intro node c
  refine ⟨rfl, fun p hp d hd => ?_, rfl, fun halike => ?_⟩
  · rw [Node.default_withDefault hp hd]
    decide
  · have hsame := congrArg (fun c => c.diagnostics.length) halike.after_eq
    have hunbound : ((Check.visit node).after .alone .blank).diagnostics.length = 2 := by
      decide +kernel
    have hbound : ((Check.visit node).after .alone c).diagnostics.length = 0 := by decide +kernel
    exact absurd (hunbound.symm.trans (hsame.trans hbound)) (by decide)

end PhpCheck
