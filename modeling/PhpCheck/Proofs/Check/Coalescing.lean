import Mathlib
import PhpCheck.Proofs.Check.Findings
import PhpCheck.Proofs.Check.Frame
import PhpCheck.Proofs.Check.Lower
import PhpCheck.Proofs.Grammar.Statements

/-!
The assignment `$x ??= E`.

Its rule is meant for the operator `??=`, but the trees of source texts have `??` there
(`parse_regular`).  So the variable is read like that of any other compound assignment:
`$x ??= E;` is checked like `$x; $x = $x ?? E;`, and then the type of `$x` is forgotten
(`Check.visit_coalescing`).
-/

namespace PhpCheck

open Check

/-! ### The statements -/

/-- A statement that consists of an expression, with no comment that documents it. -/
structure Node.Evaluates (statement expression : Node) : Prop where
  kind : statement.kind = .expressionStatement
  expression : statement.childBy? "expression" = some expression
  plain : statement.doc? = none

/-- `$name` -/
structure Node.IsVariable (node : Node) (name : String) : Prop where
  kind : node.kind = .variableName
  text : node.textD = name

/-- `$name = $name ?? right` -/
structure Node.Expands (node : Node) (name : String) (right : Node) : Prop where
  kind : node.kind = .assignment
  target : ∃ left, node.childBy? "left" = some left ∧ left.IsVariable name
  value : ∃ value left, node.childBy? "right" = some value ∧ value.kind = .binaryExpression ∧
    value.Joins left "??" right ∧ left.IsVariable name

/-! ### Operators -/

/-- The table of tokens knows no operator that the rule for compound assignments takes for
`??=`. -/
theorem TokenKind.compoundOperator?_ne {kind : TokenKind} {operator : String}
    (h : kind.compoundOperator? = some operator) : operator ≠ "??=" := by
  rintro rfl
  cases kind <;> simp [TokenKind.compoundOperator?] at h

/-- The type that a variable has where it is read, if it is bound there. -/
def Scope.read? (s : Scope) (name : String) : Option TyUnion :=
  (s.env.get? name).or (predefined? s name)

/-- What reading a variable that is not bound finds. -/
def Node.undefinedFinding (node : Node) (file : String) : Diagnostic where
  kind := .undefinedName
  location := .ofSpan file node.span
  message :=
    if node.textD == Scope.this then "$this used outside of an object context"
    else s!"undefined variable ${node.textD}"

theorem Scope.bind_bind (s : Scope) (name : String) (old new : TyUnion) :
    (s.bind name old).bind name new = s.bind name new := by
  unfold Scope.bind
  rw [Env.set_set]

namespace Check

variable {setting : Setting} {c c' : Checker} {node left right : Node} {name operator : String}

theorem visit_statement {statement expression : Node} (hs : statement.Evaluates expression) :
    visit statement = (do
      dropValue
      let result ← visit expression
      return .statement result.flow) := by
  rw [visit_eq (by rw [hs.kind]; rfl)]
  unfold Rules.apply Rules.logical? Rules.expressionStatement
  rw [hs.kind]
  simp only [hs.expression, hs.plain, Rules.below_visit (Node.height_childBy?_lt hs.expression),
    bind_assoc, pure_bind]

theorem visit_variable (hv : node.IsVariable name) : visit node = (do
      let s ← scope
      dropValue
      let ty ← Rules.variableRule node s.assigning
      return .value ty) := by
  unfold visit Rules.visitNode Rules.apply Rules.logical?
  rw [hv.kind]
  rfl

theorem visit_compound (hkind : node.kind = .compoundAssignment)
    (hjoins : node.Joins left operator right) (hother : operator ≠ "??=") :
    visit node = (do
      dropValue
      let current ← visit left
      let value ← visit right
      let result := binaryResult (Rules.plainOperator operator) current.ty value.ty
      let _ ← whileAssigning result (visit left)
      return .value result) := by
  rw [visit_eq (by rw [hkind]; rfl)]
  unfold Rules.apply Rules.logical? Rules.compoundAssignment
  rw [hkind]
  have hplain : (operator == "??=") = false := beq_eq_false_iff_ne.2 hother
  simp only [hjoins.left, hjoins.right, hjoins.operator, Option.getD_some, hplain, Rules.expr,
    Rules.assign,
    Rules.below_visit (Node.height_childBy?_lt hjoins.left),
    Rules.below_visit (Node.height_childBy?_lt hjoins.right), bind_assoc, pure_bind]
  simp

theorem visit_coalesce (hkind : node.kind = .binaryExpression)
    (hjoins : node.Joins left "??" right) : visit node = (do
      dropValue
      let current ← whileProbing (do return (← visit left).ty)
      let value ← visit right
      return .value (coalesce current value.ty)) := by
  have hconnective : Connective.ofText? "??" = none := rfl
  rw [visit_eq (by rw [hkind]; rfl)]
  unfold Rules.apply Rules.logical? Rules.binaryExpression
  rw [hkind]
  simp only [hjoins.left, hjoins.right, hjoins.operator, Option.getD_some, hconnective, Rules.expr,
    Rules.probe, Rules.below_visit (Node.height_childBy?_lt hjoins.left),
    Rules.below_visit (Node.height_childBy?_lt hjoins.right), bind_assoc, pure_bind]

theorem visit_assignment_eq (hkind : node.kind = .assignment)
    (hleft : node.childBy? "left" = some left) (hright : node.childBy? "right" = some right) :
    visit node = (do
      dropValue
      let value ← visit right
      if value.ty.isEmpty && right.kind.isCall then
        report .assignmentWithoutValue right "assignment of a call that returns no value"
        let _ ← whileAssigning (.of .null) (visit left)
        return .value (.of .null)
      else
        let _ ← whileAssigning value.ty (visit left)
        return .value value.ty) := by
  rw [visit_eq (by rw [hkind]; rfl)]
  unfold Rules.apply Rules.logical? Rules.assignment
  rw [hkind]
  simp only [hleft, hright, Rules.expr, Rules.assign,
    Rules.below_visit (Node.height_childBy?_lt hleft),
    Rules.below_visit (Node.height_childBy?_lt hright), bind_assoc, pure_bind]
  refine bind_congr fun _ => bind_congr fun value => ?_
  split <;> simp only [bind_assoc, pure_bind]

/-- Anything but a call has a value. -/
theorem visit_assignment (hkind : node.kind = .assignment)
    (hleft : node.childBy? "left" = some left)
    (hright : node.childBy? "right" = some right) (hcall : right.kind.isCall = false) :
    visit node = (do
      dropValue
      let value ← visit right
      let _ ← whileAssigning value.ty (visit left)
      return .value value.ty) := by
  rw [visit_assignment_eq hkind hleft hright]
  simp only [hcall, Bool.and_false, Bool.false_eq_true, if_false]

/-! ### Reading and writing a variable -/

theorem dropValue_run (hc : c.scope.assigning = none) : dropValue setting c = .ok () c := by
  have hsame : { c with scope := { c.scope with assigning := none } } = c := by rw [← hc]
  exact congrArg (EStateM.Result.ok ()) hsame

theorem scope_run : scope setting c = .ok c.scope c := rfl

theorem visit_variable_run (hv : node.IsVariable name) (hc : c.scope.assigning = none) :
    visit node setting c =
      (do return Inferred.value (← Rules.variableRule node none) : Check Inferred) setting c := by
  rw [visit_variable hv, bind_run_ok scope_run, hc, bind_run_ok (dropValue_run hc)]

theorem variableRule_bound {ty : TyUnion} (hread : c.scope.read? node.textD = some ty) :
    Rules.variableRule node none setting c = .ok ty c := by
  unfold Rules.variableRule
  dsimp only
  rw [bind_run_ok scope_run]
  unfold Scope.read? at hread
  rw [hread]
  rfl

theorem variableRule_unbound (hread : c.scope.read? node.textD = none) :
    Rules.variableRule node none setting c =
      (if c.scope.probing then pure (.of .null)
        else if c.scope.including then pure .mixed
        else reportUndefined node.textD node >>= fun _ => pure .mixed : Check TyUnion)
        setting c := by
  unfold Rules.variableRule
  dsimp only
  rw [bind_run_ok scope_run]
  unfold Scope.read? at hread
  rw [hread]

theorem reportUndefined_run (node : Node) (setting : Setting) (c : Checker) :
    ∃ c', reportUndefined node.textD node setting c = .ok () c' ∧
      (c.muted = 0 → c'.diagnostics = node.undefinedFinding setting.file :: c.diagnostics) := by
  let noted : Checker := if c.muted = 0 then
      { c with diagnostics := node.undefinedFinding setting.file :: c.diagnostics }
    else c
  have hnoted : c.muted = 0 →
      noted.diagnostics = node.undefinedFinding setting.file :: c.diagnostics := by
    intro hmuted
    exact congrArg Checker.diagnostics (if_pos hmuted)
  have hreport : report .undefinedName node (node.undefinedFinding setting.file).message setting c =
      .ok () noted := rfl
  have hmuted : isMuted setting noted = .ok (decide (0 < noted.muted)) noted := rfl
  refine ⟨if node.textD != Scope.this && !decide (0 < noted.muted) then
    { noted with scope := noted.scope.bind node.textD .mixed } else noted, ?_, ?_⟩
  · unfold reportUndefined
    refine (bind_run_ok hreport).trans ((bind_run_ok hmuted).trans ?_)
    split
    · rfl
    · rfl
  · intro h
    split
    · exact hnoted h
    · exact hnoted h

/-- Reading a variable goes to its end.  A variable that is not bound is reported, unless
that is no mistake or nothing is reported. -/
theorem read_run (hv : node.IsVariable name) (hc : c.scope.assigning = none) :
    ∃ ty c', visit node setting c = .ok (.value ty) c' ∧
      (c.scope.read? name = none → c.scope.probing = false → c.scope.including = false →
        c.muted = 0 → c'.diagnostics = node.undefinedFinding setting.file :: c.diagnostics) := by
  obtain rfl := hv.text
  rw [visit_variable_run hv hc]
  cases hread : c.scope.read? node.textD with
  | some ty => exact ⟨ty, c, bind_run_ok (variableRule_bound hread), nofun⟩
  | none =>
    have hrule : Rules.variableRule node none setting c = _ := variableRule_unbound hread
    split at hrule
    · exact ⟨_, c, bind_run_ok hrule, fun _ h => by simp_all⟩
    · split at hrule
      · exact ⟨_, c, bind_run_ok hrule, fun _ _ h => by simp_all⟩
      · obtain ⟨c', hreport, hfound⟩ := reportUndefined_run node setting c
        refine ⟨.mixed, c', ?_, fun _ _ _ => hfound⟩
        exact bind_run_ok (hrule.trans (bind_run_ok hreport))

/-- Reading a variable where it may be unbound changes nothing. -/
theorem visit_probing (hv : node.IsVariable name) (hc : c.scope.assigning = none)
    (hprobing : c.scope.probing = true) :
    visit node setting c = .ok (.value ((c.scope.read? name).getD (.of .null))) c := by
  obtain rfl := hv.text
  rw [visit_variable_run hv hc]
  cases hread : c.scope.read? node.textD with
  | some ty => exact bind_run_ok (variableRule_bound hread)
  | none =>
    have hrule : Rules.variableRule node none setting c = _ := variableRule_unbound hread
    rw [if_pos hprobing] at hrule
    exact bind_run_ok hrule

theorem probe_run (hv : node.IsVariable name) (hc : c.scope.assigning = none) :
    whileProbing (do return (← visit node).ty) setting c =
      .ok ((c.scope.read? name).getD (.of .null)) c := by
  let probing : Checker := { c with scope := { c.scope with probing := true } }
  have hread : visit node setting probing = _ := visit_probing hv hc rfl
  rw [whileProbing_eq_around, around, bind_run_ok hread]
  rfl

theorem write_run (hv : node.IsVariable name) (hc : c.scope.assigning = none) (ty : TyUnion) :
    whileAssigning ty (visit node) setting c =
      .ok (.value ty) { c with scope := c.scope.bind name ty } := by
  obtain ⟨session, scope⟩ := c
  obtain ⟨env, names, classContext, isStatic, function, assigning⟩ := scope
  cases hc
  rw [whileAssigning, visit_variable hv, ← hv.text]
  rfl

/-! ### Assignments -/

/-- A compound assignment to a variable reads it, and forgets its type if the operator is
none of those that compute. -/
theorem compound_run (hkind : node.kind = .compoundAssignment)
    (hjoins : node.Joins left "??" right) (hv : left.IsVariable name)
    (hc : c.scope.assigning = none) : visit node setting c = (do
      let _ ← visit left
      let _ ← visit right
      bindVariable name .mixed
      return .value .mixed : Check Inferred) setting c := by
  have hresult : ∀ a b, binaryResult (Rules.plainOperator "??") a b = .mixed := fun a b => rfl
  rw [visit_compound hkind hjoins (by decide), bind_run_ok (dropValue_run hc)]
  simp only [hresult]
  rw [bind_run, bind_run]
  cases visit left setting c with
  | error e c₁ => rfl
  | ok a c₁ =>
    dsimp only
    rw [bind_run, bind_run]
    cases hright : visit right setting c₁ with
    | error e c₂ => rfl
    | ok b c₂ =>
      dsimp only
      rw [bind_run_ok (write_run hv (visit_assigning hright) _)]
      rfl

theorem expansion_run (hexpands : node.Expands name right) (hc : c.scope.assigning = none) :
    visit node setting c = (do
      let value ← visit right
      let ty := coalesce ((c.scope.read? name).getD (.of .null)) value.ty
      bindVariable name ty
      return .value ty : Check Inferred) setting c := by
  obtain ⟨left, hleft, hv⟩ := hexpands.target
  obtain ⟨value, left', hvalue, hkind, hjoins, hv'⟩ := hexpands.value
  have hcall : value.kind.isCall = false := by rw [hkind]; rfl
  rw [visit_assignment hexpands.kind hleft hvalue hcall, bind_run_ok (dropValue_run hc),
    visit_coalesce hkind hjoins, bind_run, bind_run_ok (dropValue_run hc),
    bind_run_ok (probe_run hv' hc), bind_run, bind_run]
  cases hright : visit right setting c with
  | error e c₁ => rfl
  | ok b c₁ =>
    exact bind_run_ok (write_run hv (visit_assigning hright)
      (coalesce ((c.scope.read? name).getD (.of .null)) b.ty))

/-- What is found stays found. -/
theorem Composite.mem_after {α : Type} {m : Check α} (hm : m.Composite) (setting : Setting)
    {d : Diagnostic}
    (hd : d ∈ c.diagnostics) : d ∈ (m.after setting c).diagnostics := by
  have hrun : m setting c = withEarlier c.diagnostics (m setting (c.withFindings [])) :=
    hm.extends setting (c.withFindings []) c.diagnostics
  unfold Check.after
  rw [hrun]
  cases m setting (c.withFindings []) with
  | ok a c' => exact List.mem_append_right _ hd
  | error e c' => exact List.mem_append_right _ hd

end Check

/-- `$name ??= right;` as it stands in the trees of source texts. -/
structure Node.Coalesces (statement left : Node) (name : String) (right : Node) : Prop where
  assigns : ∃ node, statement.Evaluates node ∧ node.kind = .compoundAssignment ∧
    node.Joins left "??" right
  target : left.IsVariable name

/-- `$name = $name ?? right;` -/
def Node.SpellsOut (statement : Node) (name : String) (right : Node) : Prop :=
  ∃ node, statement.Evaluates node ∧ node.Expands name right

namespace Check

variable {setting : Setting} {c : Checker} {short long left right : Node} {name : String}

/-- The assignment is checked like a read of the variable and the assignment that is
spelled out, after which the type of the variable is forgotten. -/
theorem coalescing_run (hshort : short.Coalesces left name right)
    (hlong : long.SpellsOut name right)
    (hc : c.scope.assigning = none) : visit short setting c = (do
      let _ ← visit left
      let result ← visit long
      bindVariable name .mixed
      return result : Check Inferred) setting c := by
  obtain ⟨node, hstatement, hkind, hjoins⟩ := hshort.assigns
  obtain ⟨expansion, hexpansion, hexpands⟩ := hlong
  rw [visit_statement hstatement, bind_run_ok (dropValue_run hc), bind_run,
    compound_run hkind hjoins hshort.target hc, bind_run, bind_run]
  cases hleft : visit left setting c with
  | error e c₁ => rfl
  | ok a c₁ =>
    dsimp only
    have hc₁ : c₁.scope.assigning = none := visit_assigning hleft
    rw [visit_statement hexpansion, bind_run, bind_run, bind_run_ok (dropValue_run hc₁), bind_run,
      expansion_run hexpands hc₁, bind_run]
    cases visit right setting c₁ with
    | error e c₂ => rfl
    | ok b c₂ =>
      exact congrArg (fun s =>
        EStateM.Result.ok (Inferred.statement .normal) { c₂ with scope := s })
        (c₂.scope.bind_bind name _ .mixed).symm

/-- In the tree of a source text no compound assignment has the operator that the rule
for `??=` is for.  So `$x ??= E;` is checked like `$x; $x = $x ?? E;`, and then the type of
`$x` is forgotten; a variable that is not bound is reported. -/
theorem visit_coalescing (src : Source) (short long left right : Node) (name : String)
    (setting : Setting) (c : Checker) :
    (∀ node ∈ (parse src).1.walk, node.kind = .compoundAssignment →
      ∃ operator, node.fieldText? "operator" = some operator ∧ operator ≠ "??=") ∧
    (short.Coalesces left name right → long.SpellsOut name right → c.scope.assigning = none →
      visit short setting c = (do
          let _ ← visit left
          let result ← visit long
          bindVariable name .mixed
          return result : Check Inferred) setting c ∧
        (c.scope.read? name = none → c.scope.probing = false → c.scope.including = false →
          c.muted = 0 →
          left.undefinedFinding setting.file ∈ ((visit short).after setting c).diagnostics)) := by
  refine ⟨fun node hnode hkind => ?_, fun hshort hlong hc => ?_⟩
  · obtain ⟨left, kind, operator, right, htable, hjoins⟩ := parse_regular src node hnode hkind
    exact ⟨operator, hjoins.operator, TokenKind.compoundOperator?_ne htable⟩
  · refine ⟨coalescing_run hshort hlong hc, fun hread hprobing hincluding hmuted => ?_⟩
    obtain ⟨ty, c', hleft, hfound⟩ : ∃ ty c', visit left setting c = .ok (.value ty) c' ∧ _ :=
      read_run hshort.target hc
    have hrest : (do
        let result ← visit long
        bindVariable name .mixed
        return result : Check Inferred).Composite :=
      .bind (composite_visit long) fun _ => .bind (.bindVariable name .mixed) fun _ => .pure _
    have hmem := List.mem_cons_self (a := left.undefinedFinding setting.file) (l := c.diagnostics)
    rw [← hfound hread hprobing hincluding hmuted] at hmem
    have hmem := hrest.mem_after setting hmem
    unfold Check.after at hmem ⊢
    rw [coalescing_run hshort hlong hc, bind_run_ok hleft]
    exact hmem

end Check

/-! ### A variable that is not bound -/

/-- A node as a statement. -/
def Node.asStatement (node : Node) : Node :=
  .ofKind .expressionStatement default [node.inField "expression"]

/-- `$x op right`, as a node of the kind. -/
def Node.operating (kind : NodeKind) (operator : String) (right : Node) : Node :=
  .ofKind kind default
    [(Node.leaf .variableName default "x").inField "left",
     (Node.leaf .operator default operator).inField "operator", right.inField "right"]

/-- `$x = right` -/
def Node.assigning (right : Node) : Node :=
  .ofKind .assignment default
    [(Node.leaf .variableName default "x").inField "left", right.inField "right"]

namespace Check

/-- `$x ??= 1;` where `$x` is not bound, and the operator in a source text. -/
theorem visit_coalescing_unbound :
    let one := Node.leaf .integerLiteral default "1"
    let x := (Node.leaf .variableName default "x").inField "left"
    let short := (Node.operating .compoundAssignment "??" one).asStatement
    let c : Checker :=
      { session := { registry := {}, loader := .none, config := {} }, scope := .file false }
    let src := Source.ofString "<?php $x ??= 1;"
    (∃ node ∈ (parse src).1.walk, node.kind = .compoundAssignment ∧
      ∃ operator, node.fieldText? "operator" = some operator ∧ operator ≠ "??=") ∧
    x.undefinedFinding Setting.alone.file ∈ ((visit short).after .alone c).diagnostics := by
  intro one x short c src
  have hshort : short.Coalesces x "x" (one.inField "right") :=
    ⟨⟨(Node.operating .compoundAssignment "??" one).inField "expression", ⟨rfl, rfl, rfl⟩, rfl,
      rfl, rfl, rfl⟩, rfl, rfl⟩
  have hlong : (Node.assigning (.operating .binaryExpression "??" one)).asStatement.SpellsOut "x"
      (one.inField "right") :=
    ⟨(Node.assigning (.operating .binaryExpression "??" one)).inField "expression",
      ⟨rfl, rfl, rfl⟩, rfl, ⟨x, rfl, rfl, rfl⟩,
      (Node.operating .binaryExpression "??" one).inField "right", x, rfl, rfl, ⟨rfl, rfl, rfl⟩,
      rfl, rfl⟩
  obtain ⟨htable, hrun⟩ := visit_coalescing src short (Node.assigning
    (.operating .binaryExpression "??" one)).asStatement x (one.inField "right") "x" .alone c
  have hsome : ∃ node ∈ (parse src).1.walk, node.kind = .compoundAssignment := by
    have hany : ((parse src).1.walk.any (·.kind == .compoundAssignment)) = true := by
      decide +kernel
    obtain ⟨node, hnode, hkind⟩ := List.any_eq_true.1 hany
    exact ⟨node, hnode, beq_iff_eq.1 hkind⟩
  obtain ⟨node, hnode, hkind⟩ := hsome
  refine ⟨⟨node, hnode, hkind, htable node hnode hkind⟩, ?_⟩
  exact (hrun hshort hlong rfl).2 rfl rfl rfl rfl

end Check

end PhpCheck
