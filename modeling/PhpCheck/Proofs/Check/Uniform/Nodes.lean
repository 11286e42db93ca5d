import PhpCheck.Proofs.Check.Lower
import PhpCheck.Proofs.Check.Uniform.Statements

/-!
Functions, classes and nodes are checked alike in two runs (`Check.uniform_visit`).
-/

namespace PhpCheck

open Check

variable {names? : Option NameContext} {l : Ledger} {r : Rules} {node : Node}

theorem Check.Uniform.dropValue : Check.dropValue.Uniform names? :=
  .modifyScope fun hs => hs.ofOutline (g := fun s => { s with assigning := none })
    fun _ => ⟨rfl, rfl, rfl, rfl, rfl⟩

/-! ### Functions -/

/-- What a body comes to, apart from whether the environment at its end is a snapshot. -/
def Rules.BodyOutcome.outline (outcome : Rules.BodyOutcome) : Rules.BodyOutcome :=
  { outcome with env := { outcome.env with snapshot := none } }

theorem Rules.BodyOutcome.outline_congr {returns : TyUnion} {e f : Env}
    (h : e.bindings = f.bindings) :
    Rules.BodyOutcome.outline ⟨returns, e⟩ = Rules.BodyOutcome.outline ⟨returns, f⟩ := by
  unfold outline
  dsimp only
  rw [h]

@[simp, grind =]
theorem Rules.BodyOutcome.returns_outline (outcome : Rules.BodyOutcome) :
    outcome.outline.returns = outcome.returns := rfl

/-- Bodies that come to the same. -/
abbrev Rules.BodyOutcome.alike : Likeness Rules.BodyOutcome :=
  ⟨fun _ o o' => o.outline = o'.outline, fun _ h => h⟩

namespace Rules.Uniform

@[grind ←]
theorem parameter (hr : r.Uniform names?) (h : node.Keeps names?) (doc : DocComment)
    (name : String) : (r.parameter doc node name).Uniform names? := by
  unfold Rules.parameter
  grind

@[grind ←]
theorem declaration (hr : r.Uniform names?) (h : node.Keeps names?) (name : String) :
    (r.declaration name node).Uniform names? := by
  unfold Rules.declaration
  grind

@[grind ←]
theorem bodyResult (hr : r.Uniform names?) (h : node.Keeps names?) (kind : BodyKind) :
    (r.bodyResult node kind).Uniform names? := by
  unfold Rules.bodyResult
  grind

theorem checkBody (hr : r.Uniform names?) (h : node.Keeps names?) (d : FunctionDecl)
    (display : String) (isStatic : Bool) (kind : BodyKind) :
    (r.checkBody node d display isStatic kind).Agree names? l BodyOutcome.alike
      (r.checkBody node d display isStatic kind) := by
  unfold Rules.checkBody
  extract_lets context
  refine Agree.scope.bind fun l₁ outer outer' _ houter => ?_
  extract_lets inner body inner' body'
  have hinner : inner.Alike names? 0 true l₁ inner' := by
    cases kind
    · exact houter.functionBody _ _
    · exact houter.arrowBody _ _
  have hbody : body.Alike names? 0 true l₁ body' := by
    clear_value inner inner'
    show (d.params.foldl (fun s p => s.bind p.param.name p.inside) inner).Alike names? 0 true l₁
      (d.params.foldl (fun s p => s.bind p.param.name p.inside) inner')
    induction d.params generalizing inner inner' with
    | nil => exact hinner
    | cons p ps ih => exact ih _ _ (hinner.bind _ _)
  clear_value inner inner' body body'
  refine (Agree.inScope hbody (hr.bodyResult h kind).agree).bind
    fun l₂ result result' _ hresult => ?_
  obtain ⟨result, final⟩ := result
  obtain ⟨result', final'⟩ := result'
  obtain ⟨hresult, hfinal⟩ := hresult
  have hobserved : final.observed = final'.observed := by
    unfold Scope.observed
    rw [hfinal.results rfl]
  dsimp -zeta only at hresult hfinal ⊢
  cases hresult
  rw [hobserved]
  extract_lets returns next next'
  have hnext : ∀ returns, (next returns).Agree names? l₂ BodyOutcome.alike (next' returns) :=
    fun returns => .pure (BodyOutcome.outline_congr hfinal.env.bindings)
  clear_value returns next next'
  refine .ite (fun _ => ?_) fun _ => hnext _
  exact (Check.Uniform.checkFallThrough node d display).followed fun _ => hnext _

/-- What follows the check of a body, if it does not depend on whether the environment at the end
is a snapshot. -/
@[grind ←]
theorem ofBody {α : Type} (hr : r.Uniform names?) (h : node.Keeps names?) {d : FunctionDecl}
    {display : String} {isStatic : Bool} {kind : BodyKind} {f : BodyOutcome → Check α}
    (hf : ∀ outcome, (f outcome).Uniform names?)
    (hplain : ∀ outcome, f outcome.outline = f outcome) :
    (r.checkBody node d display isStatic kind >>= f).Uniform names? := by
  refine (hr.checkBody h d display isStatic kind).bind fun l₁ o o' _ ho => ?_
  rw [← hplain o, ho, hplain]
  exact (hf o').agree

@[grind ←]
theorem declareFunction (hr : r.Uniform names?) (h : node.Keeps names?) :
    (r.declareFunction node).Uniform names? := by
  unfold Rules.declareFunction
  split
  · refine .ofScope (fun s => .bind (hr.declaration h _) fun d => ?_) fun _ => rfl
    grind
  · exact .pure _

@[grind ←]
theorem functionDefinition (hr : r.Uniform names?) (h : node.Keeps names?) :
    (r.functionDefinition node).Uniform names? := by
  unfold Rules.functionDefinition
  extract_lets last
  have hlast : ∀ u, (last u).Uniform names? := by grind
  clear_value last
  split
  · refine .bind (.isHoisted _) fun hoisted => ?_
    extract_lets next
    have hnext : ∀ u, (next u).Uniform names? := by
      intro u
      refine .ofScope (fun s => .bind (hr.declaration h _) fun d => ?_) fun _ => rfl
      split
      · exact hr.ofBody (h.childBy? ‹_›) (fun outcome => by grind) fun _ => rfl
      · exact hlast ()
    clear_value next
    grind
  · exact hlast ()

@[grind ←]
theorem closure (hr : r.Uniform names?) (h : node.Keeps names?) :
    (r.closure node).Uniform names? := by
  unfold Rules.closure
  refine .bind (hr.declaration h _) fun d => .bind (.isStaticClosure _) fun isStatic => ?_
  split
  · exact .pure _
  · refine .bind (.filterMapM fun _ _ => .capture? _) fun captures => ?_
    refine hr.ofBody (h.childBy? ‹_›) (fun outcome => ?_) fun _ => rfl
    refine .bind (.forM fun c _ => ?_) fun _ => .pure _
    grind

@[grind ←]
theorem arrowFunction (hr : r.Uniform names?) (h : node.Keeps names?) :
    (r.arrowFunction node).Uniform names? := by
  unfold Rules.arrowFunction
  grind

/-! ### Classes -/

@[grind ←]
theorem constantMembers (hr : r.Uniform names?) (h : node.Keeps names?) (className : String)
    (p : ClassParts) : (r.constantMembers className node p).Uniform names? := by
  unfold Rules.constantMembers
  grind

@[grind ←]
theorem propertyMembers (hr : r.Uniform names?) (h : node.Keeps names?) (className : String)
    (p : ClassParts) : (r.propertyMembers className node p).Uniform names? := by
  unfold Rules.propertyMembers
  extract_lets doc
  refine .bind (.typeContext _) fun context => .bind (.declaredType _ _ _ _ _) fun declared => ?_
  refine .foldlM _ fun p element helement => ?_
  have helement := h.childrenBy helement
  grind

@[grind ←]
theorem methodMember (hr : r.Uniform names?) (h : node.Keeps names?) (className : String)
    (isInterface : Bool) (p : ClassParts) :
    (r.methodMember className isInterface node p).Uniform names? := by
  unfold Rules.methodMember
  grind

@[grind ←]
theorem classPart (hr : r.Uniform names?) (h : node.Keeps names?) (className : String)
    (isInterface : Bool) (p : ClassParts) :
    (r.classPart className isInterface p node).Uniform names? := by
  unfold Rules.classPart
  grind

@[grind ←]
theorem populateClass (hr : r.Uniform names?) (h : node.Keeps names?) (className : String) :
    (r.populateClass node className).Uniform names? := by
  unfold Rules.populateClass
  refine .bind (.inClass _ _ (.bind (.documentedMembers _ _) fun p => ?_)) fun parts => ?_
  · exact .foldlM _ fun p item hitem => hr.classPart (h.listed hitem) _ _ _
  · grind

@[grind ←]
theorem declareClass (hr : r.Uniform names?) (h : node.Keeps names?) (className : String) :
    (r.declareClass node className).Uniform names? := by
  unfold Rules.declareClass
  grind

@[grind ←]
theorem checkProperty (hr : r.Uniform names?) (h : node.Keeps names?) (className : String)
    (item : Node) : (r.checkProperty className item node).Uniform names? := by
  unfold Rules.checkProperty
  grind

@[grind ←]
theorem checkClassConstant (hr : r.Uniform names?) (h : node.Keeps names?) :
    (r.checkClassConstant node).Uniform names? := by
  unfold Rules.checkClassConstant
  grind

@[grind ←]
theorem checkMethod (hr : r.Uniform names?) (h : node.Keeps names?) (className : String)
    (own : Bool) : (r.checkMethod className own node).Uniform names? := by
  unfold Rules.checkMethod
  split
  · refine .bind (.checkName _ _ _ _) fun _ => .bind (hr.declaration h _) fun d => ?_
    grind
  · exact .pure _

@[grind ←]
theorem checkMember (hr : r.Uniform names?) (h : node.Keeps names?) (className : String)
    (own : Bool) : (r.checkMember className own node).Uniform names? := by
  unfold Rules.checkMember
  grind

@[grind ←]
theorem checkClass (hr : r.Uniform names?) (h : node.Keeps names?) (className : String) :
    (r.checkClass node className).Uniform names? := by
  unfold Rules.checkClass
  refine .bind (.forM fun n _ => ?_) fun _ => .inClass _ _ (.bind (.isOwnClass _) fun own => ?_)
  · grind
  · exact .forM fun item hitem => hr.checkMember (h.listed hitem) _ _

@[grind ←]
theorem classDeclaration (hr : r.Uniform names?) (h : node.Keeps names?) :
    (r.classDeclaration node).Uniform names? := by
  unfold Rules.classDeclaration
  extract_lets last
  have hlast : ∀ u, (last u).Uniform names? := by grind
  clear_value last
  split
  · refine .bind (.checkName _ _ _ _) fun _ => .ofScope (fun s => ?_) fun _ => rfl
    grind
  · exact hlast _

@[grind ←]
theorem anonymousClass (hr : r.Uniform names?) (h : node.Keeps names?) :
    (r.anonymousClass node).Uniform names? := by
  unfold Rules.anonymousClass
  have harguments := h.arguments
  refine .bind .currentFile fun file => ?_
  extract_lets className next
  have hnext : ∀ u, (next u).Uniform names? := by grind
  clear_value className next
  grind

@[grind ←]
theorem instantiate (hr : r.Uniform names?) (h : node.Keeps names?) (classNode : Node)
    (className : String) : (r.instantiate node classNode className).Uniform names? := by
  unfold Rules.instantiate
  have harguments := h.arguments
  grind

@[grind ←]
theorem newExpression (hr : r.Uniform names?) (h : node.Keeps names?) :
    (r.newExpression node).Uniform names? := by
  unfold Rules.newExpression
  split
  · exact .pure _
  · have hclass := h.childBy? ‹_›
    split
    · exact hr.anonymousClass hclass
    · exact .bind (.classReference _) fun className => hr.instantiate h _ className
    · refine .bind (hr.expr hclass) fun ty => ?_
      split
      · exact hr.instantiate h _ _
      · exact .bind (hr.visitArguments h.arguments) fun _ => .pure _

/-! ### Nodes -/

@[grind =]
theorem magicConstant_outline (file dir : String) (s : Scope) (node : Node) :
    magicConstant file dir s.outline node = magicConstant file dir s node := by
  unfold magicConstant Scope.outline
  cases s.function <;> rfl

theorem apply (hr : r.Uniform names?) (h : node.Keeps names?) (assigning : Option TyUnion) :
    (r.apply node assigning).Uniform names? := by
  unfold Rules.apply
  extract_lets value statement
  have hvalue : ∀ {m : Check TyUnion}, m.Uniform names? → (value m).Uniform names? :=
    fun hm => .bind hm fun _ => .pure _
  have hstatement : ∀ {m : Check Flow}, m.Uniform names? → (statement m).Uniform names? :=
    fun hm => .bind hm fun _ => .pure _
  have hcondition : ∀ {branches : Check Branches}, r.logical? node = some branches →
      (do
        let b ← branches
        setEnv b.split.joined
        return b.ty : Check TyUnion).Uniform names? := by
    intro branches hbranches
    refine (hr.logical? h hbranches).bind fun l₁ b b' _ hb => ?_
    exact (Agree.setEnv hb.split.joined).bind fun _ _ _ _ _ => .pure hb.ty
  clear_value value statement
  split
  · exact hvalue (hcondition ‹_›)
  · split <;> grind

theorem visitNode (hr : r.Uniform names?) (h : node.Keeps names?) :
    (r.visitNode node).Uniform names? := by
  unfold Rules.visitNode
  exact .ofScope (fun s => .bind .dropValue fun _ => hr.apply h _) fun _ => rfl

end Rules.Uniform

theorem Rules.uniform_below (names? : Option NameContext) (height : Nat) :
    (Rules.below height).Uniform names? := by
  induction height using Nat.strongRecOn with
  | ind height ih =>
    rw [Rules.below]
    refine ⟨fun {node} h => ?_, fun {node} h => ?_⟩
    · dsimp only
      split
      · exact (ih _ ‹_›).visitNode h
      · exact .pure _
    · dsimp only
      split
      · exact (ih _ ‹_›).splitNode ((ih _ ‹_›).visitNode h) h
      · exact Rules.Uniform.undecided _

/-- Checking a node does alike in two checkers that are alike. -/
theorem Check.uniform_visit (h : node.Keeps names?) : (Check.visit node).Uniform names? :=
  (Rules.uniform_below names? node.height).visitNode h

theorem Node.keeps_none (node : Node) : node.Keeps none := nofun

/-! ### Declarations and files -/

namespace Check.Uniform

theorem forEach (hnames : names? = none) (declarations : List Placed) {step : Node → Check Unit}
    (hstep : ∀ node, (step node).Uniform names?) :
    (Rules.forEach declarations step).Uniform names? := by
  unfold Rules.forEach
  exact .forM fun placed _ => .bind (.setNames hnames _) fun _ => hstep _

@[grind ←]
theorem declaredName (node : Node) : (Rules.declaredName node).Uniform names? := by
  unfold Rules.declaredName
  grind

end Check.Uniform

theorem Rules.Uniform.hoist (hr : r.Uniform none) (root : Node) : (r.hoist root).Uniform none := by
  have hkeeps : ∀ node : Node, node.Keeps none := Node.keeps_none
  unfold Rules.hoist Rules.hoistAll
  refine .ofScope (fun s => ?_) fun _ => rfl
  extract_lets names ofKind
  refine .bind (.bind (.forEach rfl _ fun node => ?_) fun _ => ?_) fun _ => .setNames rfl _
  · grind
  refine .bind (.forEach rfl _ fun node => ?_) fun _ => .bind .hoistedStarts fun hoisted => ?_
  · exact .quietly (hr.declareConstants (hkeeps node) fun _ _ => .pure _)
  extract_lets classes
  refine .bind (.forEach rfl _ fun node => ?_) fun _ => .forEach rfl _ fun node => ?_
  · grind
  · grind

end PhpCheck
