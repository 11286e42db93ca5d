import PhpCheck.Proofs.Check.Composite

/-!
The analysis of a file is put together from the primitive steps: the rules for
expressions, statements, functions and classes are, given that those for their parts
are, and so are the rules for nodes of any height.

Where the paths of a rule meet again, the rest of the rule is shown to be composite
first, and the paths are followed up to there.
-/

namespace PhpCheck

open Check

variable {r : Rules}

/-! ### Expressions -/

@[grind ←]
theorem Check.Composite.variableRule (node : Node) (assigning : Option TyUnion) :
    (Rules.variableRule node assigning).Composite := by
  unfold Rules.variableRule
  grind

@[grind ←]
theorem Rules.Composite.variableVariable (hr : r.Composite) (node : Node)
    (assigning : Option TyUnion) : (r.variableVariable node assigning).Composite := by
  unfold Rules.variableVariable
  grind

@[grind ←]
theorem Check.Composite.findConstant? (candidates : List String) :
    (Rules.findConstant? candidates).Composite := by
  unfold Rules.findConstant?
  grind

@[grind ←]
theorem Check.Composite.constantFetch (node : Node) : (Rules.constantFetch node).Composite := by
  unfold Rules.constantFetch
  extract_lets text last next
  have hnext : ∀ found, (next found).Composite := by grind
  clear_value next
  grind

@[grind ←]
theorem Rules.Composite.interpolatedString (hr : r.Composite) (node : Node) :
    (r.interpolatedString node).Composite := by
  unfold Rules.interpolatedString
  grind

@[grind ←]
theorem Rules.Composite.referenceSource (hr : r.Composite) (node : Node) :
    (r.referenceSource node).Composite := by
  unfold Rules.referenceSource
  grind

@[grind ←]
theorem Rules.Composite.arrayElement (hr : r.Composite) (es : Elements) (element : Node) :
    (r.arrayElement es element).Composite := by
  unfold Rules.arrayElement
  grind

@[grind ←]
theorem Rules.Composite.destructure (hr : r.Composite) (node : Node) (value : TyUnion) :
    (r.destructure node value).Composite := by
  unfold Rules.destructure
  grind

@[grind ←]
theorem Rules.Composite.arrayLiteral (hr : r.Composite) (node : Node) (assigning : Option TyUnion) :
    (r.arrayLiteral node assigning).Composite := by
  unfold Rules.arrayLiteral
  grind

@[grind ←]
theorem Rules.Composite.assignment (hr : r.Composite) (node : Node) :
    (r.assignment node).Composite := by
  unfold Rules.assignment
  grind

@[grind ←]
theorem Rules.Composite.referenceAssignment (hr : r.Composite) (node : Node) :
    (r.referenceAssignment node).Composite := by
  unfold Rules.referenceAssignment
  grind

@[grind ←]
theorem Rules.Composite.compoundAssignment (hr : r.Composite) (node : Node) :
    (r.compoundAssignment node).Composite := by
  unfold Rules.compoundAssignment
  grind

@[grind ←]
theorem Rules.Composite.updateExpression (hr : r.Composite) (node : Node) :
    (r.updateExpression node).Composite := by
  unfold Rules.updateExpression
  grind

@[grind ←]
theorem Rules.Composite.binaryExpression (hr : r.Composite) (node : Node) :
    (r.binaryExpression node).Composite := by
  unfold Rules.binaryExpression
  grind

@[grind ←]
theorem Rules.Composite.unaryExpression (hr : r.Composite) (node : Node) :
    (r.unaryExpression node).Composite := by
  unfold Rules.unaryExpression
  grind

@[grind ←]
theorem Rules.Composite.castExpression (hr : r.Composite) (node : Node) :
    (r.castExpression node).Composite := by
  unfold Rules.castExpression
  grind

@[grind ←]
theorem Rules.Composite.sameAs (hr : r.Composite) (node : Node) (field : String) :
    (r.sameAs node field).Composite := by
  unfold Rules.sameAs
  grind

@[grind ←]
theorem Rules.Composite.ternaryExpression (hr : r.Composite) (node : Node) :
    (r.ternaryExpression node).Composite := by
  unfold Rules.ternaryExpression
  split
  · refine .bind (hr.condition _) fun branches => ?_
    extract_lets known next
    have hnext : ∀ yes, (next yes).Composite := by grind
    clear_value next
    grind
  · exact .pure _

@[grind ←]
theorem Rules.Composite.issetExpression (hr : r.Composite) (node : Node) :
    (r.issetExpression node).Composite := by
  unfold Rules.issetExpression
  grind

@[grind ←]
theorem Rules.Composite.emptyExpression (hr : r.Composite) (node : Node) :
    (r.emptyExpression node).Composite := by
  unfold Rules.emptyExpression
  grind

@[grind ←]
theorem Rules.Composite.evaluating (hr : r.Composite) (node : Node) (ty : TyUnion) :
    (r.evaluating node ty).Composite := by
  unfold Rules.evaluating
  grind

@[grind ←]
theorem Rules.Composite.leaving (hr : r.Composite) (node : Node) : (r.leaving node).Composite := by
  unfold Rules.leaving
  grind

@[grind ←]
theorem Rules.Composite.includeExpression (hr : r.Composite) (node : Node) :
    (r.includeExpression node).Composite := by
  unfold Rules.includeExpression
  extract_lets word isRequired once last next
  clear_value word isRequired once
  have hnext : ∀ target, (next target).Composite := by
    intro target
    cases target with
    | none => exact .pure _
    | some target =>
      refine .bind (.resolveInclude? _) fun path? => ?_
      cases path? with
      | none => grind
      | some path =>
        refine .bind (.includeFile _ _) fun outcome => ?_
        cases outcome <;> grind
  clear_value next
  grind

@[grind ←]
theorem Rules.Composite.matchArm (hr : r.Composite) (entry : Env) (arm : Node) :
    (r.matchArm entry arm).Composite := by
  unfold Rules.matchArm
  grind

@[grind ←]
theorem Rules.Composite.matchExpression (hr : r.Composite) (node : Node) :
    (r.matchExpression node).Composite := by
  unfold Rules.matchExpression
  grind

@[grind ←]
theorem Rules.Composite.yieldExpression (hr : r.Composite) (node : Node) :
    (r.yieldExpression node).Composite := by
  unfold Rules.yieldExpression
  grind

@[grind ←]
theorem Rules.Composite.expressionList (hr : r.Composite) (node : Node) :
    (r.expressionList node).Composite := by
  unfold Rules.expressionList
  grind

/-! ### Statements -/

@[grind ←]
theorem Rules.Composite.statements (hr : r.Composite) (nodes : List Node) :
    (r.statements nodes).Composite := by
  unfold Rules.statements
  grind

@[grind ←]
theorem Rules.Composite.block (hr : r.Composite) (node : Node) : (r.block node).Composite := by
  unfold Rules.block
  grind

@[grind ←]
theorem Rules.Composite.echoStatement (hr : r.Composite) (node : Node) :
    (r.echoStatement node).Composite := by
  unfold Rules.echoStatement
  grind

@[grind ←]
theorem Check.Composite.applyVarTags (doc : String) (expression : Node) (inferred : TyUnion) :
    (Rules.applyVarTags doc expression inferred).Composite := by
  unfold Rules.applyVarTags
  grind

@[grind ←]
theorem Rules.Composite.expressionStatement (hr : r.Composite) (node : Node) :
    (r.expressionStatement node).Composite := by
  unfold Rules.expressionStatement
  grind

@[grind ←]
theorem Check.Composite.joinPaths (exits : List Env) : (Rules.joinPaths exits).Composite := by
  unfold Rules.joinPaths
  grind

@[grind ←]
theorem Rules.Composite.checkArms (hr : r.Composite) (paths : Paths)
    (arms : List (Option Node × Node)) : (r.checkArms paths arms).Composite := by
  induction arms generalizing paths with
  | nil => grind [Rules.checkArms]
  | cons arm arms ih =>
    obtain ⟨test?, body⟩ := arm
    cases test? with
    | none => grind [Rules.checkArms]
    | some test =>
      unfold Rules.checkArms
      refine .bind (hr.condition _) fun b => ?_
      grind

@[grind ←]
theorem Rules.Composite.ifStatement (hr : r.Composite) (node : Node) :
    (r.ifStatement node).Composite := by
  unfold Rules.ifStatement
  exact .bind (hr.checkArms _ _) fun _ => .bind (.joinPaths _) fun _ => .pure _

@[grind ←]
theorem Rules.Composite.switchClause (hr : r.Composite) (entry : Env) (cs : Clauses)
    (clause : Node) : (r.switchClause entry cs clause).Composite := by
  unfold Rules.switchClause
  grind

@[grind ←]
theorem Rules.Composite.switchStatement (hr : r.Composite) (node : Node) :
    (r.switchStatement node).Composite := by
  unfold Rules.switchStatement
  grind

@[grind ←]
theorem Rules.Composite.catchClause (hr : r.Composite) (entry : Env) (paths : Paths)
    (clause : Node) : (r.catchClause entry paths clause).Composite := by
  unfold Rules.catchClause
  refine .bind (.setEnv _) fun _ => ?_
  extract_lets next
  have hnext : ∀ u, (next u).Composite := by grind
  clear_value next
  grind

@[grind ←]
theorem Rules.Composite.tryStatement (hr : r.Composite) (node : Node) :
    (r.tryStatement node).Composite := by
  unfold Rules.tryStatement
  refine .bind .env fun entry => ?_
  extract_lets next
  have hnext : ∀ paths, (next paths).Composite := by
    intro paths
    refine .bind .env fun e => .bind (.snapshot _) fun handlerEntry => ?_
    refine .bind (.foldlM (hr.catchClause _) _ _) fun paths => ?_
    grind
  clear_value next
  grind

@[grind ←]
theorem Check.Composite.jumpStatement (node : Node) : (Rules.jumpStatement node).Composite := by
  unfold Rules.jumpStatement
  exact .bind .env fun _ => .bind (.modifyScope fun s => s.kept_recordJump _ _) fun _ => .pure _

@[grind ←]
theorem Check.Composite.checkReturn (node : Node) (ty : Option TyUnion) :
    (Rules.checkReturn node ty).Composite := by
  unfold Rules.checkReturn
  grind

@[grind ←]
theorem Rules.Composite.returnStatement (hr : r.Composite) (node : Node) :
    (r.returnStatement node).Composite := by
  unfold Rules.returnStatement
  refine .bind (hr.expr? _) fun ty => .bind .scope fun s => .ite ?_ (by grind)
  cases ty with
  | some ty =>
    refine .bind (.modifyScope fun s => s.kept_observeReturn ty) fun _ => ?_
    grind
  | none => grind

@[grind ←]
theorem Check.Composite.gotoStatement (node : Node) : (Rules.gotoStatement node).Composite := by
  unfold Rules.gotoStatement
  grind

@[grind ←]
theorem Rules.Composite.declareStatement (hr : r.Composite) (node : Node) :
    (r.declareStatement node).Composite := by
  unfold Rules.declareStatement
  grind

@[grind ←]
theorem Rules.Composite.namespaceDefinition (hr : r.Composite) (node : Node) :
    (r.namespaceDefinition node).Composite := by
  unfold Rules.namespaceDefinition
  grind

@[grind ←]
theorem Check.Composite.useDeclaration (node : Node) : (Rules.useDeclaration node).Composite := by
  unfold Rules.useDeclaration
  exact .bind (.modifyScope fun s => s.kept_names _) fun _ => .pure _

@[grind ←]
theorem Check.Composite.globalDeclaration (node : Node) :
    (Rules.globalDeclaration node).Composite := by
  unfold Rules.globalDeclaration
  grind

@[grind ←]
theorem Rules.Composite.staticDeclaration (hr : r.Composite) (node : Node) :
    (r.staticDeclaration node).Composite := by
  unfold Rules.staticDeclaration
  grind

@[grind ←]
theorem Rules.Composite.unsetStatement (hr : r.Composite) (node : Node) :
    (r.unsetStatement node).Composite := by
  unfold Rules.unsetStatement
  refine .bind (.forM (fun target => .ite ?_ ?_) _) fun _ => .pure _
  · exact .modifyScope fun s => s.kept_env (s.env.erase target.textD)
  · grind

@[grind ←]
theorem Rules.Composite.declareConstants (hr : r.Composite) (node : Node)
    {check : String → Node → Check Unit} (hcheck : ∀ name n, (check name n).Composite) :
    (r.declareConstants node check).Composite := by
  unfold Rules.declareConstants
  refine .forM (fun element => ?_) _
  grind

@[grind ←]
theorem Rules.Composite.constDeclaration (hr : r.Composite) (node : Node) :
    (r.constDeclaration node).Composite := by
  unfold Rules.constDeclaration
  exact .bind (hr.declareConstants _ .checkConstantName) fun _ => .pure _

/-! ### Loops -/

theorem Check.Composite.settle {pass : Check LoopPass} (hpass : pass.Composite) (passes : Nat)
    (head : Env) : (settle pass passes head).Composite := by
  induction passes generalizing head with
  | zero => exact .pure _
  | succ passes ih =>
    unfold PhpCheck.settle
    refine .bind (.setEnv _) fun _ => .bind hpass fun result => ?_
    grind

@[grind ←]
theorem Check.Composite.runLoop {pass : Check LoopPass} (hpass : pass.Composite) :
    (runLoop pass).Composite := by
  unfold PhpCheck.runLoop
  refine .bind .env fun e => .bind (.quietly (.settle hpass _ _)) fun head => ?_
  grind

@[grind ←]
theorem Rules.Composite.loopBody (hr : r.Composite) (body : Node) :
    (r.loopBody body).Composite := by
  unfold Rules.loopBody
  grind

@[grind ←]
theorem Rules.Composite.enterBody (hr : r.Composite) (test? : Option Node) :
    (r.enterBody test?).Composite := by
  unfold Rules.enterBody
  grind

@[grind ←]
theorem Rules.Composite.whileStatement (hr : r.Composite) (node : Node) :
    (r.whileStatement node).Composite := by
  unfold Rules.whileStatement
  grind

@[grind ←]
theorem Rules.Composite.doWhileStatement (hr : r.Composite) (node : Node) :
    (r.doWhileStatement node).Composite := by
  unfold Rules.doWhileStatement
  split
  · refine .runLoop (.bind (hr.loopBody _) fun result => ?_)
    grind
  · exact .pure _

@[grind ←]
theorem Rules.Composite.forStatement (hr : r.Composite) (node : Node) :
    (r.forStatement node).Composite := by
  unfold Rules.forStatement
  refine .bind (hr.expr? _) fun _ => ?_
  split
  · exact .pure _
  · refine .runLoop (.bind (hr.exprs _) fun _ => .bind (hr.enterBody _) fun entered => ?_)
    refine .ite (.bind (hr.loopBody _) fun result => ?_) (.pure _)
    grind

@[grind ←]
theorem Rules.Composite.foreachStatement (hr : r.Composite) (node : Node) :
    (r.foreachStatement node).Composite := by
  unfold Rules.foreachStatement
  split
  · refine .bind (hr.expr _) fun subjectTy => .bind .registry fun known => ?_
    refine .runLoop (.bind .env fun head => ?_)
    grind
  · exact .pure _

/-! ### Functions -/

@[grind ←]
theorem Check.Composite.reconcile (native documented : Option TyUnion) (node : Node)
    (what : String) : (Rules.reconcile native documented node what).Composite := by
  unfold Rules.reconcile
  grind

@[grind ←]
theorem Check.Composite.declaredType (context : TypeContext) (node : Node) (field : String)
    (documented : Option TypeExpr) (what : String) :
    (Rules.declaredType context node field documented what).Composite := by
  unfold Rules.declaredType
  grind

@[grind ←]
theorem Rules.Composite.parameter (hr : r.Composite) (doc : DocComment) (node : Node)
    (name : String) : (r.parameter doc node name).Composite := by
  unfold Rules.parameter
  grind

@[grind ←]
theorem Rules.Composite.declaration (hr : r.Composite) (name : String) (node : Node) :
    (r.declaration name node).Composite := by
  unfold Rules.declaration
  grind

@[grind ←]
theorem Check.Composite.checkFallThrough (node : Node) (d : FunctionDecl) (display : String) :
    (Rules.checkFallThrough node d display).Composite := by
  unfold Rules.checkFallThrough
  grind

@[grind ←]
theorem Rules.Composite.bodyResult (hr : r.Composite) (node : Node) (kind : BodyKind) :
    (r.bodyResult node kind).Composite := by
  unfold Rules.bodyResult
  grind

@[grind ←]
theorem Rules.Composite.checkBody (hr : r.Composite) (node : Node) (d : FunctionDecl)
    (display : String) (isStatic : Bool) (kind : BodyKind) :
    (r.checkBody node d display isStatic kind).Composite := by
  unfold Rules.checkBody
  grind

@[grind ←]
theorem Rules.Composite.declareFunction (hr : r.Composite) (node : Node) :
    (r.declareFunction node).Composite := by
  unfold Rules.declareFunction
  split
  · refine .bind .scope fun s => ?_
    extract_lets qualified
    refine .bind (hr.declaration _ _) fun d => ?_
    rw [registerFunction_bind]
    exact .bind (.registerFunction _ _) fun _ => .noteHoisted node
  · exact .pure _

@[grind ←]
theorem Rules.Composite.functionDefinition (hr : r.Composite) (node : Node) :
    (r.functionDefinition node).Composite := by
  unfold Rules.functionDefinition
  extract_lets last
  have hlast : ∀ u, (last u).Composite := by grind
  clear_value last
  split
  · refine .bind (.isHoisted _) fun hoisted => ?_
    extract_lets next
    have hnext : ∀ u, (next u).Composite := by
      intro u
      refine .bind .scope fun s => ?_
      extract_lets qualified
      refine .bind (hr.declaration _ _) fun d => ?_
      split
      · refine .bind (hr.checkBody _ _ _ _ _) fun outcome => ?_
        have hrevise := Composite.reviseFunction d.declared.isNone qualified
          (d.inferred outcome.returns)
        have hboth := hrevise.bind fun _ => hlast ()
        rw [← reviseFunction_bind] at hboth
        exact hboth
      · exact hlast ()
    clear_value next
    grind
  · grind

@[grind ←]
theorem Check.Composite.capture? (node : Node) : (Rules.capture? node).Composite := by
  unfold Rules.capture?
  grind

@[grind ←]
theorem Check.Composite.isStaticClosure (node : Node) : (Rules.isStaticClosure node).Composite := by
  unfold Rules.isStaticClosure
  grind

@[grind ←]
theorem Rules.Composite.closure (hr : r.Composite) (node : Node) : (r.closure node).Composite := by
  unfold Rules.closure
  refine .bind (hr.declaration _ _) fun d => .bind (.isStaticClosure _) fun isStatic => ?_
  split
  · exact .pure _
  · refine .bind (.filterMapM .capture? _) fun captures => ?_
    refine .bind (hr.checkBody _ _ _ _ _) fun outcome => ?_
    refine .bind (.forM (fun c => ?_) _) fun _ => .pure _
    grind

@[grind ←]
theorem Rules.Composite.arrowFunction (hr : r.Composite) (node : Node) :
    (r.arrowFunction node).Composite := by
  unfold Rules.arrowFunction
  grind

/-! ### Classes -/

@[grind ←]
theorem Check.Composite.classContext (node : Node) (className : String) :
    (Rules.classContext node className).Composite := by
  unfold Rules.classContext
  grind

@[grind ←]
theorem Check.Composite.inClass {α : Type} (node : Node) (className : String) {step : Check α}
    (hstep : step.Composite) : (Rules.inClass node className step).Composite := by
  unfold Rules.inClass
  grind

@[grind ←]
theorem Rules.Composite.constantMembers (hr : r.Composite) (className : String) (item : Node)
    (p : ClassParts) : (r.constantMembers className item p).Composite := by
  unfold Rules.constantMembers
  grind

@[grind ←]
theorem Rules.Composite.propertyMembers (hr : r.Composite) (className : String) (item : Node)
    (p : ClassParts) : (r.propertyMembers className item p).Composite := by
  unfold Rules.propertyMembers
  refine .bind (.typeContext _) fun context => .bind (.declaredType _ _ _ _ _) fun declared => ?_
  refine .foldlM (fun p element => ?_) _ _
  grind

@[grind ←]
theorem Rules.Composite.methodMember (hr : r.Composite) (className : String) (isInterface : Bool)
    (item : Node) (p : ClassParts) : (r.methodMember className isInterface item p).Composite := by
  unfold Rules.methodMember
  grind

@[grind ←]
theorem Check.Composite.usedTraits (item : Node) : (Rules.usedTraits item).Composite := by
  unfold Rules.usedTraits
  grind

@[grind ←]
theorem Rules.Composite.classPart (hr : r.Composite) (className : String) (isInterface : Bool)
    (p : ClassParts) (item : Node) : (r.classPart className isInterface p item).Composite := by
  unfold Rules.classPart
  grind

@[grind ←]
theorem Check.Composite.documentedMembers (className : String) (node : Node) :
    (Rules.documentedMembers className node).Composite := by
  unfold Rules.documentedMembers
  grind

@[grind ←]
theorem Rules.Composite.populateClass (hr : r.Composite) (node : Node) (className : String) :
    (r.populateClass node className).Composite := by
  unfold Rules.populateClass
  refine .bind (.inClass _ _ (.bind (.documentedMembers _ _) fun p => ?_)) fun parts => ?_
  · exact .foldlM (hr.classPart _ _) _ _
  · grind

@[grind ←]
theorem Check.Composite.declareSkeleton (node : Node) (className : String) :
    (Rules.declareSkeleton node className).Composite := by
  unfold Rules.declareSkeleton
  grind

@[grind ←]
theorem Check.Composite.reportCollisions (node : Node) (className : String)
    (collisions : List TraitCollision) :
    (Rules.reportCollisions node className collisions).Composite := by
  unfold Rules.reportCollisions
  grind

@[grind ←]
theorem Rules.Composite.declareClass (hr : r.Composite) (node : Node) (className : String) :
    (r.declareClass node className).Composite := by
  unfold Rules.declareClass
  grind

@[grind ←]
theorem Rules.Composite.checkProperty (hr : r.Composite) (className : String)
    (item element : Node) : (r.checkProperty className item element).Composite := by
  unfold Rules.checkProperty
  grind

@[grind ←]
theorem Rules.Composite.checkClassConstant (hr : r.Composite) (element : Node) :
    (r.checkClassConstant element).Composite := by
  unfold Rules.checkClassConstant
  grind

@[grind ←]
theorem Rules.Composite.checkMethod (hr : r.Composite) (className : String) (own : Bool)
    (node : Node) : (r.checkMethod className own node).Composite := by
  unfold Rules.checkMethod
  split
  · refine .bind (.checkName _ _ _ _) fun _ => .bind (hr.declaration _ _) fun d => ?_
    grind
  · exact .pure _

@[grind ←]
theorem Rules.Composite.checkMember (hr : r.Composite) (className : String) (own : Bool)
    (item : Node) : (r.checkMember className own item).Composite := by
  unfold Rules.checkMember
  grind

@[grind ←]
theorem Rules.Composite.checkClass (hr : r.Composite) (node : Node) (className : String) :
    (r.checkClass node className).Composite := by
  unfold Rules.checkClass
  refine .bind (.forM (fun n => ?_) _) fun _ => .inClass _ _ (.bind (.isOwnClass _) fun own => ?_)
  · grind
  · exact .forM (hr.checkMember _ _) _

@[grind ←]
theorem Rules.Composite.classDeclaration (hr : r.Composite) (node : Node) :
    (r.classDeclaration node).Composite := by
  unfold Rules.classDeclaration
  extract_lets last
  have hlast : ∀ u, (last u).Composite := by grind
  clear_value last
  split
  · refine .bind (.checkName _ _ _ _) fun _ => .bind .scope fun s => ?_
    grind
  · exact hlast _

@[grind ←]
theorem Rules.Composite.anonymousClass (hr : r.Composite) (node : Node) :
    (r.anonymousClass node).Composite := by
  unfold Rules.anonymousClass
  refine .bind .currentFile fun file => ?_
  extract_lets className next
  have hnext : ∀ u, (next u).Composite := by grind
  clear_value className next
  grind

@[grind ←]
theorem Rules.Composite.instantiate (hr : r.Composite) (node classNode : Node)
    (className : String) : (r.instantiate node classNode className).Composite := by
  unfold Rules.instantiate
  grind

@[grind ←]
theorem Rules.Composite.newExpression (hr : r.Composite) (node : Node) :
    (r.newExpression node).Composite := by
  unfold Rules.newExpression
  grind

/-! ### Declarations -/

@[grind ←]
theorem Check.Composite.forEach (declarations : List Placed) {step : Node → Check Unit}
    (hstep : ∀ node, (step node).Composite) : (Rules.forEach declarations step).Composite := by
  unfold Rules.forEach
  refine .forM (fun placed => ?_) _
  exact .bind (.setNames _) fun _ => hstep _

@[grind ←]
theorem Check.Composite.declaredName (node : Node) : (Rules.declaredName node).Composite := by
  unfold Rules.declaredName
  grind

@[grind ←]
theorem Rules.Composite.hoistAll (hr : r.Composite) (declarations : List Placed) :
    (r.hoistAll declarations).Composite := by
  unfold Rules.hoistAll
  extract_lets ofKind
  refine .bind (.forEach _ fun node => ?_) fun _ => .bind (.forEach _ fun node => ?_) fun _ => ?_
  · grind
  · exact .quietly (hr.declareConstants _ fun _ _ => .pure _)
  · refine .bind .hoistedStarts fun hoisted => ?_
    refine .bind (.forEach _ fun node => ?_) fun _ => .forEach _ fun node => ?_
    · grind
    · grind

@[grind ←]
theorem Rules.Composite.hoist (hr : r.Composite) (root : Node) : (r.hoist root).Composite := by
  unfold Rules.hoist
  grind

/-! ### Nodes and files -/

theorem Rules.Composite.logical? (hr : r.Composite) {node : Node} {branches : Check Branches}
    (hb : r.logical? node = some branches) : branches.Composite := by
  unfold Rules.logical? at hb
  grind

theorem Rules.Composite.splitNode (hr : r.Composite) {visit : Node → Check Inferred}
    (hvisit : ∀ node, (visit node).Composite) (node : Node) :
    (r.splitNode visit node).Composite := by
  unfold Rules.splitNode
  split
  · exact hr.logical? ‹_›
  · grind

theorem Rules.Composite.apply (hr : r.Composite) (node : Node) (assigning : Option TyUnion) :
    (r.apply node assigning).Composite := by
  unfold Rules.apply
  extract_lets value statement
  have hvalue : ∀ {m : Check TyUnion}, m.Composite → (value m).Composite :=
    fun hm => .bind hm fun _ => .pure _
  have hstatement : ∀ {m : Check Flow}, m.Composite → (statement m).Composite :=
    fun hm => .bind hm fun _ => .pure _
  clear_value value statement
  split
  · exact hvalue (.bind (hr.logical? ‹_›) fun _ => .bind (.setEnv _) fun _ => .pure _)
  · split <;> grind

theorem Rules.Composite.visitNode (hr : r.Composite) (node : Node) :
    (r.visitNode node).Composite := by
  unfold Rules.visitNode
  exact .bind .scope fun s => .bind (.modifyScope Scope.kept_unassigned) fun _ => hr.apply _ _

theorem Rules.composite_below (height : Nat) : (Rules.below height).Composite := by
  induction height using Nat.strongRecOn with
  | ind height ih =>
    rw [Rules.below]
    refine ⟨fun node => ?_, fun node => ?_⟩
    · dsimp only
      split
      · exact (ih _ ‹_›).visitNode node
      · exact .pure _
    · dsimp only
      split
      · exact (ih _ ‹_›).splitNode (ih _ ‹_›).visitNode node
      · exact .bind .env fun _ => .pure _

theorem Check.composite_visit (node : Node) : (Check.visit node).Composite :=
  (Rules.composite_below node.height).visitNode node

theorem Check.composite_file (root : Node) : (Check.file root).Composite := by
  have hr := Rules.composite_below root.height
  exact .bind (hr.hoist root) fun _ => .bind (Check.composite_visit root) fun _ => .fileValue

end PhpCheck
