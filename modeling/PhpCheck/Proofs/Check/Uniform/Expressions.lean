import PhpCheck.Proofs.Check.Agree
import PhpCheck.Proofs.Check.Paths

/-!
Expressions are checked alike in two runs, rule by rule.

A rule without paths of its own does the same if the rules for the parts do.  Where paths
part, as at a condition, both runs part in environments that are alike, and they meet again in
such.
-/

namespace PhpCheck

open Check

variable {names? : Option NameContext} {l : Ledger} {r : Rules} {node : Node}

theorem predefined?_outline (s : Scope) (name : String) :
    predefined? s.outline name = predefined? s name := by
  unfold predefined? Scope.outline
  cases s.function <;> rfl

/-! ### Classes and values -/

namespace Check.Uniform

@[grind ←]
theorem classReference (name : String) : (Check.classReference name).Uniform names? := by
  unfold Check.classReference
  grind

@[grind ←]
theorem ensureClass (name : String) (node : Node) :
    (Check.ensureClass name node).Uniform names? := by
  unfold Check.ensureClass
  grind

@[grind ←]
theorem knownClass? (name : String) (node : Node) :
    (Check.knownClass? name node).Uniform names? := by
  unfold Check.knownClass?
  grind

@[grind ←]
theorem accepts (value expected : TyUnion) : (Check.accepts value expected).Uniform names? := by
  unfold Check.accepts
  grind

@[grind ←]
theorem checkName (c : Convention) (name : String) (node : Node) (message : String) :
    (Check.checkName c name node message).Uniform names? := by
  unfold Check.checkName
  grind

@[grind ←]
theorem checkConstantName (name : String) (node : Node) :
    (Check.checkConstantName name node).Uniform names? := by
  unfold Check.checkConstantName
  grind

@[grind ←]
theorem accessMember (node : Node) (className : String) (kind : MemberKind) (name : String)
    (assigning : Option TyUnion) :
    (Check.accessMember node className kind name assigning).Uniform names? := by
  unfold Check.accessMember
  refine ofScope (fun s => bind registry fun known => ?_) fun _ => rfl
  extract_lets next
  have hnext : ∀ found, (next found).Uniform names? := by grind
  clear_value next
  grind

@[grind ←]
theorem accessReceiver (node : Node) (name : String) (assigning : Option TyUnion)
    (onlyScalars : Bool) (result : TyUnion) (receiver : Receiver) :
    (Check.accessReceiver node name assigning onlyScalars result receiver).Uniform names? := by
  unfold Check.accessReceiver
  grind

@[grind ←]
theorem checkCallback (node : Node) (ty : TyUnion) :
    (Rules.checkCallback node ty).Uniform names? := by
  unfold Rules.checkCallback
  grind

@[grind ←]
theorem checkArity (node : Node) (f : Signature) (name : String) (p : Rules.Passed) :
    (Rules.checkArity node f name p).Uniform names? := by
  unfold Rules.checkArity
  grind

@[grind ←]
theorem findFunction? (candidates : List String) :
    (Rules.findFunction? candidates).Uniform names? := by
  unfold Rules.findFunction?
  grind

@[grind ←]
theorem loadFunction? (candidates : List String) :
    (Rules.loadFunction? candidates).Uniform names? := by
  unfold Rules.loadFunction?
  grind

@[grind ←]
theorem findConstant? (candidates : List String) :
    (Rules.findConstant? candidates).Uniform names? := by
  unfold Rules.findConstant?
  grind

@[grind ←]
theorem constantFetch (node : Node) : (Rules.constantFetch node).Uniform names? := by
  unfold Rules.constantFetch
  extract_lets text last next
  have hnext : ∀ found, (next found).Uniform names? := by grind
  clear_value next
  split
  · grind
  · grind
  · grind
  · exact ofScope (fun s => by grind) fun _ => rfl

@[grind ←]
theorem variableRule (node : Node) (assigning : Option TyUnion) :
    (Rules.variableRule node assigning).Uniform names? := by
  unfold Rules.variableRule
  extract_lets name
  split
  · grind
  · refine Agree.scope.bind fun l s t _ hs => ?_
    have houtline := hs.outline
    have hpredefined : predefined? s name = predefined? t name := by
      rw [← predefined?_outline, houtline, predefined?_outline]
    have hprobing : s.probing = t.probing := congrArg (·.probing) houtline
    rw [hs.env.get?_eq, hpredefined, hprobing, hs.including_eq]
    refine agree ?_
    grind

@[grind ←]
theorem applyVarTags (doc : String) (expression : Node) (inferred : TyUnion) :
    (Rules.applyVarTags doc expression inferred).Uniform names? := by
  unfold Rules.applyVarTags
  grind

@[grind ←]
theorem checkReturn (node : Node) (ty : Option TyUnion) :
    (Rules.checkReturn node ty).Uniform names? := by
  unfold Rules.checkReturn
  refine ofScope (fun s => by grind) fun s => ?_
  unfold Scope.outline
  cases s.function <;> rfl

@[grind ←]
theorem reconcile (native documented : Option TyUnion) (node : Node) (what : String) :
    (Rules.reconcile native documented node what).Uniform names? := by
  unfold Rules.reconcile
  grind

@[grind ←]
theorem declaredType (context : TypeContext) (node : Node) (field : String)
    (documented : Option TypeExpr) (what : String) :
    (Rules.declaredType context node field documented what).Uniform names? := by
  unfold Rules.declaredType
  grind

@[grind ←]
theorem checkFallThrough (node : Node) (d : FunctionDecl) (display : String) :
    (Rules.checkFallThrough node d display).Uniform names? := by
  unfold Rules.checkFallThrough
  grind

@[grind ←]
theorem capture? (node : Node) : (Rules.capture? node).Uniform names? := by
  unfold Rules.capture?
  grind

@[grind ←]
theorem isStaticClosure (node : Node) : (Rules.isStaticClosure node).Uniform names? := by
  unfold Rules.isStaticClosure
  grind

@[grind ←]
theorem classContext (node : Node) (className : String) :
    (Rules.classContext node className).Uniform names? := by
  unfold Rules.classContext
  grind

@[grind ←]
theorem inClass {α : Type} (node : Node) (className : String) {step : Check α}
    (hstep : step.Uniform names?) : (Rules.inClass node className step).Uniform names? := by
  unfold Rules.inClass
  refine Agree.scope.bind fun l s t _ hs => (classContext node className).followed fun c => ?_
  exact (Agree.inScope (hs.classBody c) hstep.agree).bind fun _ _ _ _ hend => .pure hend.1

@[grind ←]
theorem usedTraits (item : Node) : (Rules.usedTraits item).Uniform names? := by
  unfold Rules.usedTraits
  grind

@[grind ←]
theorem documentedMembers (className : String) (node : Node) :
    (Rules.documentedMembers className node).Uniform names? := by
  unfold Rules.documentedMembers
  grind

@[grind ←]
theorem declareSkeleton (node : Node) (className : String) :
    (Rules.declareSkeleton node className).Uniform names? := by
  unfold Rules.declareSkeleton
  grind

@[grind ←]
theorem reportCollisions (node : Node) (className : String) (collisions : List TraitCollision) :
    (Rules.reportCollisions node className collisions).Uniform names? := by
  unfold Rules.reportCollisions
  grind

end Check.Uniform

/-- Control goes on where environments that are alike meet. -/
theorem Check.Agree.joinPaths {exits exits' : List Env}
    (h : List.Forall₂ (Env.Alike l) exits exits') :
    (Rules.joinPaths exits).Agree names? l .same (Rules.joinPaths exits') := by
  unfold Rules.joinPaths
  have hjoined := Env.Alike.joinAll? h
  generalize Env.joinAll? exits = joined? at hjoined ⊢
  generalize Env.joinAll? exits' = joined?' at hjoined ⊢
  cases hjoined with
  | none => exact .pure rfl
  | some h => exact .setEnv h

namespace Rules.Uniform

/-! ### Members and elements -/

@[grind ←]
theorem scopeClass? (hr : r.Uniform names?) (h : node.Keeps names?) :
    (r.scopeClass? node).Uniform names? := by
  unfold Rules.scopeClass?
  grind

@[grind ←]
theorem memberName? (hr : r.Uniform names?) (h : node.Keeps names?) :
    (r.memberName? node).Uniform names? := by
  unfold Rules.memberName?
  grind

@[grind ←]
theorem propertyAccess (hr : r.Uniform names?) (h : node.Keeps names?)
    (assigning : Option TyUnion) : (r.propertyAccess node assigning).Uniform names? := by
  unfold Rules.propertyAccess
  split
  · refine .bind (hr.expr (h.childBy? ‹_›)) fun objectTy => ?_
    refine .bind (hr.memberName? (h.childBy? ‹_›)) fun name? => ?_
    split
    · exact .bind (.foldlM _ fun _ _ _ => .accessReceiver _ _ _ _ _ _) fun _ => .pure _
    · exact .pure _
  · exact .pure _

@[grind ←]
theorem staticPropertyAccess (hr : r.Uniform names?) (h : node.Keeps names?)
    (assigning : Option TyUnion) : (r.staticPropertyAccess node assigning).Uniform names? := by
  unfold Rules.staticPropertyAccess
  split
  · have hname := h.childBy? ‹node.childBy? "name" = _›
    refine .bind (hr.scopeClass? (h.childBy? ‹_›)) fun className? => ?_
    grind
  · exact .pure _

@[grind ←]
theorem className (hr : r.Uniform names?) (h : node.Keeps names?) :
    (r.className node).Uniform names? := by
  unfold Rules.className
  refine .ite (.ofScope (fun s => .pure _) fun _ => rfl) (by grind)

@[grind ←]
theorem classConstant (hr : r.Uniform names?) (h : node.Keeps names?) :
    (r.classConstant node).Uniform names? := by
  unfold Rules.classConstant
  split
  · have hscope := h.childBy? ‹node.childBy? "scope" = _›
    extract_lets name
    refine .ite (hr.className hscope) (.bind (hr.scopeClass? hscope) fun className? => ?_)
    split
    · exact .bind .registry fun known => .ofScope (fun s => by grind) fun _ => rfl
    · exact .pure _
  · exact .pure _

@[grind ←]
theorem container? (hr : r.Uniform names?) (h : node.Keeps names?) :
    (r.container? node).Uniform names? := by
  unfold Rules.container?
  grind

@[grind ←]
theorem subscript (hr : r.Uniform names?) (h : node.Keeps names?) (assigning : Option TyUnion) :
    (r.subscript node assigning).Uniform names? := by
  unfold Rules.subscript
  grind

/-! ### Calls -/

section

variable {arguments : Option Node}

@[grind ←]
theorem checkArgument (hr : r.Uniform names?) (h : node.Keeps names?) (parameter : Param)
    (index : Nat) (function : String) :
    (r.checkArgument node parameter index function).Uniform names? := by
  unfold Rules.checkArgument
  grind

@[grind ←]
theorem passArgument (hr : r.Uniform names?) (h : node.Keeps names?) (f : Signature)
    (name : String) (p : Passed) : (r.passArgument f name p node).Uniform names? := by
  unfold Rules.passArgument
  split
  · exact .pure _
  · refine .ite (by grind) ?_
    extract_lets parameterName
    split
    extract_lets last next
    have hnext : ∀ u, (next u).Uniform names? := by grind
    clear_value next
    grind

@[grind ←]
theorem checkCall (hr : r.Uniform names?) (node : Node) (f : Signature)
    (h : ∀ list, arguments = some list → list.Keeps names?) (name : String) :
    (r.checkCall node f arguments name).Uniform names? := by
  unfold Rules.checkCall
  refine .bind (.foldlM _ fun p argument hargument => ?_) fun _ => .checkArity _ _ _ _
  cases arguments with
  | none => cases hargument
  | some list => exact hr.passArgument ((h list rfl).positional hargument) _ _ _

@[grind ←]
theorem callMember (hr : r.Uniform names?) (node : Node) (m : Resolved) (className name : String)
    (h : ∀ list, arguments = some list → list.Keeps names?) :
    (r.callMember node m className name arguments).Uniform names? := by
  unfold Rules.callMember
  grind

@[grind ←]
theorem invokeMethod (hr : r.Uniform names?) (node : Node) (className : String)
    (kind : MemberKind) (name : String)
    (h : ∀ list, arguments = some list → list.Keeps names?) :
    (r.invokeMethod node className kind name arguments).Uniform names? := by
  unfold Rules.invokeMethod
  refine .bind (.ensureClass _ _) fun known => .ite ?_ (by grind)
  refine .bind .registry fun registry => .ofScope (fun s => ?_) fun _ => rfl
  cases registry.findMember className kind name s.callingClass with
  | found m =>
    have hcall := hr.callMember node m className name h
    grind
  | inaccessible m =>
    have hcall := hr.callMember node m className name h
    grind
  | missing => grind

@[grind ←]
theorem callReceiver (hr : r.Uniform names?) (node : Node) (name : String)
    (h : ∀ list, arguments = some list → list.Keeps names?) (onlyScalars : Bool)
    (state : Bool × TyUnion) (receiver : Receiver) :
    (r.callReceiver node name arguments onlyScalars state receiver).Uniform names? := by
  unfold Rules.callReceiver
  grind


end

@[grind ←]
theorem methodCall (hr : r.Uniform names?) (h : node.Keeps names?) :
    (r.methodCall node).Uniform names? := by
  unfold Rules.methodCall
  split
  · have harguments := h.arguments
    refine .bind (hr.expr (h.childBy? ‹_›)) fun objectTy => ?_
    refine .bind (hr.memberName? (h.childBy? ‹_›)) fun name? => ?_
    cases name? with
    | some name =>
      refine .bind (.foldlM _ fun _ _ _ => hr.callReceiver _ _ harguments _ _ _) fun _ => ?_
      grind
    | none => grind
  · exact .pure _

@[grind ←]
theorem staticCall (hr : r.Uniform names?) (h : node.Keeps names?) :
    (r.staticCall node).Uniform names? := by
  unfold Rules.staticCall
  have harguments := h.arguments
  split
  · have hname := h.childBy? ‹node.childBy? "name" = _›
    refine .bind (hr.scopeClass? (h.childBy? ‹_›)) fun className? => ?_
    grind
  · exact .pure _

@[grind ←]
theorem construct (hr : r.Uniform names?) (node : Node) (className : String)
    {arguments : Option Node} (h : ∀ list, arguments = some list → list.Keeps names?) :
    (r.construct node className arguments).Uniform names? := by
  unfold Rules.construct
  refine .bind .registry fun registry => .ofScope (fun s => ?_) fun _ => rfl
  cases registry.findMember className .method "__construct" s.callingClass with
  | found m =>
    have hcall := hr.callMember node m className "__construct" h
    grind
  | inaccessible m =>
    have hcall := hr.callMember node m className "__construct" h
    grind
  | missing => exact hr.visitArguments h

@[grind ←]
theorem defineConstant (hr : r.Uniform names?) {arguments : Option Node}
    (h : ∀ list, arguments = some list → list.Keeps names?) :
    (r.defineConstant arguments).Uniform names? := by
  unfold Rules.defineConstant
  have hvalues : ∀ n ∈ ((arguments.map Node.positional).getD []).filterMap (·.childBy? "value"),
      n.Keeps names? := by
    intro n hn
    obtain ⟨argument, hargument, hvalue⟩ := List.mem_filterMap.1 hn
    cases arguments with
    | none => cases hargument
    | some list => exact ((h list rfl).positional hargument).childBy? hvalue
  split
  · rename_i nameNode value _ heq
    rw [heq] at hvalues
    have hname : nameNode.Keeps names? := hvalues _ (by simp)
    have hvalue : value.Keeps names? := hvalues _ (by simp)
    grind
  · exact .pure _

@[grind ←]
theorem dynamicCall (hr : r.Uniform names?) (node : Node) {callee : Node}
    (hcallee : callee.Keeps names?) {arguments : Option Node}
    (h : ∀ list, arguments = some list → list.Keeps names?) :
    (r.dynamicCall node callee arguments).Uniform names? := by
  unfold Rules.dynamicCall
  refine .bind (hr.expr hcallee) fun calleeTy => ?_
  extract_lets call
  have hcall : ∀ f, (call f).Uniform names? := by
    intro f
    cases f with
    | some f => exact .bind (hr.checkCall node f h _) fun _ => .pure _
    | none => exact .bind (hr.visitArguments h) fun _ => .pure _
  clear_value call
  split
  · exact hr.invokeMethod _ _ _ _ h
  · exact hcall _
  · exact .bind .registry fun _ => hcall _
  · exact hcall _

@[grind ←]
theorem functionCall (hr : r.Uniform names?) (h : node.Keeps names?) :
    (r.functionCall node).Uniform names? := by
  unfold Rules.functionCall
  have harguments := h.arguments
  split
  · exact .pure _
  · refine .ite (.ofScope (fun s => .bind (.loadFunction? _) fun found => ?_) fun _ => rfl) ?_
    · grind
    · exact hr.dynamicCall _ (h.childBy? ‹_›) harguments

/-! ### Variables, texts and arrays -/

@[grind ←]
theorem variableVariable (hr : r.Uniform names?) (h : node.Keeps names?)
    (assigning : Option TyUnion) : (r.variableVariable node assigning).Uniform names? := by
  unfold Rules.variableVariable
  grind

@[grind ←]
theorem interpolatedString (hr : r.Uniform names?) (h : node.Keeps names?) :
    (r.interpolatedString node).Uniform names? := by
  unfold Rules.interpolatedString
  grind

@[grind ←]
theorem referenceSource (hr : r.Uniform names?) (h : node.Keeps names?) :
    (r.referenceSource node).Uniform names? := by
  unfold Rules.referenceSource
  grind

@[grind ←]
theorem arrayElement (hr : r.Uniform names?) (h : node.Keeps names?) (es : Elements) :
    (r.arrayElement es node).Uniform names? := by
  unfold Rules.arrayElement
  grind

@[grind ←]
theorem destructure (hr : r.Uniform names?) (h : node.Keeps names?) (value : TyUnion) :
    (r.destructure node value).Uniform names? := by
  unfold Rules.destructure
  grind

@[grind ←]
theorem arrayLiteral (hr : r.Uniform names?) (h : node.Keeps names?)
    (assigning : Option TyUnion) : (r.arrayLiteral node assigning).Uniform names? := by
  unfold Rules.arrayLiteral
  grind

/-! ### Assignments and operators -/

@[grind ←]
theorem assignment (hr : r.Uniform names?) (h : node.Keeps names?) :
    (r.assignment node).Uniform names? := by
  unfold Rules.assignment
  grind

@[grind ←]
theorem referenceAssignment (hr : r.Uniform names?) (h : node.Keeps names?) :
    (r.referenceAssignment node).Uniform names? := by
  unfold Rules.referenceAssignment
  grind

@[grind ←]
theorem compoundAssignment (hr : r.Uniform names?) (h : node.Keeps names?) :
    (r.compoundAssignment node).Uniform names? := by
  unfold Rules.compoundAssignment
  grind

@[grind ←]
theorem updateExpression (hr : r.Uniform names?) (h : node.Keeps names?) :
    (r.updateExpression node).Uniform names? := by
  unfold Rules.updateExpression
  grind

@[grind ←]
theorem binaryExpression (hr : r.Uniform names?) (h : node.Keeps names?) :
    (r.binaryExpression node).Uniform names? := by
  unfold Rules.binaryExpression
  grind

@[grind ←]
theorem unaryExpression (hr : r.Uniform names?) (h : node.Keeps names?) :
    (r.unaryExpression node).Uniform names? := by
  unfold Rules.unaryExpression
  grind

@[grind ←]
theorem castExpression (hr : r.Uniform names?) (h : node.Keeps names?) :
    (r.castExpression node).Uniform names? := by
  unfold Rules.castExpression
  grind

@[grind ←]
theorem sameAs (hr : r.Uniform names?) (h : node.Keeps names?) (field : String) :
    (r.sameAs node field).Uniform names? := by
  unfold Rules.sameAs
  grind

/-! ### Expressions with a word of their own -/

@[grind ←]
theorem issetExpression (hr : r.Uniform names?) (h : node.Keeps names?) :
    (r.issetExpression node).Uniform names? := by
  unfold Rules.issetExpression
  grind

@[grind ←]
theorem emptyExpression (hr : r.Uniform names?) (h : node.Keeps names?) :
    (r.emptyExpression node).Uniform names? := by
  unfold Rules.emptyExpression
  grind

@[grind ←]
theorem evaluating (hr : r.Uniform names?) (h : node.Keeps names?) (ty : TyUnion) :
    (r.evaluating node ty).Uniform names? := by
  unfold Rules.evaluating
  grind

@[grind ←]
theorem leaving (hr : r.Uniform names?) (h : node.Keeps names?) :
    (r.leaving node).Uniform names? := by
  unfold Rules.leaving
  grind

@[grind ←]
theorem includeExpression (hr : r.Uniform names?) (h : node.Keeps names?) :
    (r.includeExpression node).Uniform names? := by
  unfold Rules.includeExpression
  extract_lets word isRequired once last next
  clear_value word isRequired once
  have hnext : ∀ target, (next target).Uniform names? := by
    intro target
    cases target with
    | none => exact .pure _
    | some target =>
      refine .bind (.resolveInclude? _) fun path? => ?_
      cases path? with
      | none => grind
      | some path =>
        refine .bind (.includeFile _ _) fun outcome => ?_
        cases outcome <;> grind
  clear_value next
  grind

@[grind ←]
theorem yieldExpression (hr : r.Uniform names?) (h : node.Keeps names?) :
    (r.yieldExpression node).Uniform names? := by
  unfold Rules.yieldExpression
  refine .bind (hr.exprs fun n hn => ?_) fun _ => .pure _
  obtain ⟨field, -, hfield⟩ := List.mem_filterMap.1 hn
  exact h.childBy? hfield

@[grind ←]
theorem expressionList (hr : r.Uniform names?) (h : node.Keeps names?) :
    (r.expressionList node).Uniform names? := by
  unfold Rules.expressionList
  grind

/-! ### Conditions -/

theorem connect (hr : r.Uniform names?) (c : Connective) {left right : Node}
    (hleft : left.Keeps names?) (hright : right.Keeps names?) :
    (r.connect c left right).Agree names? .blank Branches.alike (r.connect c left right) := by
  unfold Rules.connect
  refine (hr.split hleft).bind fun l₁ b b' _ hb => ?_
  rw [hb.known?_eq]
  refine .ite (fun _ => ?_) fun _ => ?_
  · refine (Agree.snapshot (hb.split.on _)).bind fun l₂ e f _ he => ?_
    exact .pure ⟨rfl, .unchanged he⟩
  · refine (Agree.setEnv (hb.split.on _)).bind fun l₂ _ _ hl₂ _ => ?_
    refine ((hr.split hright).mono l₂.blank_le).bind fun l₃ second second' hl₃ hsecond => ?_
    refine .pure ⟨?_, .combine c (hb.split.mono (hl₂.trans hl₃)) hsecond.split⟩
    dsimp only
    rw [hsecond.known?_eq]

theorem undecided (ty : TyUnion) :
    Check.Agree names? .blank Branches.alike (do return .unchanged ty (← env))
      (do return .unchanged ty (← env)) :=
  Agree.env.bind fun _ _ _ _ he => .pure ⟨rfl, .unchanged he⟩

theorem logical? (hr : r.Uniform names?) (h : node.Keeps names?) {branches : Check Branches}
    (hb : r.logical? node = some branches) :
    branches.Agree names? .blank Branches.alike branches := by
  unfold Rules.logical? at hb
  split at hb
  · split at hb
    · cases hb
      split
      · refine (hr.split (h.childBy? ‹_›)).bind fun l₁ b b' _ hb => .pure ⟨?_, hb.split.negate⟩
        dsimp only
        rw [hb.known?_eq]
      · exact undecided _
    · cases hb
  · split at hb
    · cases hb
      split
      · exact hr.connect _ (h.childBy? ‹_›) (h.childBy? ‹_›)
      · exact undecided _
    · cases hb
  · cases hb

theorem splitNode (hr : r.Uniform names?) {visit : Node → Check Inferred}
    (hvisit : (visit node).Uniform names?) (h : node.Keeps names?) :
    (r.splitNode visit node).Agree names? .blank Branches.alike (r.splitNode visit node) := by
  unfold Rules.splitNode
  split
  · exact hr.logical? h ‹_›
  · refine .ite (fun _ => undecided _) fun _ => ?_
    refine hvisit.followed fun result => Check.Uniform.hierarchy.followed fun known => ?_
    refine Agree.ofScope (fun s => ?_) fun _ => rfl
    exact Agree.env.bind fun _ _ _ _ he => .pure ⟨rfl, he.splitBy known s node⟩

/-! ### Paths through expressions -/

/-- Ways that are taken in both runs have the same types, and end in environments that are
alike. -/
abbrev ways : Likeness (List (TyUnion × Env)) := (Likeness.same.prod Env.alike).list

theorem way {m : Check TyUnion} (hm : m.Uniform names?) (taken : Bool) {e f : Env}
    (he : e.Alike l f) : (Check.way taken e m).Agree names? l ways (Check.way taken f m) := by
  unfold Check.way
  refine .ite (fun _ => ?_) fun _ => .pure .nil
  refine (Agree.setEnv he).bind fun _ _ _ _ _ => hm.followed fun ty => ?_
  exact Agree.env.bind fun _ _ _ _ he => .pure (.cons ⟨rfl, he⟩ .nil)

section

variable {taken taken' : List (TyUnion × Env)}

theorem union_ways_eq (h : ways.rel l taken taken') (ty : TyUnion) :
    taken.foldl (fun result way => result.union way.1) ty =
      taken'.foldl (fun result way => result.union way.1) ty := by
  induction h generalizing ty with
  | nil => rfl
  | cons hfirst _ ih => rw [List.foldl_cons, List.foldl_cons, hfirst.1, ih]

theorem ends_of_ways (h : ways.rel l taken taken') :
    List.Forall₂ (Env.Alike l) (taken.map (·.2)) (taken'.map (·.2)) :=
  List.forall₂_map_left_iff.2 (List.forall₂_map_right_iff.2 (h.imp fun _ _ hway => hway.2))

theorem meet (h : ways.rel l taken taken') :
    (Check.meet taken).Agree names? l .same (Check.meet taken') := by
  unfold Check.meet
  rw [union_ways_eq h]
  exact (Check.Agree.joinPaths (ends_of_ways h)).bind fun _ _ _ _ _ => .pure rfl

end

theorem consequence (hr : r.Uniform names?) (h : node.Keeps names?) (ty : TyUnion) :
    (r.consequence node ty).Uniform names? := by
  unfold Rules.consequence
  grind

@[grind ←]
theorem ternaryExpression (hr : r.Uniform names?) (h : node.Keeps names?) :
    (r.ternaryExpression node).Uniform names? := by
  cases htest : node.childBy? "condition" with
  | none =>
    unfold Rules.ternaryExpression
    rw [htest]
    exact .pure _
  | some test =>
    cases halternative : node.childBy? "alternative" with
    | none =>
      unfold Rules.ternaryExpression
      rw [htest, halternative]
      exact .pure _
    | some alternative =>
      rw [ternaryExpression_eq htest halternative]
      refine (hr.condition (h.childBy? htest)).bind fun l₁ b b' _ hb => ?_
      rw [hb.known?_eq, hb.ty]
      refine (way (hr.consequence h _) _ hb.split.yes).bind fun l₂ yes yes' hl₂ hyes => ?_
      refine (way (hr.expr (h.childBy? halternative)) _ (hb.split.no.mono hl₂)).bind
        fun l₃ no no' hl₃ hno => meet ?_
      exact List.rel_append (ways.mono hl₃ hyes) hno

theorem matchArm (hr : r.Uniform names?) (h : node.Keeps names?) {entry entry' : Env}
    (hentry : entry.Alike l entry') :
    (r.matchArm entry node).Agree names? l ways (r.matchArm entry' node) := by
  unfold Rules.matchArm
  refine (Agree.setEnv hentry).bind fun _ _ _ _ _ => ?_
  refine (hr.exprs fun n hn => h.childrenBy hn).followed fun _ => ?_
  split
  · refine (hr.visit (h.childBy? ‹_›)).followed fun result => ?_
    refine .ite (fun _ => ?_) fun _ => .pure .nil
    exact Agree.env.bind fun _ _ _ _ he => .pure (.cons ⟨rfl, he⟩ .nil)
  · exact .pure .nil

@[grind ←]
theorem matchExpression (hr : r.Uniform names?) (h : node.Keeps names?) :
    (r.matchExpression node).Uniform names? := by
  unfold Rules.matchExpression
  refine (hr.exprBy? h _).followed fun _ => Agree.env.bind fun l₁ entry entry' _ hentry => ?_
  refine (Agree.mapM fun l' arm harm hl' =>
    hr.matchArm (h.childrenBy harm) (hentry.mono hl')).bind fun l₂ arms arms' hl₂ harms => ?_
  have hpaths : ways.rel l₂ arms.flatten arms'.flatten := List.rel_flatten harms
  have hjoined : ((Env.joinAll? (arms.flatten.map (·.2))).getD entry).Alike l₂
      ((Env.joinAll? (arms'.flatten.map (·.2))).getD entry') := by
    have hjoined := Env.Alike.joinAll? (ends_of_ways hpaths)
    generalize Env.joinAll? (arms.flatten.map (·.2)) = joined? at hjoined ⊢
    generalize Env.joinAll? (arms'.flatten.map (·.2)) = joined?' at hjoined ⊢
    cases hjoined with
    | none => exact hentry.mono hl₂
    | some h => exact h
  refine (Agree.setEnv hjoined).bind fun _ _ _ _ _ => .pure ?_
  exact union_ways_eq hpaths _

end Rules.Uniform

end PhpCheck
