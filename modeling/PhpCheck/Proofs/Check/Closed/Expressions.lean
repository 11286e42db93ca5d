import PhpCheck.Proofs.Check.Blind

/-!
Expressions without variables.

An expression is closed if no variable stands in it, but for the bodies of the functions
and classes in it, and nothing is captured by a function in it (`Node.Closed`).  Checking
such an expression is a blind step, rule by rule.
-/

namespace PhpCheck

open Check

/-! ### Closed expressions -/

/-- Nodes that are checked as statements. -/
def NodeKind.isStatement (kind : NodeKind) : Bool :=
  [sourceFile, block, inlineHtml, emptyStatement, labelStatement, echoStatement,
    expressionStatement, ifStatement, whileStatement, doWhileStatement, forStatement,
    foreachStatement, switchStatement, breakStatement, continueStatement, returnStatement,
    tryStatement, gotoStatement, declareStatement, namespaceDefinition, useDeclaration,
    globalDeclaration, staticDeclaration, unsetStatement, constDeclaration, functionDefinition,
    classDeclaration, interfaceDeclaration, traitDeclaration].contains kind

def NodeKind.isVariable (kind : NodeKind) : Bool := [variableName, variableVariable].contains kind

/-- A part that is checked in a scope of its own: the body of a function or a class.  The
arm of a `match` is no such function, whatever its kind. -/
def Node.encloses (node child : Node) : Bool :=
  [NodeKind.anonymousFunction, .anonymousClass].contains node.kind && child.field == some "body" &&
    node.field != some "arm"

/-- What a function captures. -/
def Node.captures (node : Node) : List Node := ((node.childBy? "uses").map positional).getD []

/-- An expression without variables, outside the bodies of the functions and classes in
it, where no function captures anything. -/
inductive Node.Closed : Node → Prop
  | of {node : Node} (expression : node.kind.isStatement = false)
      (constant : node.kind.isVariable = false)
      (lonely : node.kind = .anonymousFunction → node.captures = [])
      (parts : ∀ child ∈ node.children, node.encloses child = false → child.Closed) : node.Closed

namespace Node.Closed

variable {node child : Node} {field : String}

theorem expression (h : node.Closed) : node.kind.isStatement = false := by
  cases h; assumption

theorem constant (h : node.Closed) : node.kind.isVariable = false := by
  cases h; assumption

theorem parts (h : node.Closed) (hchild : child ∈ node.children)
    (hopen : node.encloses child = false) : child.Closed := by
  obtain ⟨-, -, -, hparts⟩ := h
  exact hparts child hchild hopen

theorem captures_eq (h : node.Closed) (hkind : node.kind = .anonymousFunction) :
    node.captures = [] := by
  obtain ⟨-, -, hlonely, -⟩ := h
  exact hlonely hkind

@[grind →]
theorem kind_ne_variableName (h : node.Closed) : node.kind ≠ .variableName := by
  intro hkind
  have hconstant := h.constant
  rw [hkind] at hconstant
  cases hconstant

theorem encloses_field (hfield : child.field ≠ some "body") : node.encloses child = false := by
  have hbody : (child.field == some "body") = false := beq_eq_false_iff_ne.2 hfield
  rw [encloses, hbody, Bool.and_false, Bool.false_and]

theorem positional (h : node.Closed) (hchild : child ∈ node.positional) : child.Closed := by
  obtain ⟨hmem, hfield⟩ := List.mem_filter.1 hchild
  rw [Option.isNone_iff_eq_none] at hfield
  exact h.parts hmem (encloses_field (by rw [hfield]; exact nofun))

theorem field_childBy? (hchild : node.childBy? field = some child) : child.field = some field :=
  beq_iff_eq.1 (List.find?_some (p := fun n : Node => n.field == some field) hchild)

theorem childBy? (h : node.Closed) (hchild : node.childBy? field = some child)
    (hfield : field ≠ "body") : child.Closed := by
  refine h.parts (List.mem_of_find?_eq_some hchild) (encloses_field ?_)
  rw [field_childBy? hchild]
  exact fun heq => hfield (Option.some.inj heq)

theorem field_childrenBy (hchild : child ∈ node.childrenBy field) : child.field = some field :=
  beq_iff_eq.1 (List.mem_filter.1 hchild).2

theorem childrenBy (h : node.Closed) (hchild : child ∈ node.childrenBy field)
    (hfield : field ≠ "body") : child.Closed := by
  refine h.parts (List.mem_filter.1 hchild).1 (encloses_field ?_)
  rw [field_childrenBy hchild]
  exact fun heq => hfield (Option.some.inj heq)

/-- The parts of a list in a role. -/
theorem listed (h : node.Closed) (hfield : field ≠ "body")
    (hchild : child ∈ ((node.childBy? field).map Node.positional).getD []) : child.Closed := by
  cases hlist : node.childBy? field with
  | none =>
    rw [hlist] at hchild
    cases hchild
  | some list =>
    rw [hlist] at hchild
    exact (h.childBy? hlist hfield).positional hchild

theorem arguments (h : node.Closed) :
    ∀ list, node.childBy? "arguments" = some list → list.Closed :=
  fun _ hlist => h.childBy? hlist (by decide)

/-- The body of a function or a class that is not enclosed. -/
theorem body (h : node.Closed) (hchild : node.childBy? "body" = some child)
    (hkind : [NodeKind.anonymousFunction, .anonymousClass].contains node.kind = false ∨
      node.field = some "arm") : child.Closed := by
  refine h.parts (List.mem_of_find?_eq_some hchild) ?_
  rw [encloses]
  rcases hkind with hkind | hfield
  · rw [hkind, Bool.false_and, Bool.false_and]
  · rw [hfield, bne_self_eq_false, Bool.and_false]

end Node.Closed

/-- Rules under which checking a closed expression is a blind step. -/
structure Rules.Blind (r : Rules) (setting : Setting) : Prop where
  visit : ∀ {node : Node}, node.Closed → (r.visit node).Blind setting
  split : ∀ {node : Node}, node.Closed → (r.split node).Takes setting Branches.unchanged

section

variable {r : Rules} {setting : Setting} {node : Node}

namespace Rules.Blind

/-! ### Parts -/

@[grind ←]
theorem expr (hr : r.Blind setting) (h : node.Closed) : (r.expr node).Blind setting :=
  .bind (hr.visit h) fun _ => .pure _

@[grind ←]
theorem exprs (hr : r.Blind setting) {nodes : List Node} (h : ∀ n ∈ nodes, n.Closed) :
    (r.exprs nodes).Blind setting :=
  .forM fun n hn => .bind (hr.expr (h n hn)) fun _ => .pure _

theorem expr? (hr : r.Blind setting) {node? : Option Node} (h : ∀ n, node? = some n → n.Closed) :
    (r.expr? node?).Blind setting := by
  cases node? with
  | none => exact .pure _
  | some n => exact .bind (hr.expr (h n rfl)) fun _ => .pure _

@[grind ←]
theorem exprBy? (hr : r.Blind setting) (h : node.Closed) {field : String}
    (hfield : field ≠ "body") :
    (r.expr? (node.childBy? field)).Blind setting :=
  hr.expr? fun _ hchild => h.childBy? hchild hfield

@[grind ←]
theorem assign (hr : r.Blind setting) (h : node.Closed) (value : TyUnion) :
    (r.assign node value).Blind setting :=
  .bind (.whileAssigning value (hr.visit h)) fun _ => .pure _

@[grind ←]
theorem probe (hr : r.Blind setting) (h : node.Closed) : (r.probe node).Blind setting :=
  .whileProbing (hr.expr h)

theorem condition (hr : r.Blind setting) (h : node.Closed) :
    (r.condition node).Takes setting Branches.unchanged := by
  refine (hr.split h).bind fun ty => ?_
  refine .bind (.setEnv fun e he => Env.merge_self he) fun _ => ?_
  exact .pure ty fun _ _ => rfl

@[grind ←]
theorem visitArguments (hr : r.Blind setting) {arguments : Option Node}
    (h : ∀ list, arguments = some list → list.Closed) :
    (r.visitArguments arguments).Blind setting := by
  refine hr.exprs fun n hn => ?_
  obtain ⟨argument, hargument, hvalue⟩ := List.mem_filterMap.1 hn
  cases arguments with
  | none => cases hargument
  | some list => exact ((h list rfl).positional hargument).childBy? hvalue (by decide)

end Rules.Blind

/-! ### Classes and values -/

namespace Check.Blind

@[grind ←]
theorem classReference (name : String) : (Check.classReference name).Blind setting :=
  ofScope (fun _ => pure _) fun _ _ => rfl

@[grind ←]
theorem ensureClass (name : String) (node : Node) :
    (Check.ensureClass name node).Blind setting := by
  unfold Check.ensureClass
  grind

@[grind ←]
theorem knownClass? (name : String) (node : Node) :
    (Check.knownClass? name node).Blind setting := by
  unfold Check.knownClass?
  grind

@[grind ←]
theorem accepts (value expected : TyUnion) : (Check.accepts value expected).Blind setting := by
  unfold Check.accepts
  grind

@[grind ←]
theorem accessMember (node : Node) (className : String) (kind : MemberKind) (name : String)
    (assigning : Option TyUnion) :
    (Check.accessMember node className kind name assigning).Blind setting := by
  unfold Check.accessMember
  refine ofScope (fun s => ?_) fun _ _ => rfl
  refine bind registry fun known => ?_
  extract_lets next
  have hnext : ∀ found, (next found).Blind setting := by grind
  clear_value next
  grind

@[grind ←]
theorem accessReceiver (node : Node) (name : String) (assigning : Option TyUnion)
    (onlyScalars : Bool) (result : TyUnion) (receiver : Receiver) :
    (Check.accessReceiver node name assigning onlyScalars result receiver).Blind setting := by
  unfold Check.accessReceiver
  grind

@[grind ←]
theorem checkCallback (node : Node) (ty : TyUnion) :
    (Rules.checkCallback node ty).Blind setting := by
  unfold Rules.checkCallback
  grind

@[grind ←]
theorem checkArity (node : Node) (f : Signature) (name : String) (p : Rules.Passed) :
    (Rules.checkArity node f name p).Blind setting := by
  unfold Rules.checkArity
  grind

@[grind ←]
theorem findFunction? (candidates : List String) :
    (Rules.findFunction? candidates).Blind setting := by
  unfold Rules.findFunction?
  grind

@[grind ←]
theorem loadFunction? (candidates : List String) :
    (Rules.loadFunction? candidates).Blind setting := by
  unfold Rules.loadFunction?
  grind

@[grind ←]
theorem findConstant? (candidates : List String) :
    (Rules.findConstant? candidates).Blind setting := by
  unfold Rules.findConstant?
  grind

@[grind ←]
theorem constantFetch (node : Node) : (Rules.constantFetch node).Blind setting := by
  unfold Rules.constantFetch
  extract_lets text last next
  have hnext : ∀ found, (next found).Blind setting := by grind
  clear_value next
  split
  · exact pure _
  · exact pure _
  · exact pure _
  · refine ofScope (fun s => bind (findConstant? _) fun found => ?_) fun _ _ => rfl
    grind

end Check.Blind

namespace Rules.Blind

@[grind ←]
theorem scopeClass? (hr : r.Blind setting) (h : node.Closed) :
    (r.scopeClass? node).Blind setting := by
  unfold Rules.scopeClass?
  refine .ite (.ofScope (fun s => ?_) fun _ _ => rfl) ?_
  · grind
  · grind

@[grind ←]
theorem memberName? (hr : r.Blind setting) (h : node.Closed) :
    (r.memberName? node).Blind setting := by
  unfold Rules.memberName?
  grind

/-! ### Texts, arrays and assignments -/

@[grind ←]
theorem interpolatedString (hr : r.Blind setting) (h : node.Closed) :
    (r.interpolatedString node).Blind setting := by
  unfold Rules.interpolatedString
  refine .bind (.mapM fun part hpart => ?_) fun _ => .pure _
  have hpart := h.positional hpart
  grind

@[grind ←]
theorem referenceSource (hr : r.Blind setting) (h : node.Closed) :
    (r.referenceSource node).Blind setting := by
  unfold Rules.referenceSource
  grind

theorem arrayElement (hr : r.Blind setting) (h : node.Closed) (es : Elements) :
    (r.arrayElement es node).Blind setting := by
  unfold Rules.arrayElement
  refine .bind (hr.exprBy? h (by decide)) fun key => ?_
  extract_lets keyed
  split
  · exact .pure _
  · have hvalue := h.childBy? ‹_› (by decide)
    grind

theorem destructure (hr : r.Blind setting) (h : node.Closed) (value : TyUnion) :
    (r.destructure node value).Blind setting := by
  unfold Rules.destructure
  refine .forM fun element helement => ?_
  have helement := h.positional helement
  refine .bind (hr.exprBy? helement (by decide)) fun _ => ?_
  split
  · exact .bind (hr.assign (helement.childBy? ‹_› (by decide)) _) fun _ => .pure _
  · exact .pure _

@[grind ←]
theorem arrayLiteral (hr : r.Blind setting) (h : node.Closed) (assigning : Option TyUnion) :
    (r.arrayLiteral node assigning).Blind setting := by
  unfold Rules.arrayLiteral
  split
  · exact .bind (hr.destructure h _) fun _ => .pure _
  · refine .bind (.foldlM _ fun es element helement => ?_) fun _ => .pure _
    exact hr.arrayElement (h.positional helement) es

@[grind ←]
theorem assignment (hr : r.Blind setting) (h : node.Closed) :
    (r.assignment node).Blind setting := by
  unfold Rules.assignment
  split
  · rename_i left right hleft hright
    have hleft := h.childBy? hleft (by decide)
    have hright := h.childBy? hright (by decide)
    grind
  · exact .pure _


@[grind ←]
theorem referenceAssignment (hr : r.Blind setting) (h : node.Closed) :
    (r.referenceAssignment node).Blind setting := by
  unfold Rules.referenceAssignment
  split
  · rename_i left right hleft hright
    have hleft := h.childBy? hleft (by decide)
    have hright := h.childBy? hright (by decide)
    grind
  · exact .pure _

@[grind ←]
theorem compoundAssignment (hr : r.Blind setting) (h : node.Closed) :
    (r.compoundAssignment node).Blind setting := by
  unfold Rules.compoundAssignment
  split
  · rename_i left right hleft hright
    have hleft := h.childBy? hleft (by decide)
    have hright := h.childBy? hright (by decide)
    grind
  · exact .pure _

@[grind ←]
theorem updateExpression (hr : r.Blind setting) (h : node.Closed) :
    (r.updateExpression node).Blind setting := by
  unfold Rules.updateExpression
  split
  · rename_i operand hoperand
    have hoperand := h.childBy? hoperand (by decide)
    grind
  · exact .pure _

/-! ### Operators and words -/

@[grind ←]
theorem binaryExpression (hr : r.Blind setting) (h : node.Closed) :
    (r.binaryExpression node).Blind setting := by
  unfold Rules.binaryExpression
  split
  · rename_i left right hleft hright
    have hleft := h.childBy? hleft (by decide)
    have hright := h.childBy? hright (by decide)
    grind
  · exact .pure _

@[grind ←]
theorem unaryExpression (hr : r.Blind setting) (h : node.Closed) :
    (r.unaryExpression node).Blind setting := by
  unfold Rules.unaryExpression
  split
  · exact .bind (hr.expr (h.childBy? ‹_› (by decide))) fun _ => .pure _
  · exact .pure _

@[grind ←]
theorem castExpression (hr : r.Blind setting) (h : node.Closed) :
    (r.castExpression node).Blind setting :=
  .bind (hr.exprBy? h (by decide)) fun _ => .pure _

@[grind ←]
theorem sameAs (hr : r.Blind setting) (h : node.Closed) {field : String} (hfield : field ≠ "body") :
    (r.sameAs node field).Blind setting :=
  .bind (hr.exprBy? h hfield) fun _ => .pure _

@[grind ←]
theorem issetExpression (hr : r.Blind setting) (h : node.Closed) :
    (r.issetExpression node).Blind setting :=
  .bind (.forM fun _ htarget => .bind (hr.probe (h.positional htarget)) fun _ => .pure _)
    fun _ => .pure _

@[grind ←]
theorem emptyExpression (hr : r.Blind setting) (h : node.Closed) :
    (r.emptyExpression node).Blind setting := by
  unfold Rules.emptyExpression
  split
  · exact .bind (hr.probe (h.childBy? ‹_› (by decide))) fun _ => .pure _
  · exact .pure _

@[grind ←]
theorem evaluating (hr : r.Blind setting) (h : node.Closed) (ty : TyUnion) :
    (r.evaluating node ty).Blind setting :=
  .bind (hr.exprBy? h (by decide)) fun _ => .pure _

@[grind ←]
theorem leaving (hr : r.Blind setting) (h : node.Closed) : (r.leaving node).Blind setting :=
  .bind (hr.exprBy? h (by decide)) fun _ => .pure _

@[grind ←]
theorem includeExpression (hr : r.Blind setting) (h : node.Closed) :
    (r.includeExpression node).Blind setting := by
  unfold Rules.includeExpression
  extract_lets word isRequired once last next
  clear_value word isRequired once
  have hnext : ∀ target, (next target).Blind setting := by
    intro target
    cases target with
    | none => exact .pure _
    | some target =>
      refine .bind (.resolveInclude? _) fun path? => ?_
      cases path? with
      | none => grind
      | some path =>
        refine .bind (.includeFile _ _) fun outcome => ?_
        cases outcome <;> grind
  clear_value next
  split
  · exact .bind (hr.expr (h.childBy? ‹_› (by decide))) fun _ => .bind (.pure _) hnext
  · exact .bind (.pure _) hnext

@[grind ←]
theorem yieldExpression (hr : r.Blind setting) (h : node.Closed) :
    (r.yieldExpression node).Blind setting := by
  refine .bind (hr.exprs fun n hn => ?_) fun _ => .pure _
  obtain ⟨field, hfield, hchild⟩ := List.mem_filterMap.1 hn
  refine h.childBy? hchild ?_
  rintro rfl
  exact absurd hfield (by decide)

@[grind ←]
theorem expressionList (hr : r.Blind setting) (h : node.Closed) :
    (r.expressionList node).Blind setting :=
  .foldlM _ fun _ _ hexpression => hr.expr (h.positional hexpression)

/-! ### Members and elements -/

@[grind ←]
theorem propertyAccess (hr : r.Blind setting) (h : node.Closed) (assigning : Option TyUnion) :
    (r.propertyAccess node assigning).Blind setting := by
  unfold Rules.propertyAccess
  split
  · rename_i object nameNode hobject hname
    have hobject := h.childBy? hobject (by decide)
    have hname := h.childBy? hname (by decide)
    refine .bind (hr.expr hobject) fun objectTy => .bind (hr.memberName? hname) fun name? => ?_
    split
    · exact .bind (.foldlM _ fun _ _ _ => .accessReceiver _ _ _ _ _ _) fun _ => .pure _
    · exact .pure _
  · exact .pure _

@[grind ←]
theorem staticPropertyAccess (hr : r.Blind setting) (h : node.Closed)
    (assigning : Option TyUnion) : (r.staticPropertyAccess node assigning).Blind setting := by
  unfold Rules.staticPropertyAccess
  split
  · rename_i scopeNode nameNode hscope hname
    have hscope := h.childBy? hscope (by decide)
    have hname := h.childBy? hname (by decide)
    refine .bind (hr.scopeClass? hscope) fun className? => ?_
    grind
  · exact .pure _

@[grind ←]
theorem className (hr : r.Blind setting) (h : node.Closed) : (r.className node).Blind setting := by
  unfold Rules.className
  refine .ite (.ofScope (fun _ => .pure _) fun _ _ => rfl) ?_
  exact .bind (hr.expr h) fun _ => .pure _

@[grind ←]
theorem classConstant (hr : r.Blind setting) (h : node.Closed) :
    (r.classConstant node).Blind setting := by
  unfold Rules.classConstant
  split
  · rename_i scopeNode nameNode hscope hname
    have hscope := h.childBy? hscope (by decide)
    extract_lets name
    refine .ite (hr.className hscope) (.bind (hr.scopeClass? hscope) fun className? => ?_)
    split
    · refine .bind .registry fun known => .ofScope (fun s => ?_) fun _ _ => rfl
      grind
    · exact .pure _
  · exact .pure _

@[grind ←]
theorem container? (hr : r.Blind setting) (h : node.Closed) :
    (r.container? node).Blind setting := by
  unfold Rules.container?
  grind

@[grind ←]
theorem subscript (hr : r.Blind setting) (h : node.Closed) (assigning : Option TyUnion) :
    (r.subscript node assigning).Blind setting := by
  unfold Rules.subscript
  split
  · exact .pure _
  · rename_i object hobject
    have hobject := h.childBy? hobject (by decide)
    grind
  · rename_i object value hobject
    have hobject := h.childBy? hobject (by decide)
    grind


/-! ### Calls -/

theorem checkArgument (hr : r.Blind setting) (h : node.Closed) (parameter : Param) (index : Nat)
    (function : String) : (r.checkArgument node parameter index function).Blind setting := by
  unfold Rules.checkArgument
  refine .ite ?_ ?_
  · rw [if_neg (by simp [h.kind_ne_variableName])]
    exact .bind (hr.probe h) fun _ => hr.assign h _
  · grind

theorem passArgument (hr : r.Blind setting) (h : node.Closed) (f : Signature) (name : String)
    (p : Passed) : (r.passArgument f name p node).Blind setting := by
  unfold Rules.passArgument
  split
  · exact .pure _
  · rename_i value hvalue
    have hvalue := h.childBy? hvalue (by decide)
    refine .ite (by grind) ?_
    extract_lets parameterName
    split
    extract_lets last next
    have hnext : ∀ u, (next u).Blind setting := by
      intro u
      have hargument := hr.checkArgument hvalue
      grind
    clear_value next
    grind

variable {arguments : Option Node}

@[grind ←]
theorem checkCall (hr : r.Blind setting) (h : ∀ list, arguments = some list → list.Closed)
    (node : Node) (f : Signature) (name : String) :
    (r.checkCall node f arguments name).Blind setting := by
  refine .bind (.foldlM _ fun p argument hargument => ?_) fun _ => .checkArity _ _ _ _
  cases arguments with
  | none => cases hargument
  | some list => exact hr.passArgument ((h list rfl).positional hargument) f name p

@[grind ←]
theorem callMember (hr : r.Blind setting) (h : ∀ list, arguments = some list → list.Closed)
    (node : Node) (m : Resolved) (className name : String) :
    (r.callMember node m className name arguments).Blind setting := by
  unfold Rules.callMember
  grind

@[grind ←]
theorem invokeMethod (hr : r.Blind setting) (h : ∀ list, arguments = some list → list.Closed)
    (node : Node) (className : String) (kind : MemberKind) (name : String) :
    (r.invokeMethod node className kind name arguments).Blind setting := by
  unfold Rules.invokeMethod
  refine .bind (.ensureClass _ _) fun known => .ite ?_ (by grind)
  refine .bind .registry fun registry => .ofScope (fun s => ?_) fun _ _ => rfl
  have hcall := hr.callMember h node
  grind

@[grind ←]
theorem callReceiver (hr : r.Blind setting) (h : ∀ list, arguments = some list → list.Closed)
    (node : Node) (name : String) (onlyScalars : Bool) (state : Bool × TyUnion)
    (receiver : Receiver) :
    (r.callReceiver node name arguments onlyScalars state receiver).Blind setting := by
  unfold Rules.callReceiver
  grind

@[grind ←]
theorem methodCall (hr : r.Blind setting) (h : node.Closed) :
    (r.methodCall node).Blind setting := by
  unfold Rules.methodCall
  split
  · rename_i object nameNode hobject hname
    have hobject := h.childBy? hobject (by decide)
    have hname := h.childBy? hname (by decide)
    have harguments := h.arguments
    refine .bind (hr.expr hobject) fun objectTy => .bind (hr.memberName? hname) fun name? => ?_
    cases name? with
    | some name =>
      refine .bind (.foldlM _ fun _ _ _ => hr.callReceiver harguments _ _ _ _ _) fun _ => ?_
      grind
    | none => grind
  · exact .pure _

@[grind ←]
theorem staticCall (hr : r.Blind setting) (h : node.Closed) :
    (r.staticCall node).Blind setting := by
  unfold Rules.staticCall
  split
  · rename_i scopeNode nameNode hscope hname
    have hscope := h.childBy? hscope (by decide)
    have hname := h.childBy? hname (by decide)
    have harguments := h.arguments
    grind
  · exact .pure _

@[grind ←]
theorem construct (hr : r.Blind setting) (h : ∀ list, arguments = some list → list.Closed)
    (node : Node) (className : String) : (r.construct node className arguments).Blind setting := by
  unfold Rules.construct
  refine .bind .registry fun registry => .ofScope (fun s => ?_) fun _ _ => rfl
  have hcall := hr.callMember h node
  grind

theorem defineConstant (hr : r.Blind setting) (h : ∀ list, arguments = some list → list.Closed) :
    (r.defineConstant arguments).Blind setting := by
  have hvalues : ∀ n ∈ ((arguments.map Node.positional).getD []).filterMap (·.childBy? "value"),
      n.Closed := by
    intro n hn
    obtain ⟨argument, hargument, hvalue⟩ := List.mem_filterMap.1 hn
    cases arguments with
    | none => cases hargument
    | some list => exact ((h list rfl).positional hargument).childBy? hvalue (by decide)
  unfold Rules.defineConstant
  split
  · rename_i nameNode value rest heq
    rw [heq] at hvalues
    have hname := hvalues nameNode (by simp)
    have hvalue := hvalues value (by simp)
    grind
  · exact .pure _

theorem dynamicCall (hr : r.Blind setting) {callee : Node} (hcallee : callee.Closed)
    (h : ∀ list, arguments = some list → list.Closed) (node : Node) :
    (r.dynamicCall node callee arguments).Blind setting := by
  unfold Rules.dynamicCall
  refine .bind (hr.expr hcallee) fun calleeTy => ?_
  extract_lets call
  have hcall : ∀ f, (call f).Blind setting := by grind
  clear_value call
  grind

@[grind ←]
theorem functionCall (hr : r.Blind setting) (h : node.Closed) :
    (r.functionCall node).Blind setting := by
  unfold Rules.functionCall
  split
  · exact .pure _
  · rename_i callee hcallee
    have hcallee := h.childBy? hcallee (by decide)
    have hdefine := hr.defineConstant h.arguments
    have hcall := hr.checkCall h.arguments
    have hvisit := hr.visitArguments h.arguments
    refine .ite (.ofScope (fun s => .bind (.loadFunction? _) fun found => ?_) fun _ _ => rfl)
      (hr.dynamicCall hcallee h.arguments node)
    grind

end Rules.Blind

end

end PhpCheck
