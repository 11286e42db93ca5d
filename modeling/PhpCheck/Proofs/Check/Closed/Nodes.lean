import PhpCheck.Proofs.Check.Closed.Expressions
import PhpCheck.Proofs.Check.Paths

/-!
Conditions, functions and classes without variables.

Behind a closed condition, both outcomes have the same snapshot, so ways through a closed
choice meet in it.  With that, checking any closed expression is a blind step
(`Rules.blind_below`).
-/

namespace PhpCheck

open Check

section

variable {r : Rules} {setting : Setting} {node : Node}

/-! ### Conditions -/

theorem Node.Closed.variableBy? (h : node.Closed) {field : String} (hfield : field ≠ "body") :
    node.variableBy? field = none := by
  unfold Node.variableBy?
  cases hchild : node.childBy? field with
  | none => rfl
  | some child =>
    have hkind := (h.childBy? hchild hfield).kind_ne_variableName
    simp [Option.filter, hkind]

theorem Node.Closed.firstVariable? (h : node.Closed) : node.firstVariable? = none := by
  unfold Node.firstVariable?
  cases hlist : node.childBy? "arguments" with
  | none => rfl
  | some list =>
    cases hfirst : list.positional.head? with
    | none => simp [hfirst]
    | some first =>
      have hclosed := (h.childBy? hlist (by decide)).positional (List.mem_of_head? hfirst)
      simp [hfirst, hclosed.variableBy?]

theorem Node.Closed.comparisonTest? (h : node.Closed) : comparisonTest? node = none := by
  unfold PhpCheck.comparisonTest?
  cases node.fieldText? "operator" with
  | none => rfl
  | some operator =>
    rw [Option.bind_eq_bind, Option.bind_some]
    extract_lets compare
    have hcompare : ∀ sort, compare sort = none := by
      intro sort
      show (node.childBy? "left" >>= fun left => node.childBy? "right" >>= fun right => _) = none
      cases hleft : node.childBy? "left" with
      | none => rfl
      | some left =>
        cases hright : node.childBy? "right" with
        | none => rfl
        | some right =>
          have hleft := (h.childBy? hleft (by decide)).kind_ne_variableName
          have hright := (h.childBy? hright (by decide)).kind_ne_variableName
          simp [hleft, hright]
    clear_value compare
    split <;> simp [hcompare]

/-- Closed expressions test no variables. -/
theorem Node.Closed.variableTest? (h : node.Closed) (s : Scope) : variableTest? s node = none := by
  have hcomparison := h.comparisonTest?
  have hfirst := h.firstVariable?
  have hleft := h.variableBy? (show "left" ≠ "body" by decide)
  have hvalue := h.variableBy? (show "value" ≠ "body" by decide)
  unfold PhpCheck.variableTest?
  split
  · exact absurd ‹_› h.kind_ne_variableName
  · simp [hleft]
  · simp [hfirst]
  · simp [hvalue]
  · simp [hleft, hcomparison]
  · rfl

theorem Node.Closed.splitBy (h : node.Closed) (hi : Hierarchy) (s : Scope) (e : Env) :
    splitBy hi s e node = .unchanged e := by
  have htargets : ∀ target ∈ node.positional, target.kind ≠ .variableName :=
    fun target htarget => (h.positional htarget).kind_ne_variableName
  unfold PhpCheck.splitBy
  rw [h.variableTest?]
  split
  · generalize node.positional = targets at htargets
    induction targets with
    | nil => rfl
    | cons target rest ih =>
      have hkind := htargets target List.mem_cons_self
      rw [List.foldl_cons, if_neg (by simpa using hkind)]
      exact ih fun t ht => htargets t (List.mem_cons_of_mem _ ht)
  · rfl

namespace Rules.Blind

/-- The second operand is checked from the snapshot in which the first one ends. -/
theorem connect (hr : r.Blind setting) {left right : Node} (hleft : left.Closed)
    (hright : right.Closed) (connective : Connective) :
    (r.connect connective left right).Takes setting Branches.unchanged := by
  have hunchanged : ∀ (outcome : Bool) (e : Env), (Split.unchanged e).on outcome = e :=
    fun outcome e => by cases outcome <;> rfl
  refine (hr.split hleft).bind fun ty => ?_
  by_cases hknown : (Branches.unchanged ty .empty).known? = some connective.decisive
  · have hsame : ∀ e, (Branches.unchanged ty e).known? = some connective.decisive := fun e => hknown
    simp only [hsame, if_true]
    refine .bind (.snapshot fun e _ => hunchanged _ e) fun _ => ?_
    exact .pure (truth (some connective.decisive)) fun _ _ => rfl
  · have hother : ∀ e, (Branches.unchanged ty e).known? ≠ some connective.decisive :=
      fun e => hknown
    simp only [hother, if_false]
    refine .bind (.setEnv fun e _ => hunchanged _ e) fun _ => ?_
    refine .bind (hr.split hright).still fun ty' => ?_
    refine .pure (truth (connective.known? (Branches.unchanged ty .empty).known?
      (Branches.unchanged ty' .empty).known?)) fun e he => ?_
    cases connective with
    | conjunction => exact congrArg (Branches.mk _ ⟨e, ·⟩) (Env.merge_self he)
    | disjunction => exact congrArg (Branches.mk _ ⟨·, e⟩) (Env.merge_self he)

theorem logical? (hr : r.Blind setting) (h : node.Closed) {branches : Check Branches}
    (hb : r.logical? node = some branches) : branches.Takes setting Branches.unchanged := by
  have hunknown : (do return .unchanged (truth none) (← Check.env) : Check Branches).Takes setting
      Branches.unchanged := .bind .env fun _ => .pure (truth none) fun _ _ => rfl
  unfold Rules.logical? at hb
  split at hb
  · split at hb
    · cases hb
      split
      · refine (hr.split (h.childBy? ‹_› (by decide))).bind fun ty => ?_
        exact .pure (truth ((Branches.unchanged ty .empty).known?.map (!·))) fun _ _ => rfl
      · exact hunknown
    · cases hb
  · split at hb
    · cases hb
      split
      · exact hr.connect (h.childBy? ‹_› (by decide)) (h.childBy? ‹_› (by decide)) _
      · exact hunknown
    · cases hb
  · cases hb

/-- A closed condition tells nothing of variables. -/
theorem splitNode (hr : r.Blind setting) (h : node.Closed) {visit : Node → Check Inferred}
    (hvisit : (visit node).Blind setting) :
    (r.splitNode visit node).Takes setting Branches.unchanged := by
  unfold Rules.splitNode
  split
  · exact hr.logical? h ‹_›
  · split
    · exact .bind .env fun _ => .pure (truth none) fun _ _ => rfl
    · refine Check.Blind.takes hvisit fun result => Check.Blind.takes .hierarchy fun hi => ?_
      simp only [h.splitBy]
      refine .ofScope (fun s => .bind .env fun _ => ?_) fun _ _ => rfl
      exact .pure result.ty fun _ _ => rfl

end Rules.Blind

/-! ### Choices -/

/-- The ways that end in an environment. -/
abbrev Check.endingIn (tys : List TyUnion) (e : Env) : List (TyUnion × Env) := tys.map (·, e)

theorem Check.Still.way {m : Check TyUnion} (hm : m.Blind setting) (taken : Bool) :
    Still setting endingIn fun e => way taken e m := by
  unfold Check.way
  cases taken with
  | true =>
    simp only [if_true]
    refine .bind (.setEnv fun _ _ => rfl) fun _ => .bind hm.still fun ty => ?_
    exact .bind .env fun _ => .pure [ty] fun _ _ => rfl
  | false => exact .pure [] fun _ _ => rfl

theorem Check.endingIn_environments {tys : List TyUnion} {e e' : Env}
    (he : e' ∈ (endingIn tys e).map (·.2)) : e' = e := by
  simp at he
  exact he.2.symm

theorem Check.endingIn_types (tys : List TyUnion) (e : Env) :
    (endingIn tys e).foldl (fun result way => result.union way.1) .empty =
      tys.foldl TyUnion.union .empty := by
  rw [List.foldl_map]

/-- Ways that end in one snapshot meet in it. -/
theorem Check.joinPaths_snapshot {e : Env} (he : e.snapshot.isSome = true) {exits : List Env}
    (hexits : ∀ e' ∈ exits, e' = e) (c : Checker) :
    Rules.joinPaths exits setting (c.withEnv e) = .ok () (c.withEnv e) := by
  have hjoined := Env.joinAll?_snapshot he hexits
  unfold Rules.joinPaths
  cases hpaths : Env.joinAll? exits with
  | none => rfl
  | some joined =>
    rw [hpaths] at hjoined
    obtain rfl : joined = e := hjoined
    rfl

theorem Check.Still.meet (tys : List TyUnion) :
    Still setting plain fun e => meet (endingIn tys e) := by
  have hjoin : Still setting plain fun e => Rules.joinPaths ((endingIn tys e).map (·.2)) :=
    fun c => ⟨.ok () c, fun e he => joinPaths_snapshot he (fun e' => endingIn_environments) c⟩
  exact .bind hjoin fun _ => .pure (tys.foldl TyUnion.union .empty) fun e _ => endingIn_types tys e

namespace Rules.Blind

@[grind ←]
theorem ternaryExpression (hr : r.Blind setting) (h : node.Closed) :
    (r.ternaryExpression node).Blind setting := by
  cases htest : node.childBy? "condition" with
  | none =>
    unfold Rules.ternaryExpression
    rw [htest]
    exact .pure _
  | some test =>
    cases halternative : node.childBy? "alternative" with
    | none =>
      unfold Rules.ternaryExpression
      rw [htest, halternative]
      exact .pure _
    | some alternative =>
      rw [ternaryExpression_eq htest halternative]
      have hno := hr.expr (h.childBy? halternative (by decide))
      have hyes : ∀ ty, (r.consequence node ty).Blind setting := by
        intro ty
        unfold Rules.consequence
        split
        · exact hr.expr (h.childBy? ‹_› (by decide))
        · exact .pure _
      refine Takes.blind ((hr.condition (h.childBy? htest (by decide))).bind fun ty => ?_)
      have hways : ∀ {m : Check TyUnion}, m.Blind setting → ∀ outcome, Still setting endingIn
          fun e => way ((Branches.unchanged ty e).known? != some outcome) e m :=
        fun hm outcome => .way hm ((Branches.unchanged ty .empty).known? != some outcome)
      refine .bind (hways (hyes ty) false) fun yes => .bind (hways hno true) fun no => ?_
      have hmeet : Still setting plain fun e => meet (endingIn (yes ++ no) e) := .meet _
      simpa only [endingIn, List.map_append] using hmeet

theorem matchArm (hr : r.Blind setting) (h : node.Closed) (hfield : node.field = some "arm") :
    Still setting endingIn fun e => r.matchArm e node := by
  unfold Rules.matchArm
  refine .bind (.setEnv fun _ _ => rfl) fun _ => ?_
  refine .bind (hr.exprs fun n hn => h.childrenBy hn (by decide)).still fun _ => ?_
  split
  · refine .bind (hr.visit (h.body ‹_› (.inr hfield))).still fun result => ?_
    by_cases hflow : result.flow.isNormal = true
    · simp only [plain, hflow, if_true]
      exact .bind .env fun _ => .pure [result.ty] fun _ _ => rfl
    · simp only [plain, hflow]
      exact .pure [] fun _ _ => rfl
  · exact .pure [] fun _ _ => rfl

@[grind ←]
theorem matchExpression (hr : r.Blind setting) (h : node.Closed) :
    (r.matchExpression node).Blind setting := by
  unfold Rules.matchExpression
  refine .bind (hr.exprBy? h (by decide)) fun _ => Takes.blind (.bind .env fun _ => ?_)
  refine .bind (.mapM _ fun arm harm => hr.matchArm (h.childrenBy harm (by decide))
    (Node.Closed.field_childrenBy harm)) fun arms => ?_
  have hflat : ∀ e, (arms.map (endingIn · e)).flatten = endingIn arms.flatten e := fun e => by
    rw [endingIn, List.map_flatten]
  simp only [hflat]
  refine .bind (.setEnv fun e he => ?_) fun _ => ?_
  · exact Env.joinAll?_snapshot he fun e' => endingIn_environments
  · exact .pure (arms.flatten.foldl TyUnion.union .empty) fun e _ => endingIn_types _ e

end Rules.Blind

/-! ### Functions -/

/-- The variables of a scope take part in no other part of it when parameters are bound. -/
theorem Scope.foldl_bind_env (ps : List BodyParam) (s : Scope) (e : Env) :
    ∃ e', ps.foldl (fun s p => s.bind p.param.name p.inside) { s with env := e } =
      { ps.foldl (fun s p => s.bind p.param.name p.inside) s with env := e' } := by
  induction ps generalizing s e with
  | nil => exact ⟨e, rfl⟩
  | cons p ps ih => exact ih (s.bind p.param.name p.inside) (e.set p.param.name p.inside)

namespace Check.Blind

@[grind ←]
theorem declaredType (context : TypeContext) (node : Node) (field : String)
    (documented : Option TypeExpr) (what : String) :
    (Rules.declaredType context node field documented what).Blind setting := by
  unfold Rules.declaredType Rules.reconcile
  grind

@[grind ←]
theorem checkFallThrough (node : Node) (d : FunctionDecl) (display : String) :
    (Rules.checkFallThrough node d display).Blind setting := by
  unfold Rules.checkFallThrough
  grind

@[grind ←]
theorem checkReturn (node : Node) (ty : Option TyUnion) :
    (Rules.checkReturn node ty).Blind setting := by
  unfold Rules.checkReturn
  grind

theorem isStaticClosure (node : Node) : (Rules.isStaticClosure node).Blind setting :=
  ofScope (fun _ => pure _) fun _ _ => rfl

end Check.Blind

namespace Rules.Blind

/-- Of what a function has outside its body only the defaults are checked. -/
theorem declaration (hr : r.Blind setting)
    (h : ∀ p ∈ node.parameters, ∀ default, p.childBy? "default" = some default → default.Closed)
    (name : String) : (r.declaration name node).Blind setting := by
  unfold Rules.declaration
  refine .bind (.filterMapM fun p hp => ?_) fun params => .bind (.typeContext _) fun context =>
    .bind (.declaredType _ _ _ _ _) fun declared => .pure _
  split
  · refine .bind ?_ fun _ => .pure _
    unfold Rules.parameter
    have hdefault := hr.expr? (h p hp)
    grind
  · exact .pure _

theorem parameters (h : node.Closed) : ∀ p ∈ node.parameters, ∀ default,
    p.childBy? "default" = some default → default.Closed :=
  fun _ hp _ hdefault => (h.listed (by decide) hp).childBy? hdefault (by decide)

/-- A body has a scope of its own, in which nothing is seen of the variables around it. -/
theorem checkBody (r : Rules) (body : Node) (d : FunctionDecl) (display : String)
    (isStatic : Bool) :
    (r.checkBody body d display isStatic .statements).Blind setting := by
  unfold Rules.checkBody
  refine .ofScope (fun outer => ?_) fun _ _ => rfl
  refine .bind (.inScope _ _) fun result => ?_
  grind

/-- The variables around it are seen in the body of an arrow function. -/
theorem checkArrow (hr : r.Blind setting) {body : Node} (hbody : body.Closed) (d : FunctionDecl)
    (display : String) (isStatic : Bool) {f : TyUnion → TyUnion} :
    (do return f (← r.checkBody body d display isStatic .arrow).returns : Check TyUnion).Blind
      setting := by
  unfold Rules.checkBody
  simp only [bind_assoc]
  refine .inScopeOf ?_ (fun x => ?_) (fun s e => ?_) fun _ _ _ => ?_
  · exact .bind (hr.expr hbody) fun ty => .bind (.checkReturn _ _) fun _ => .pure _
  · refine .bind (.ite ?_ (.bind (.pure _) fun _ => .pure _)) fun _ => .pure _
    exact .bind (.checkFallThrough _ _ _) fun _ => .bind (.pure _) fun _ => .pure _
  · exact Scope.foldl_bind_env d.params (s.arrowBody _ isStatic)
      ({ s with env := e }.arrowBody { name := display } isStatic).env
  · dsimp only
    split
    · simp only [bind_assoc, pure_bind]
      rfl
    · simp only [pure_bind]
      rfl

theorem closure (hr : r.Blind setting) (h : node.Closed) (hkind : node.kind = .anonymousFunction) :
    (r.closure node).Blind setting := by
  unfold Rules.closure
  refine .bind (hr.declaration (parameters h) _) fun d =>
    .bind (.isStaticClosure _) fun isStatic => ?_
  split
  · exact .pure _
  · rw [show ((node.childBy? "uses").map Node.positional).getD [] = [] from h.captures_eq hkind]
    simp only [List.filterMapM_nil, pure_bind]
    exact .bind (checkBody r _ _ _ _) fun outcome => .bind (.pure _) fun _ => .pure _

theorem arrowFunction (hr : r.Blind setting) (h : node.Closed)
    (hkind : node.kind = .arrowFunction) :
    (r.arrowFunction node).Blind setting := by
  unfold Rules.arrowFunction
  refine .bind (hr.declaration (parameters h) _) fun d =>
    .bind (.isStaticClosure _) fun isStatic => ?_
  split
  · exact .pure _
  · refine hr.checkArrow (f := fun returns => .of (.function (d.inferred returns)))
      (h.body ‹_› (.inl ?_)) d _ _
    rw [hkind]
    rfl

/-- The scope of a function does not affect that of the caller. -/
theorem functionDefinition (hr : r.Blind setting)
    (h : ∀ p ∈ node.parameters, ∀ default, p.childBy? "default" = some default → default.Closed) :
    (r.functionDefinition node).Blind setting := by
  unfold Rules.functionDefinition
  extract_lets last
  have hlast : ∀ u, (last u).Blind setting := fun _ => .pure _
  clear_value last
  split
  · have hdeclare : (r.declareFunction node).Blind setting := by
      unfold Rules.declareFunction
      split
      · refine .ofScope (fun s => .bind (hr.declaration h _) fun d => ?_) fun _ _ => rfl
        grind
      · exact .pure _
    refine .bind (.isHoisted _) fun hoisted => ?_
    extract_lets next
    have hnext : ∀ u, (next u).Blind setting := by
      intro u
      refine .ofScope (fun s => .bind (hr.declaration h _) fun d => ?_) fun _ _ => rfl
      have hbody : ∀ body d display isStatic,
          (r.checkBody body d display isStatic .statements).Blind setting := checkBody r
      grind
    clear_value next
    grind
  · exact hlast ()

end Rules.Blind

/-! ### Classes -/

namespace Check.Blind

/-- The body of a class has a scope of its own. -/
theorem inClass {α : Type} (node : Node) (className : String) (step : Check α) :
    (Rules.inClass node className step).Blind setting := by
  have hcontext : (Rules.classContext node className).Blind setting := by
    unfold Rules.classContext
    grind
  exact .ofScope (fun s => .bind hcontext fun _ => .bind (.inScope _ _) fun _ => .pure _)
    fun _ _ => rfl

theorem checkName (c : Convention) (name : String) (node : Node) (message : String) :
    (Check.checkName c name node message).Blind setting := by
  unfold Check.checkName
  grind

theorem reportCollisions (node : Node) (className : String) (collisions : List TraitCollision) :
    (Rules.reportCollisions node className collisions).Blind setting := by
  unfold Rules.reportCollisions
  grind

theorem populateClass (r : Rules) (node : Node) (className : String) :
    (r.populateClass node className).Blind setting := by
  unfold Rules.populateClass
  refine .bind (inClass _ _ _) fun parts => ?_
  grind

theorem declareClass (r : Rules) (node : Node) (className : String) :
    (r.declareClass node className).Blind setting := by
  have hskeleton : (Rules.declareSkeleton node className).Blind setting := by
    unfold Rules.declareSkeleton
    grind
  have hfill : (do
      Rules.reportCollisions node className (← r.populateClass node className) : Check Unit).Blind
      setting := .bind (populateClass r _ _) (reportCollisions _ _)
  unfold Rules.declareClass
  grind

theorem checkClass (r : Rules) (node : Node) (className : String) :
    (r.checkClass node className).Blind setting := by
  unfold Rules.checkClass
  refine .bind (.forM fun n _ => ?_) fun _ => inClass _ _ _
  exact .ofScope (fun s => .bind (.ensureClass _ _) fun _ => .pure _) fun _ _ => rfl

/-- A class does not see the variables around it. -/
theorem classDeclaration (r : Rules) (node : Node) : (r.classDeclaration node).Blind setting := by
  unfold Rules.classDeclaration
  extract_lets last
  have hlast : ∀ u, (last u).Blind setting := fun _ => .pure _
  clear_value last
  split
  · refine .bind (checkName _ _ _ _) fun _ => .ofScope (fun s => ?_) fun _ _ => rfl
    have hdeclare : ∀ className, (r.declareClass node className).Blind setting :=
      declareClass r node
    have hcheck : ∀ className, (r.checkClass node className).Blind setting := checkClass r node
    grind
  · exact hlast ()

end Check.Blind

namespace Rules.Blind

@[grind ←]
theorem anonymousClass (hr : r.Blind setting) (h : node.Closed) :
    (r.anonymousClass node).Blind setting := by
  unfold Rules.anonymousClass
  refine .bind .currentFile fun file => ?_
  extract_lets className next
  have hnext : ∀ u, (next u).Blind setting := fun _ =>
    .bind (.checkClass r _ _) fun _ => .bind (hr.construct h.arguments _ _) fun _ => .pure _
  clear_value className next
  refine .bind .registry fun registry => .ite ?_ (hnext ())
  refine .ofScope (fun s => .bind (.modifyRegistry _) fun _ => .bind (.noteClass _) fun _ => ?_)
    fun _ _ => rfl
  exact .bind (.populateClass r _ _) fun _ => .bind (.reportCollisions _ _ _) hnext

theorem instantiate (hr : r.Blind setting) (h : node.Closed) (classNode : Node)
    (className : String) : (r.instantiate node classNode className).Blind setting := by
  have harguments := h.arguments
  unfold Rules.instantiate
  grind

@[grind ←]
theorem newExpression (hr : r.Blind setting) (h : node.Closed) :
    (r.newExpression node).Blind setting := by
  have harguments := h.arguments
  have hinstantiate := hr.instantiate h
  unfold Rules.newExpression
  split
  · exact .pure _
  · have hclass := h.childBy? ‹_› (by decide)
    grind

/-! ### Nodes -/

theorem apply (hr : r.Blind setting) (h : node.Closed) (assigning : Option TyUnion) :
    (r.apply node assigning).Blind setting := by
  have hexpression := h.expression
  have hconstant := h.constant
  unfold Rules.apply
  extract_lets value statement
  have hvalue : ∀ {m : Check TyUnion}, m.Blind setting → (value m).Blind setting :=
    fun hm => .bind hm fun _ => .pure _
  clear_value value statement
  split
  · refine hvalue (Takes.blind ((hr.logical? h ‹_›).bind fun ty => ?_))
    exact .bind (.setEnv fun e he => Env.merge_self he) fun _ => .pure ty fun _ _ => rfl
  · have hmagic : (do
        return .value (magicConstant (← currentFile) (← currentDir) (← scope) node) :
        Check Inferred).Blind setting :=
      .bind .currentFile fun _ => .bind .currentDir fun _ =>
        .ofScope (fun _ => .pure _) fun _ _ => rfl
    have hclosure := hr.closure h
    have harrow := hr.arrowFunction h
    generalize node.kind = kind at hexpression hconstant hclosure harrow ⊢
    split
    all_goals first
      | exact absurd hexpression (by decide)
      | exact absurd hconstant (by decide)
      | grind

theorem visitNode (hr : r.Blind setting) (h : node.Closed) : (r.visitNode node).Blind setting :=
  .ofScope (fun _ => .bind (.modifyScope fun _ _ => rfl) fun _ => hr.apply h _) fun _ _ => rfl

end Rules.Blind

theorem Rules.blind_below (height : Nat) (setting : Setting) :
    (Rules.below height).Blind setting := by
  induction height using Nat.strongRecOn with
  | ind height ih =>
    rw [Rules.below]
    refine ⟨fun h => ?_, fun h => ?_⟩
    · dsimp only
      split
      · exact (ih _ ‹_›).visitNode h
      · exact .pure _
    · dsimp only
      split
      · exact (ih _ ‹_›).splitNode h ((ih _ ‹_›).visitNode h)
      · exact .bind .env fun _ => .pure .mixed fun _ _ => rfl

end

end PhpCheck
