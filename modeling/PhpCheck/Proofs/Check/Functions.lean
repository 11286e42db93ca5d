import PhpCheck.Proofs.Check.Hoisting

/-!
What checking does to the functions that are known.

A function that was known before a file stays as it is (`Composite.settled`).  A function
of the file is registered by the first declaration that is met.  When a declaration of it
is reached, whichever that is, its signature takes the place of the one that is
registered.
-/

namespace PhpCheck

open Check

/-! ### Functions of other files -/

/-- A function is known, and not one of the file. -/
structure Checker.Settled (name : String) (f : Signature) (c : Checker) : Prop where
  known : c.session.registry.function? name = some f
  foreign : symbolKey name ∉ c.ownFunctions

/-- A function that is known in the first session is the same in the second. -/
def Session.KeepsFunction (name : String) (f : Signature) (s t : Session) : Prop :=
  s.registry.function? name = some f → t.registry.function? name = some f

section

variable {name : String} {f : Signature} {setting : Setting}

theorem Checker.Settled.registering {c : Checker} (hc : c.Settled name f) (other : String)
    (g : Signature) : (c.registering other g).Settled name f := by
  refine ⟨?_, ?_⟩
  · show (c.session.registry.addFunction other g).function? name = some f
    rw [Registry.function?_addFunction, hc.known, Option.some_or]
  · show symbolKey name ∉ if (c.session.registry.function? other).isNone then
      symbolKey other :: c.ownFunctions else c.ownFunctions
    split
    · rename_i hnew
      refine List.not_mem_cons_of_ne_of_not_mem (fun hsame => ?_) hc.foreign
      have hknown := hc.known
      rw [Registry.function?, hsame, ← Registry.function?] at hknown
      rw [hknown] at hnew
      cases hnew
    · exact hc.foreign

theorem Checker.Settled.revising {c : Checker} (hc : c.Settled name f) (given : Bool)
    (other : String) (g : Signature) : (c.revising given other g).Settled name f := by
  unfold Checker.revising
  split
  · rename_i hown
    refine ⟨?_, hc.foreign⟩
    have hother : symbolKey other ∈ c.ownFunctions := by simp_all
    show (c.session.registry.updateFunction other g).function? name = some f
    have hne : symbolKey other ≠ symbolKey name := fun hsame => hc.foreign (hsame ▸ hother)
    rw [Registry.function?_updateFunction, if_neg hne]
    exact hc.known
  · exact hc

theorem Checker.Settled.invariant
    (hl : setting.loads.Within (Session.KeepsFunction name f)) :
    Invariant setting (Checker.Settled name f) where
  same _ _ hsession _ hown hc := ⟨hsession.symm ▸ hc.known, hown.symm ▸ hc.foreign⟩
  note _ _ _ hc := ⟨hc.known, hc.foreign⟩
  registry g hg hc := by
    refine ⟨?_, hc.foreign⟩
    show (g _).functions.get? (symbolKey name) = some f
    rw [hg]
    exact hc.known
  registering other g hc := hc.registering other g
  revising given other g hc := hc.revising given other g
  autoload other hc := ⟨hl.autoload other _ hc.known, hc.foreign⟩
  includeFile path once hc := ⟨hl.includeFile path once _ hc.known, hc.foreign⟩

/-- Every step leaves functions of other files alone, if loading does. -/
theorem Check.Composite.settled {α : Type} {m : Check α} (hm : m.Composite)
    (hl : setting.loads.Within (Session.KeepsFunction name f)) :
    m.Maintains (Checker.Settled name f) setting :=
  hm.maintains (Checker.Settled.invariant hl)

end

/-! ### Signatures -/

/-- The names of the parameters of a function. -/
def Node.parameterNames (node : Node) : List String :=
  node.parameters.filterMap (·.fieldText? "name")

/-- A function of which no result is declared or documented. -/
structure Node.Untyped (node : Node) : Prop where
  undeclared : node.fieldText? "return_type" = none
  undocumented : ((node.doc?.map DocComment.read).getD {}).returns = none

/-- A function declaration without defaults. -/
structure Node.PlainFunction (node : Node) : Prop where
  kind : node.kind = .functionDefinition
  plain : ∀ p ∈ node.parameters, p.childBy? "default" = none

section

variable {α β : Type} {setting : Setting} {c c' : Checker}

/-- What a step computes of each element of a list is found in the results. -/
theorem Check.filterMapM_ok {γ : Type} {f : α → Check (Option β)} {g : β → γ} {h : α → Option γ}
    (hf : ∀ x c b c', f x setting c = .ok b c' → b.map g = h x) {xs : List α} {ys : List β}
    (hrun : xs.filterMapM f setting c = .ok ys c') : ys.map g = xs.filterMap h := by
  induction xs generalizing c ys with
  | nil =>
    cases hrun
    rfl
  | cons x xs ih =>
    rw [List.filterMapM_cons] at hrun
    obtain ⟨b, c₁, hx, hrest⟩ := bind_ok hrun
    have hb := hf x c b c₁ hx
    rw [List.filterMap_cons, ← hb]
    cases b with
    | none => exact ih hrest
    | some b =>
      obtain ⟨ys', c₂, hys, hlast⟩ := bind_ok hrest
      cases hlast
      exact congrArg (g b :: ·) (ih hys)

theorem Rules.parameter_ok {r : Rules} {doc : DocComment} {node : Node} {name : String}
    {b : BodyParam} (hrun : r.parameter doc node name setting c = .ok b c') :
    b.param.name = name := by
  obtain ⟨context, c₁, -, hrun⟩ := bind_ok hrun
  obtain ⟨ty, c₂, -, hrun⟩ := bind_ok hrun
  obtain ⟨default, c₃, -, hrun⟩ := bind_ok hrun
  cases hrun
  rfl

theorem Rules.declaredType_none {context : TypeContext} {node : Node} {field : String}
    (hfield : node.fieldText? field = none) (what : String) :
    declaredType context node field none what setting c = .ok none c := by
  unfold declaredType
  rw [hfield]
  rfl

/-- A signature has the parameters that are written. -/
theorem Rules.declaration_ok {r : Rules} {name : String} {node : Node} {d : FunctionDecl}
    (hrun : r.declaration name node setting c = .ok d c') :
    d.signature.params.map (·.name) = node.parameterNames ∧ (node.Untyped → d.declared = none) := by
  obtain ⟨params, c₁, hparams, hrun⟩ := bind_ok hrun
  obtain ⟨context, c₂, -, hrun⟩ := bind_ok hrun
  obtain ⟨declared, c₃, hdeclared, hrun⟩ := bind_ok hrun
  cases hrun
  refine ⟨?_, fun huntyped => ?_⟩
  · show (params.map (·.param)).map (·.name) = _
    rw [List.map_map]
    refine filterMapM_ok (fun p c b c' hp => ?_) hparams
    cases hname : p.fieldText? "name" with
    | none =>
      rw [hname] at hp
      cases hp
      rfl
    | some name =>
      rw [hname] at hp
      obtain ⟨b', c'', hb, hlast⟩ := bind_ok hp
      cases hlast
      exact congrArg some (parameter_ok hb)
  · rw [huntyped.undocumented, declaredType_none huntyped.undeclared] at hdeclared
    cases hdeclared
    rfl

end

/-! ### Making a function known -/

section

variable {r : Rules} {node body : Node} {name : String} {setting : Setting} {c c' : Checker}

/-- A step that goes to its end and changes nothing, but may find something. -/
def Check.Looks {α : Type} (setting : Setting) (m : Check α) : Prop :=
  ∀ c, ∃ a found, m setting c = .ok a (c.withFindings found)

namespace Check.Looks

variable {α β : Type}

theorem pure (a : α) : (Pure.pure a : Check α).Looks setting := fun c => ⟨a, c.diagnostics, rfl⟩

theorem bind {m : Check α} {f : α → Check β} (hm : m.Looks setting)
    (hf : ∀ a, (f a).Looks setting) : (m >>= f).Looks setting := by
  intro c
  obtain ⟨a, found, hfirst⟩ := hm c
  obtain ⟨b, found', hthen⟩ := hf a (c.withFindings found)
  refine ⟨b, found', ?_⟩
  rw [bind_run, hfirst]
  exact hthen

theorem report {kind : DiagnosticKind} (hmild : kind.isFatal = false) (node : Node)
    (message : String) : (Check.report kind node message).Looks setting := by
  intro c
  rw [report_mild hmild]
  split
  · exact ⟨(), _, rfl⟩
  · exact ⟨(), c.diagnostics, rfl⟩

theorem filterMapM {f : α → Check (Option β)} {xs : List α}
    (hf : ∀ x ∈ xs, (f x).Looks setting) : (xs.filterMapM f).Looks setting := by
  induction xs with
  | nil => exact .pure _
  | cons x xs ih =>
    have hrest := ih fun y hy => hf y (List.mem_cons_of_mem x hy)
    rw [List.filterMapM_cons]
    refine .bind (hf x List.mem_cons_self) fun b => ?_
    cases b with
    | none => exact hrest
    | some b => exact .bind hrest fun _ => .pure _

/-- Nothing but the findings is changed. -/
theorem eq_of_ok {m : Check α} (hm : m.Looks setting) {a : α} (hrun : m setting c = .ok a c') :
    c' = c.withFindings c'.diagnostics := by
  obtain ⟨b, found, hlook⟩ := hm c
  rw [hlook] at hrun
  cases hrun
  rfl

end Check.Looks

theorem Rules.reconcile_looks (native documented : Option TyUnion) (node : Node) (what : String) :
    (reconcile native documented node what).Looks setting := by
  unfold reconcile
  split
  · refine .bind (fun c => ⟨_, c.diagnostics, rfl⟩) fun h => ?_
    split
    · exact .pure _
    · exact .bind (.report rfl node _) fun _ => .pure _
  · exact .pure _

theorem Rules.declaration_looks (hplain : node.PlainFunction) (r : Rules) (setting : Setting)
    (name : String) : (r.declaration name node).Looks setting := by
  have hcontext : ∀ templates, (typeContext templates).Looks setting :=
    fun _ c => ⟨_, c.diagnostics, rfl⟩
  unfold declaration
  refine .bind (.filterMapM fun p hp => ?_) fun params => ?_
  · cases p.fieldText? "name" with
    | none => exact .pure none
    | some name =>
      refine .bind ?_ fun _ => .pure _
      unfold parameter
      rw [hplain.plain p hp]
      exact .bind (hcontext _) fun _ => .bind (reconcile_looks _ _ p _) fun _ =>
        .bind (.pure _) fun _ => .pure _
  · exact .bind (hcontext _) fun _ => .bind (reconcile_looks _ _ node _) fun _ => .pure _

theorem Rules.checkFallThrough_looks (d : FunctionDecl) (display : String) :
    (checkFallThrough node d display).Looks setting := by
  unfold checkFallThrough
  split
  · split
    · exact .pure _
    · exact .report rfl node _
  · exact .pure _

theorem Rules.checkBody_scope {d : FunctionDecl} {display : String} {isStatic : Bool}
    {kind : Rules.BodyKind} {outcome : Rules.BodyOutcome}
    (hrun : r.checkBody body d display isStatic kind setting c = .ok outcome c') :
    c'.scope = c.scope := by
  obtain ⟨outer, c₁, houter, hrun⟩ := bind_ok hrun
  cases houter
  obtain ⟨⟨result, final⟩, c₂, hbody, hrun⟩ := bind_ok hrun
  have hscope : c₂.scope = c.scope := by
    rw [inScope_run] at hbody
    split at hbody
    · cases hbody
      rfl
    · cases hbody
  rw [← hscope]
  dsimp only at hrun
  split at hrun
  · obtain ⟨u, c₃, hfall, hrun⟩ := bind_ok hrun
    rw [(checkFallThrough_looks d display).eq_of_ok hfall] at hrun
    cases hrun
    rfl
  · cases hrun
    rfl

/-- If a function is known, it is one of the file. -/
def Checker.Owns (c : Checker) (name : String) : Prop :=
  (c.session.registry.function? name).isSome = true → symbolKey name ∈ c.ownFunctions

/-- The second checker comes from the first by making functions known. -/
structure Checker.Declared (c c' : Checker) : Prop where
  scope : c'.scope = c.scope
  owns : ∀ name, c.Owns name → c'.Owns name
  known : ∀ name, (c.session.registry.function? name).isSome = true →
    (c'.session.registry.function? name).isSome = true

theorem Checker.Declared.refl (c : Checker) : c.Declared c :=
  ⟨rfl, fun _ h => h, fun _ h => h⟩

theorem Checker.Declared.trans {c c' c'' : Checker} (hfirst : c.Declared c')
    (hthen : c'.Declared c'') : c.Declared c'' :=
  ⟨hthen.scope.trans hfirst.scope, fun name h => hthen.owns name (hfirst.owns name h),
    fun name h => hthen.known name (hfirst.known name h)⟩

theorem Checker.declared_registering (c : Checker) (name : String) (f : Signature) :
    c.Declared (c.registering name f) ∧
      ((c.registering name f).session.registry.function? name).isSome = true := by
  have hfunction : ∀ other, (c.registering name f).session.registry.function? other =
      (c.session.registry.function? other).or
        (if symbolKey name = symbolKey other then some f else none) :=
    fun other => c.session.registry.function?_addFunction name other f
  refine ⟨⟨rfl, fun other howns hknown => ?_, fun other hknown => ?_⟩, ?_⟩
  · show symbolKey other ∈ if (c.session.registry.function? name).isNone then
      symbolKey name :: c.ownFunctions else c.ownFunctions
    by_cases hbefore : (c.session.registry.function? other).isSome = true
    · have hown := howns hbefore
      split
      · exact List.mem_cons_of_mem _ hown
      · exact hown
    · rw [hfunction, Option.isSome_or, Option.not_isSome_iff_eq_none.1 hbefore] at hknown
      have hsame : symbolKey name = symbolKey other := by
        by_contra hne
        rw [if_neg hne] at hknown
        cases hknown
      have hnew : c.session.registry.function? name = none := by
        rw [Registry.function?, hsame]
        exact Option.not_isSome_iff_eq_none.1 hbefore
      rw [hnew, Option.isNone_none, if_pos rfl, hsame]
      exact List.mem_cons_self
  · rw [hfunction, Option.isSome_or, hknown, Bool.true_or]
  · rw [hfunction, if_pos rfl, Option.isSome_or, Option.isSome_some, Bool.or_true]

/-- Making a function without defaults known. -/
theorem Rules.declareFunction_plain (hplain : node.PlainFunction) (r : Rules) (setting : Setting)
    (c : Checker) :
    ∃ c', r.declareFunction node setting c = .ok () c' ∧ c.Declared c' ∧
      ∀ name, node.fieldText? "name" = some name →
        (c'.session.registry.function? (c.scope.names.qualify name)).isSome = true := by
  unfold declareFunction
  cases hname : node.fieldText? "name" with
  | none => exact ⟨c, rfl, .refl c, fun _ h => nomatch h⟩
  | some name =>
    obtain ⟨d, found, hlook⟩ :=
      declaration_looks hplain r setting (c.scope.names.qualify name) c
    obtain ⟨hdeclared, hknown⟩ :=
      (c.withFindings found).declared_registering (c.scope.names.qualify name) d.signature
    refine ⟨{ (c.withFindings found).registering (c.scope.names.qualify name) d.signature with
      hoisted := node.span.start :: c.hoisted }, ?_, ?_, fun other hother => ?_⟩
    · dsimp only
      show (r.declaration (c.scope.names.qualify name) node >>= fun d => _) setting c = _
      rw [bind_run, hlook]
      dsimp only
      rw [registerFunction_bind, bind_run, registerFunction_run]
      rfl
    · exact ⟨hdeclared.scope, hdeclared.owns, hdeclared.known⟩
    · cases hother
      exact hknown

theorem Rules.quietly_declareFunction (hplain : node.PlainFunction) (r : Rules)
    (setting : Setting) (c : Checker) :
    ∃ c', quietly (r.declareFunction node) setting c = .ok () c' ∧ c.Declared c' ∧
      ∀ name, node.fieldText? "name" = some name →
        (c'.session.registry.function? (c.scope.names.qualify name)).isSome = true := by
  obtain ⟨c', hrun, hdeclared, hknown⟩ := declareFunction_plain hplain r setting
    { c with muted := c.muted + 1 }
  refine ⟨{ c' with muted := c'.muted - 1 }, ?_, ⟨hdeclared.scope, hdeclared.owns, hdeclared.known⟩,
    hknown⟩
  rw [quietly_run, hrun]

theorem Rules.forEach_cons (placed : Placed) (rest : List Placed) (step : Node → Check Unit) :
    forEach (placed :: rest) step = (do forEach [placed] step; forEach rest step) := by
  simp [forEach]

/-- Functions without defaults are made known one by one. -/
theorem Rules.declareFunctions {nodes : List Node} (hplain : ∀ n ∈ nodes, n.PlainFunction)
    (r : Rules) (setting : Setting) (c : Checker) :
    ∃ c', forEach (nodes.map fun n => (c.scope.names, n)) (fun n => quietly (r.declareFunction n))
        setting c = .ok () c' ∧ c.Declared c' ∧
      ∀ n ∈ nodes, ∀ name, n.fieldText? "name" = some name →
        (c'.session.registry.function? (c.scope.names.qualify name)).isSome = true := by
  induction nodes generalizing c with
  | nil => exact ⟨c, rfl, .refl c, fun n hn => nomatch hn⟩
  | cons n nodes ih =>
    obtain ⟨c₁, hfirst, hdeclared, hknown⟩ :=
      quietly_declareFunction (hplain n List.mem_cons_self) r setting c
    obtain ⟨c₂, hrest, hdeclared', hknown'⟩ :=
      ih (fun m hm => hplain m (List.mem_cons_of_mem n hm)) c₁
    rw [hdeclared.scope] at hrest hknown'
    refine ⟨c₂, ?_, hdeclared.trans hdeclared', fun m hm name hname => ?_⟩
    · rw [List.map_cons, forEach_cons, bind_run, forEach_here, hfirst]
      exact hrest
    · rcases List.mem_cons.1 hm with rfl | hm
      · exact hdeclared'.known _ (hknown name hname)
      · exact hknown' m hm name hname

theorem placedDeclarations_functions {nodes : List Node}
    (hkind : ∀ n ∈ nodes, n.kind = .functionDefinition) (depth : Nat) (names : NameContext) :
    placedDeclarations depth names nodes = (names, nodes.map fun n => (names, n)) := by
  induction nodes with
  | nil => rw [placedDeclarations, List.map_nil]
  | cons n nodes ih =>
    rw [placedDeclarations, hkind n List.mem_cons_self]
    dsimp only
    rw [ih fun m hm => hkind m (List.mem_cons_of_mem n hm)]
    rfl

/-- The only declarations of a file are functions. -/
theorem Rules.hoistAll_functions {nodes : List Node}
    (hkind : ∀ n ∈ nodes, n.kind = .functionDefinition) (r : Rules) (names : NameContext) :
    r.hoistAll (nodes.map fun n => (names, n)) = (do
      let _ ← hoistedStarts
      forEach (nodes.map fun n => (names, n)) fun n => quietly (r.declareFunction n)) := by
  have hnone : ∀ p : NodeKind → Bool, p .functionDefinition = false →
      (nodes.map fun n => (names, n)).filter (fun placed => p placed.2.kind) = [] := by
    intro p hp
    rw [List.filter_eq_nil_iff]
    intro placed hplaced
    obtain ⟨n, hn, rfl⟩ := List.mem_map.1 hplaced
    rw [hkind n hn, hp]
    exact Bool.false_ne_true
  have hall : (nodes.map fun n => (names, n)).filter
      (fun placed => placed.2.kind == .functionDefinition) = nodes.map fun n => (names, n) := by
    rw [List.filter_eq_self]
    intro placed hplaced
    obtain ⟨n, hn, rfl⟩ := List.mem_map.1 hplaced
    rw [hkind n hn]
    rfl
  unfold hoistAll
  dsimp only
  rw [hnone NodeKind.isClassLike rfl, hnone (· == .constDeclaration) rfl, hall]
  simp only [forEach_nil, pure_bind, List.filter_nil, List.mergeSort_nil]

variable {root : Node}

/-- The functions of a file are made known before its statements are checked. -/
theorem Rules.hoist_functions (hplain : ∀ n ∈ root.positional, n.PlainFunction) (r : Rules)
    (setting : Setting) (c : Checker) :
    ∃ c', r.hoist root setting c = .ok () c' ∧ c.Declared c' ∧
      ∀ n ∈ root.positional, ∀ name, n.fieldText? "name" = some name →
        (c'.session.registry.function? (c.scope.names.qualify name)).isSome = true := by
  have hkind : ∀ n ∈ root.positional, n.kind = .functionDefinition := fun n hn => (hplain n hn).kind
  obtain ⟨c', hrun, hdeclared, hknown⟩ := declareFunctions hplain r setting c
  refine ⟨c', ?_, hdeclared, hknown⟩
  rw [hoist_run, placedDeclarations_functions hkind, hoistAll_functions hkind, bind_assoc]
  show (forEach (root.positional.map fun n => (c.scope.names, n))
    (fun n => quietly (r.declareFunction n)) >>= fun _ => setNames c.scope.names) setting c = _
  rw [bind_run, hrun, ← hdeclared.scope]
  rfl

/-! ### Reaching a declaration -/

/-- What is done about a function that is known when its declaration is reached: its body
is checked, and if it belongs to the file and no result is declared, its signature takes
the place of the one that is known. -/
def Rules.reachFunction (r : Rules) (name : String) (node : Node) : Check Flow := do
  let qualified := (← Check.scope).names.qualify name
  let d ← r.declaration qualified node
  match node.childBy? "body" with
  | some body =>
    let outcome ← r.checkBody body d name false .statements
    reviseFunction d.declared.isNone qualified (d.inferred outcome.returns)
    return .normal
  | none => return .normal

theorem Rules.functionDefinition_eq (hname : node.fieldText? "name" = some name) (r : Rules) :
    r.functionDefinition node = (do
      if ← isHoisted node then pure () else r.declareFunction node
      r.reachFunction name node) := by
  have hreach : r.reachFunction name node = (do
      let qualified := (← Check.scope).names.qualify name
      let d ← r.declaration qualified node
      match node.childBy? "body" with
      | some body =>
        let outcome ← r.checkBody body d name false .statements
        if d.declared.isNone && (← isOwnFunction qualified) then
          modifyRegistry (·.updateFunction qualified (d.inferred outcome.returns))
        return .normal
      | none => return .normal) := by
    unfold Rules.reachFunction
    simp only [reviseFunction_bind]
  rw [hreach]
  unfold Rules.functionDefinition
  cases hfound : node.fieldText? "name" with
  | none => cases hname.symm.trans hfound
  | some found =>
    obtain rfl := Option.some.inj (hname.symm.trans hfound)
    rfl

/-- A function is known, and has these parameters. -/
def Checker.HasParameters (c : Checker) (name : String) (parameters : List String) : Prop :=
  ∃ f, c.session.registry.function? name = some f ∧ f.params.map (·.name) = parameters

theorem Rules.reachFunction_scope (hplain : node.PlainFunction) {flow : Flow}
    (hrun : r.reachFunction name node setting c = .ok flow c') :
    c'.scope = c.scope := by
  obtain ⟨s, c₁, hs, hrun⟩ := bind_ok hrun
  cases hs
  obtain ⟨d, c₂, hd, hrun⟩ := bind_ok hrun
  rw [(declaration_looks hplain r setting _).eq_of_ok hd] at hrun
  cases hbody : node.childBy? "body" with
  | none =>
    rw [hbody] at hrun
    cases hrun
    rfl
  | some body =>
    rw [hbody] at hrun
    obtain ⟨outcome, c₃, hchecked, hrun⟩ := bind_ok hrun
    obtain ⟨u, c₄, hrevised, hrun⟩ := bind_ok hrun
    rw [reviseFunction_run] at hrevised
    cases hrevised
    cases hrun
    have hscope := checkBody_scope hchecked
    rw [← show c₃.scope = c.scope from hscope]
    unfold Checker.revising
    split <;> rfl

/-- A function of the file of which no result is declared has the parameters of the
declaration that is reached, whichever was met first. -/
theorem Rules.reachFunction_revises (hr : r.Composite) (huntyped : node.Untyped)
    (hbody : node.childBy? "body" = some body)
    (hown : symbolKey (c.scope.names.qualify name) ∈ c.ownFunctions) {flow : Flow}
    (hrun : r.reachFunction name node setting c = .ok flow c') :
    c'.HasParameters (c.scope.names.qualify name) node.parameterNames := by
  obtain ⟨s, c₁, hs, hrun⟩ := bind_ok hrun
  cases hs
  obtain ⟨d, c₂, hd, hrun⟩ := bind_ok hrun
  obtain ⟨hparams, hundeclared⟩ := declaration_ok hd
  rw [hbody] at hrun
  obtain ⟨outcome, c₃, hchecked, hrun⟩ := bind_ok hrun
  obtain ⟨u, c₄, hrevised, hrun⟩ := bind_ok hrun
  rw [reviseFunction_run] at hrevised
  cases hrevised
  cases hrun
  have hkept : c.ownFunctions <:+ c₃.ownFunctions :=
    ((hr.declaration _ _).keeps setting _ _ _ hd).ownFunctions.trans
      ((hr.checkBody _ _ _ _ _).keeps setting _ _ _ hchecked).ownFunctions
  have hcontains : c₃.ownFunctions.contains (symbolKey (c.scope.names.qualify name)) = true :=
    List.contains_iff_mem.2 (hkept.subset hown)
  refine ⟨d.inferred outcome.returns, ?_, ?_⟩
  · unfold Checker.revising
    rw [hundeclared huntyped, hcontains]
    exact (Registry.function?_updateFunction _ _ _ _).trans (if_pos rfl)
  · unfold FunctionDecl.inferred
    rw [hundeclared huntyped]
    exact hparams

/-- Reaching a declaration, whether or not it was met before. -/
theorem Rules.functionDefinition_run (hr : r.Composite) (hplain : node.PlainFunction)
    (hname : node.fieldText? "name" = some name) (setting : Setting) (c : Checker) :
    ∃ c₁, c₁.scope = c.scope ∧ c.ownFunctions <:+ c₁.ownFunctions ∧
      r.functionDefinition node setting c = r.reachFunction name node setting c₁ := by
  have hrun : r.functionDefinition node setting c =
      (do
        if c.hoisted.contains node.span.start then pure () else r.declareFunction node
        r.reachFunction name node : Check Flow) setting c := by
    rw [functionDefinition_eq hname]
    rfl
  rw [hrun]
  cases c.hoisted.contains node.span.start with
  | true => exact ⟨c, rfl, List.suffix_refl _, rfl⟩
  | false =>
    obtain ⟨c₁, hdeclare, hdeclared, -⟩ :=
      declareFunction_plain hplain r setting c
    refine ⟨c₁, hdeclared.scope,
      ((hr.declareFunction node).keeps setting _ _ _ hdeclare).ownFunctions, ?_⟩
    rw [if_neg Bool.false_ne_true, bind_run, hdeclare]

theorem Rules.functionDefinition_scope (hr : r.Composite) (hplain : node.PlainFunction)
    {flow : Flow} (hrun : r.functionDefinition node setting c = .ok flow c') :
    c'.scope = c.scope := by
  cases hname : node.fieldText? "name" with
  | none =>
    unfold functionDefinition at hrun
    rw [hname] at hrun
    cases hrun
    rfl
  | some name =>
    obtain ⟨c₁, hscope, -, hreach⟩ := functionDefinition_run hr hplain hname setting c
    rw [hreach] at hrun
    exact (reachFunction_scope hplain hrun).trans hscope

/-- A function of the file of which no result is declared has the parameters of the
declaration that was reached last. -/
theorem Rules.functionDefinition_revises (hr : r.Composite) (hplain : node.PlainFunction)
    (huntyped : node.Untyped) (hname : node.fieldText? "name" = some name)
    (hbody : node.childBy? "body" = some body)
    (hown : symbolKey (c.scope.names.qualify name) ∈ c.ownFunctions) {flow : Flow}
    (hrun : r.functionDefinition node setting c = .ok flow c') :
    c'.HasParameters (c.scope.names.qualify name) node.parameterNames := by
  obtain ⟨c₁, hscope, hsuffix, hreach⟩ :=
    functionDefinition_run hr hplain hname setting c
  rw [hreach] at hrun
  rw [← hscope] at hown ⊢
  exact reachFunction_revises hr huntyped hbody (hsuffix.subset hown) hrun

/-! ### Files -/

theorem Rules.apply_functionDefinition (hkind : node.kind = .functionDefinition) (r : Rules)
    (assigning : Option TyUnion) :
    r.apply node assigning = do return .statement (← r.functionDefinition node) := by
  unfold apply logical?
  rw [hkind]

/-- A function is checked by the rule for functions. -/
theorem Check.visit_function (hkind : node.kind = .functionDefinition)
    (hfree : c.scope.assigning = none) {result : Inferred}
    (hrun : Check.visit node setting c = .ok result c') :
    ∃ flow, (Rules.below node.height).functionDefinition node setting c = .ok flow c' := by
  rw [Check.visit, Rules.visitNode_run hfree, Rules.apply_functionDefinition hkind] at hrun
  obtain ⟨flow, c₁, hfunction, hrun⟩ := bind_ok hrun
  cases hrun
  exact ⟨flow, hfunction⟩

/-- What `statements` does about a statement. -/
def Rules.nextStatement (r : Rules) (flow : Flow) (node : Node) : Check Flow := do
  if flow.isNormal then return (← r.visit node).flow
  else
    if node.kind.isDeclaration then
      let _ ← r.visit node
    return flow

/-- A declaration is checked also where control does not arrive. -/
theorem Rules.nextStatement_declaration (hkind : node.kind.isDeclaration = true) {flow flow' : Flow}
    (hrun : r.nextStatement flow node setting c = .ok flow' c') :
    ∃ result, r.visit node setting c = .ok result c' := by
  unfold nextStatement at hrun
  rw [hkind] at hrun
  split at hrun
  · obtain ⟨result, c₁, hvisit, hrun⟩ := bind_ok hrun
    cases hrun
    exact ⟨result, hvisit⟩
  · obtain ⟨result, c₁, hvisit, hrun⟩ := bind_ok hrun
    cases hrun
    exact ⟨result, hvisit⟩

theorem Rules.nextStatement_function {height : Nat} (hlower : node.height < height)
    (hplain : node.PlainFunction) (hfree : c.scope.assigning = none) {flow flow' : Flow}
    (hrun : (below height).nextStatement flow node setting c = .ok flow' c') :
    ∃ flow, (below node.height).functionDefinition node setting c = .ok flow c' := by
  obtain ⟨result, hvisit⟩ := nextStatement_declaration (by rw [hplain.kind]; rfl) hrun
  rw [below_visit hlower] at hvisit
  exact visit_function hplain.kind hfree hvisit

/-- Functions one after another leave the scope as it is. -/
theorem Rules.statements_scope {height : Nat} {nodes : List Node}
    (hlower : ∀ n ∈ nodes, n.height < height) (hplain : ∀ n ∈ nodes, n.PlainFunction)
    (hfree : c.scope.assigning = none) {flow flow' : Flow}
    (hrun : nodes.foldlM (below height).nextStatement flow setting c = .ok flow' c') :
    c'.scope = c.scope := by
  induction nodes generalizing c flow with
  | nil =>
    cases hrun
    rfl
  | cons n nodes ih =>
    rw [List.foldlM_cons] at hrun
    obtain ⟨flow₁, c₁, hfirst, hrest⟩ := bind_ok hrun
    obtain ⟨flow₂, hfunction⟩ := nextStatement_function (hlower n List.mem_cons_self)
      (hplain n List.mem_cons_self) hfree hfirst
    have hscope := functionDefinition_scope (composite_below n.height)
      (hplain n List.mem_cons_self) hfunction
    rw [← hscope] at hfree ⊢
    exact ih (fun m hm => hlower m (List.mem_cons_of_mem n hm))
      (fun m hm => hplain m (List.mem_cons_of_mem n hm)) hfree hrest

/-- In a file of functions the last declaration gives a function its parameters. -/
theorem Check.file_functions {nodes : List Node} (hkind : root.kind = .sourceFile)
    (hroot : root.positional = nodes ++ [node]) (hplain : ∀ n ∈ root.positional, n.PlainFunction)
    (hname : node.fieldText? "name" = some name) (hbody : node.childBy? "body" = some body)
    (huntyped : node.Untyped) {value : TyUnion} (hrun : Check.file root setting c = .ok value c')
    (hfree : c.scope.assigning = none)
    (hnew : c.session.registry.function? (c.scope.names.qualify name) = none) :
    c'.HasParameters (c.scope.names.qualify name) node.parameterNames := by
  have hr := Rules.composite_below root.height
  have hlower : ∀ n ∈ root.positional, n.height < root.height := fun n hn =>
    Node.height_positional_lt hn
  have hnode : node ∈ root.positional := by simp [hroot]
  obtain ⟨c₁, hhoist, hdeclared, hknown⟩ :=
    Rules.hoist_functions hplain (Rules.below root.height) setting c
  have hown₁ : symbolKey (c.scope.names.qualify name) ∈ c₁.ownFunctions := by
    refine hdeclared.owns _ (fun hbefore => ?_) (hknown node hnode name hname)
    rw [hnew] at hbefore
    cases hbefore
  rw [← hdeclared.scope] at hfree hown₁ ⊢
  rw [file, bind_run, hhoist] at hrun
  dsimp only at hrun
  obtain ⟨result, c₂, hvisit, hvalue⟩ := bind_ok hrun
  cases hvalue
  rw [visit, Rules.visitNode_run hfree, Rules.apply_block (.inl hkind)] at hvisit
  obtain ⟨flow, c₂, hstatements, hvisit⟩ := bind_ok hvisit
  cases hvisit
  change root.positional.foldlM (Rules.below root.height).nextStatement .normal setting c₁ = _
    at hstatements
  rw [hroot, List.foldlM_append] at hstatements
  obtain ⟨flow₁, c₃, hbefore, hlast⟩ := bind_ok hstatements
  have hscope := Rules.statements_scope (fun n hn => hlower n (by simp [hroot, hn]))
    (fun n hn => hplain n (by simp [hroot, hn])) hfree hbefore
  have hown := ((hr.statements nodes).keeps setting _ _ _ hbefore).ownFunctions.subset hown₁
  rw [← hscope] at hfree hown ⊢
  obtain ⟨flow₂, c₄, hlast, hend⟩ := bind_ok hlast
  cases hend
  obtain ⟨flow₃, hfunction⟩ :=
    Rules.nextStatement_function (hlower node hnode) (hplain node hnode) hfree hlast
  exact Rules.functionDefinition_revises (Rules.composite_below _) (hplain node hnode) huntyped
    hname hbody hown hfunction

end

end PhpCheck
