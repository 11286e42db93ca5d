import PhpCheck.Proofs.Check.Conditional

/-!
How often an index is evaluated.

Writing `$a[index]` evaluates the index and then writes the array (`Check.write_element`).  To
write an element of an element, the inner one is first read while reading may fail, for the type
that it had, and then written (`Check.write_nested`).  A compound assignment reads the element
and writes it as well (`Check.joinsElement_run`).  So there the index is evaluated twice, which
shows against an index that was put in a variable of its own exactly if a second evaluation
changes something (`Check.index_in_variable`).
-/

namespace PhpCheck

open Check

/-! ### The statements -/

/-- A constant that is written out, or an array of such. -/
inductive Node.IsLiteral : Node → Prop
  | constant {node : Node} (hkind : node.kind ∈ [NodeKind.integerLiteral, .floatLiteral,
      .stringLiteral, .booleanLiteral, .nullLiteral, .magicConstant]) : node.IsLiteral
  | array {node : Node} (hkind : node.kind = .arrayLiteral)
      (hcopied : ∀ element ∈ node.positional, element.hasFlag "reference" = false)
      (hkeys : ∀ element ∈ node.positional, ∀ key, element.childBy? "key" = some key →
        key.IsLiteral)
      (hvalues : ∀ element ∈ node.positional, ∀ value, element.childBy? "value" = some value →
        value.IsLiteral) : node.IsLiteral

theorem Node.IsLiteral.isCall {node : Node} (hnode : node.IsLiteral) :
    node.kind.isCall = false := by
  cases hnode with
  | constant hkind =>
    simp only [List.mem_cons, List.not_mem_nil, or_false] at hkind
    rcases hkind with hkind | hkind | hkind | hkind | hkind | hkind <;> rw [hkind] <;> rfl
  | array hkind =>
    rw [hkind]
    rfl

/-- `array[index]` -/
structure Node.Indexes (node array index : Node) : Prop where
  kind : node.kind = .subscriptExpression
  object : node.childBy? "object" = some array
  index : node.childBy? "index" = some (index.inField "index")

/-- `target = value;` -/
def Node.Writes (statement target value : Node) : Prop :=
  ∃ node, statement.Evaluates node ∧ node.kind = .assignment ∧
    node.childBy? "left" = some target ∧ node.childBy? "right" = some value

/-- `$name[index] = value;` -/
def Node.SetsElement (statement : Node) (name : String) (index value : Node) : Prop :=
  ∃ element array, statement.Writes element value ∧ element.Indexes array index ∧
    array.IsVariable name

/-- `$name[first][second] = value;` -/
def Node.SetsNested (statement : Node) (name : String) (first second value : Node) : Prop :=
  ∃ outer inner array, statement.Writes outer value ∧ outer.Indexes inner second ∧
    inner.Indexes array first ∧ array.IsVariable name

/-- `$name[index] operator= value;` -/
def Node.JoinsElement (statement : Node) (name : String) (index : Node) (operator : String)
    (value : Node) : Prop :=
  ∃ node element array, statement.Evaluates node ∧ node.kind = .compoundAssignment ∧
    node.Joins element operator value ∧ element.Indexes array index ∧ array.IsVariable name

/-- The checker when reading what is not bound is a mistake, or none. -/
def Checker.probing (c : Checker) (tolerant : Bool) : Checker :=
  { c with scope := { c.scope with probing := tolerant } }

namespace Check

section

variable {setting : Setting} {c c' : Checker} {node array index : Node} {name : String}

/-! ### Reading and writing elements -/

theorem visit_reading (hc : c.scope.assigning = none) :
    visit node setting c = (Rules.below node.height).apply node none setting c := by
  have hdrop : dropValue setting c = .ok () c := dropValue_run hc
  show (dropValue >>= fun _ => (Rules.below node.height).apply node
    (if node.kind.isAssignable then c.scope.assigning else none)) setting c = _
  rw [bind_run_ok hdrop, hc, ite_self]

/-- The value is taken by what it is written to. -/
theorem whileAssigning_run (hkind : node.kind.isAssignable = true) (hc : c.scope.assigning = none)
    (value : TyUnion) : whileAssigning value (visit node) setting c = (do
      let result ← (Rules.below node.height).apply node (some value)
      dropValue
      return result : Check Inferred) setting c := by
  have hdropped : { c with scope := { c.scope with assigning := none } } = c := by rw [← hc]
  have hvisit : visit node setting { c with scope := { c.scope with assigning := some value } } =
      (Rules.below node.height).apply node (some value) setting c := by
    show (Rules.below node.height).apply node (if node.kind.isAssignable then some value else none)
      setting { c with scope := { c.scope with assigning := none } } = _
    rw [hdropped, if_pos hkind]
  show (visit node >>= fun result => dropValue >>= fun _ => Pure.pure result) setting
    { c with scope := { c.scope with assigning := some value } } = _
  rw [bind_run, bind_run, hvisit]

theorem visit_subscript (hnode : node.Indexes array index) (hc : c.scope.assigning = none) :
    visit node setting c = (do
      let container ← visit array
      let _ ← visit index
      let s ← scope
      return .value (if s.probing then container.ty.element.add .null else container.ty.element) :
        Check Inferred) setting c := by
  have hindex := Rules.below_visit (Node.height_childBy?_lt hnode.index)
  rw [visit_reading hc]
  unfold Rules.apply Rules.logical? Rules.subscript
  rw [hnode.kind]
  simp only [hnode.object, hnode.index, Rules.expr?, Rules.expr, hindex, visit_inField,
    Rules.below_visit (Node.height_childBy?_lt hnode.object), bind_assoc, pure_bind]

theorem visit_bound (hv : node.IsVariable name) (hc : c.scope.assigning = none)
    (hbound : (c.scope.env.get? name).isSome) : ∃ ty, visit node setting c = .ok (.value ty) c := by
  obtain rfl := hv.text
  obtain ⟨ty, hty⟩ := Option.isSome_iff_exists.1 hbound
  have hread : c.scope.read? node.textD = some ty := by rw [Scope.read?, hty, Option.some_or]
  rw [visit_variable_run hv hc]
  exact ⟨ty, bind_run_ok (variableRule_bound hread)⟩

theorem whileProbing_run {α : Type} (m : Check α) : whileProbing m setting c =
    match m setting (c.probing true) with
    | .ok a c' => .ok a (c'.probing c.scope.probing)
    | .error e c' => .error e c' := by
  rw [whileProbing_eq_around]
  rfl

/-- The element is read for its index only. -/
theorem probe_element (hnode : node.Indexes array index) (hv : array.IsVariable name)
    (hc : c.scope.assigning = none) :
    ∃ ty, whileProbing (do return (← visit node).ty) setting c =
      (do
        let _ ← whileProbing (visit index)
        return ty : Check TyUnion) setting c := by
  have hread : visit array setting (c.probing true) = _ := visit_probing hv hc rfl
  refine ⟨(((c.probing true).scope.read? name).getD (.of .null)).element.add .null, ?_⟩
  rw [bind_run, whileProbing_run, whileProbing_run, bind_run,
    visit_subscript hnode (c := c.probing true) hc, bind_run_ok hread, bind_run]
  cases hindex : visit index setting (c.probing true) with
  | error e c₂ => rfl
  | ok result c₂ =>
    have hprobing : c₂.scope.probing = true := (visit_restores hindex).2.1
    dsimp only
    rw [bind_run_ok scope_run, hprobing]
    rfl

theorem probing_assigning {result : Inferred}
    (hrun : whileProbing (visit node) setting c = .ok result c') : c'.scope.assigning = none := by
  rw [whileProbing_run] at hrun
  split at hrun
  · rename_i hvisit
    cases hrun
    exact (visit_assigning hvisit :)
  · cases hrun

theorem dropValue_assigning {u : Unit} (hrun : dropValue setting c = .ok u c') :
    c'.scope.assigning = none := by
  cases hrun
  rfl

theorem foldlM_still {α β : Type} {g : β → α → Check β} {xs : List α}
    (hg : ∀ b, ∀ x ∈ xs, ∃ b', g b x setting c = .ok b' c) (b : β) :
    ∃ b', xs.foldlM g b setting c = .ok b' c := by
  induction xs generalizing b with
  | nil => exact ⟨b, rfl⟩
  | cons x xs ih =>
    obtain ⟨b₁, hfirst⟩ := hg b x List.mem_cons_self
    obtain ⟨b₂, hrest⟩ := ih (fun b y hy => hg b y (List.mem_cons_of_mem _ hy)) b₁
    rw [List.foldlM_cons, bind_run_ok hfirst]
    exact ⟨b₂, hrest⟩

/-- An optional part that is evaluated without effect. -/
theorem expr?_still {r : Rules} {part? : Option Node}
    (hpart : ∀ part, part? = some part → ∃ ty, r.visit part setting c = .ok (.value ty) c) :
    ∃ ty?, r.expr? part? setting c = .ok ty? c := by
  cases part? with
  | none => exact ⟨none, rfl⟩
  | some part =>
    obtain ⟨ty, hty⟩ := hpart part rfl
    unfold Rules.expr? Rules.expr
    simp only [bind_assoc, pure_bind]
    exact ⟨some ty, bind_run_ok hty⟩

theorem arrayElement_still {r : Rules} {element : Node} (es : Rules.Elements)
    (hcopied : element.hasFlag "reference" = false)
    (hkey : ∀ key, element.childBy? "key" = some key →
      ∃ ty, r.visit key setting c = .ok (.value ty) c)
    (hvalue : ∀ value, element.childBy? "value" = some value →
      ∃ ty, r.visit value setting c = .ok (.value ty) c) :
    ∃ es', r.arrayElement es element setting c = .ok es' c := by
  obtain ⟨key, hkey⟩ := expr?_still hkey
  unfold Rules.arrayElement
  rw [bind_run_ok hkey]
  cases hchild : element.childBy? "value" with
  | none => exact ⟨_, rfl⟩
  | some value =>
    obtain ⟨ty, hty⟩ := hvalue value hchild
    simp only [hcopied, Rules.expr, bind_assoc, pure_bind, Bool.false_eq_true, if_false]
    rw [bind_run_ok hty]
    split <;> exact ⟨_, rfl⟩

/-- A literal is evaluated without effect. -/
theorem visit_literal (hnode : node.IsLiteral) (hc : c.scope.assigning = none) :
    ∃ ty, visit node setting c = .ok (.value ty) c := by
  rw [visit_reading hc]
  induction hnode with
  | constant hkind =>
    simp only [List.mem_cons, List.not_mem_nil, or_false] at hkind
    unfold Rules.apply Rules.logical?
    rcases hkind with hkind | hkind | hkind | hkind | hkind | hkind <;> rw [hkind] <;>
      exact ⟨_, rfl⟩
  | @array node hkind hcopied hkeys hvalues ihkeys ihvalues =>
    have hpart : ∀ element ∈ node.positional, ∀ field part, element.childBy? field = some part →
        (Rules.below node.height).visit part = visit part := by
      intro element helement field part hchild
      refine Rules.below_visit (Nat.lt_trans (Node.height_childBy?_lt hchild) ?_)
      exact Node.height_positional_lt helement
    have hstep : ∀ es, ∀ element ∈ node.positional, ∃ es',
        (Rules.below node.height).arrayElement es element setting c = .ok es' c := by
      intro es element helement
      refine arrayElement_still es (hcopied element helement) (fun key hchild => ?_) ?_
      · rw [hpart element helement "key" key hchild, visit_reading hc]
        exact ihkeys element helement key hchild
      · intro value hchild
        rw [hpart element helement "value" value hchild, visit_reading hc]
        exact ihvalues element helement value hchild
    obtain ⟨es, hes⟩ := foldlM_still hstep {}
    unfold Rules.apply Rules.logical? Rules.arrayLiteral
    rw [hkind]
    simp only [bind_assoc, pure_bind]
    exact ⟨_, bind_run_ok hes⟩

/-! ### Runs that end alike -/

/-- Two steps end with the same variables but for some, or neither ends. -/
inductive EndsAlike {α β : Type} (names : List String) :
    EStateM.Result Abort Checker α → EStateM.Result Abort Checker β → Prop
  | ok {a : α} {b : β} {c c' : Checker}
      (agree : ∀ x ∉ names, c.scope.env.get? x = c'.scope.env.get? x) :
      EndsAlike names (.ok a c) (.ok b c')
  | error {x y : Abort} {c c' : Checker} : EndsAlike names (.error x c) (.error y c')

namespace EndsAlike

variable {α β γ : Type} {names : List String} {m : Check α} {f : α → Check β} {g : α → Check γ}

theorem symm {r : EStateM.Result Abort Checker α} {s : EStateM.Result Abort Checker β}
    (h : EndsAlike names r s) : EndsAlike names s r := by
  cases h with
  | ok agree => exact .ok fun x hx => (agree x hx).symm
  | error => exact .error

theorem trans {r : EStateM.Result Abort Checker α} {s : EStateM.Result Abort Checker β}
    {t : EStateM.Result Abort Checker γ} (h : EndsAlike names r s) (h' : EndsAlike names s t) :
    EndsAlike names r t := by
  cases h with
  | ok agree =>
    cases h' with
    | ok agree' => exact .ok fun x hx => (agree x hx).trans (agree' x hx)
  | error =>
    cases h'
    exact .error

theorem mono {names' : List String} {r : EStateM.Result Abort Checker α}
    {s : EStateM.Result Abort Checker β} (h : EndsAlike names r s) (hnames : names ⊆ names') :
    EndsAlike names' r s := by
  cases h with
  | ok agree => exact .ok fun x hx => agree x fun hmem => hx (hnames hmem)
  | error => exact .error

/-- What comes behind a step writes to these variables only. -/
theorem behind (h : ∀ a c₁, m setting c = .ok a c₁ → ∃ b c₂, f a setting c₁ = .ok b c₂ ∧
    ∀ x ∉ names, c₂.scope.env.get? x = c₁.scope.env.get? x) :
    EndsAlike names ((m >>= f) setting c) (m setting c) := by
  rw [bind_run]
  cases hm : m setting c with
  | error => exact .error
  | ok a c₁ =>
    obtain ⟨b, c₂, hf, hagree⟩ := h a c₁ hm
    dsimp only
    rw [hf]
    exact .ok hagree

theorem bind (h : ∀ a c₁, m setting c = .ok a c₁ →
    EndsAlike names (f a setting c₁) (g a setting c₁)) :
    EndsAlike names ((m >>= f) setting c) ((m >>= g) setting c) := by
  rw [bind_run, bind_run]
  cases hm : m setting c with
  | error => exact .error
  | ok a c₁ => exact h a c₁ hm

end EndsAlike

/-- Of the variables, writing an element of an array writes to that array only, once its index
was evaluated. -/
theorem write_element (hnode : node.Indexes array index) (hv : array.IsVariable name)
    (hc : c.scope.assigning = none) (value : TyUnion) :
    EndsAlike [name] (whileAssigning value (visit node) setting c) (visit index setting c) := by
  have hindex := Rules.below_visit (Node.height_childBy?_lt hnode.index)
  rw [whileAssigning_run (by rw [hnode.kind]; rfl) hc]
  unfold Rules.apply Rules.logical? Rules.subscript Rules.container?
  rw [hnode.kind]
  simp only [hnode.object, hnode.index, hv.kind, Rules.expr?, Rules.expr, Rules.assign, hindex,
    visit_inField, Rules.below_visit (Node.height_childBy?_lt hnode.object), bind_assoc, pure_bind]
  refine .behind fun key c₁ hkey => ?_
  have hassigning : c₁.scope.assigning = none := visit_assigning hkey
  have hold : lookup? array.textD setting c₁ = .ok (c₁.scope.env.get? array.textD) c₁ := rfl
  rw [bind_run_ok hold, bind_run_ok (write_run hv hassigning _)]
  refine ⟨_, _, rfl, fun x hx => ?_⟩
  have hne : name ≠ x := fun heq => hx (List.mem_singleton.2 heq.symm)
  exact (Env.get?_set _ _ _ _).trans (if_neg hne)

/-- Writing an element of an element evaluates the first index while reading may fail, and then
once more. -/
theorem write_nested {outer first second : Node} (houter : outer.Indexes node second)
    (hnode : node.Indexes array first) (hv : array.IsVariable name) (hsecond : second.IsLiteral)
    (hc : c.scope.assigning = none) (value : TyUnion) :
    EndsAlike [name] (whileAssigning value (visit outer) setting c) ((do
      let _ ← whileProbing (visit first)
      visit first : Check Inferred) setting c) := by
  obtain ⟨key, hkey⟩ : ∃ ty, visit second setting c = .ok (.value ty) c := visit_literal hsecond hc
  obtain ⟨ty, hprobe⟩ : ∃ ty, whileProbing (do return (← visit node).ty) setting c = _ :=
    probe_element hnode hv hc
  have hindex := Rules.below_visit (Node.height_childBy?_lt houter.index)
  rw [whileAssigning_run (by rw [houter.kind]; rfl) hc]
  unfold Rules.apply Rules.logical? Rules.subscript Rules.container?
  rw [houter.kind]
  simp only [houter.object, houter.index, hnode.kind, Rules.expr?, Rules.probe, Rules.expr,
    Rules.assign, hindex, visit_inField, Rules.below_visit (Node.height_childBy?_lt houter.object),
    bind_assoc, pure_bind]
  -- The key is a literal; what is left of the probe is its index.
  rw [bind_run_ok hkey, bind_run, hprobe, ← bind_run]
  simp only [bind_assoc, pure_bind]
  refine .bind fun result c₁ hfirst => .trans (.behind fun _ c₂ _ => ⟨_, _, rfl, fun _ _ => rfl⟩) ?_
  exact write_element hnode hv (probing_assigning hfirst) _

section

variable {short first second value : Node} {operator : String}

/-- What a literal is written to takes its type. -/
theorem writes_run {target : Node} (hs : short.Writes target value) (hvalue : value.IsLiteral)
    {names : List String} {m : Check Inferred}
    (htarget : ∀ (c : Checker) ty, c.scope.assigning = none →
      EndsAlike names (whileAssigning ty (visit target) setting c) (m setting c)) :
    EndsAlike names (visit short setting c) ((do dropValue; m : Check Inferred) setting c) := by
  obtain ⟨node, hevaluates, hkind, hleft, hright⟩ := hs
  rw [visit_statement hevaluates, visit_assignment hkind hleft hright hvalue.isCall]
  simp only [bind_assoc]
  refine .bind fun _ c₁ hdrop => ?_
  have hassigning : c₁.scope.assigning = none := dropValue_assigning hdrop
  obtain ⟨ty, hty⟩ : ∃ ty, visit value setting _ = .ok (.value ty) _ :=
    visit_literal hvalue hassigning
  rw [bind_run_ok (dropValue_run hassigning), bind_run_ok hty]
  exact .trans (.behind fun _ c₂ _ => ⟨_, _, rfl, fun _ _ => rfl⟩) (htarget c₁ _ hassigning)

/-- `$name[index] = value;` evaluates the index once. -/
theorem setsElement_run (hs : short.SetsElement name first value) (hvalue : value.IsLiteral) :
    EndsAlike [name] (visit short setting c)
      ((do dropValue; visit first : Check Inferred) setting c) := by
  obtain ⟨element, array, hwrites, helement, hv⟩ := hs
  exact writes_run hwrites hvalue fun _ ty hc => write_element helement hv hc ty

/-- `$name[first][second] = value;` evaluates the first index twice. -/
theorem setsNested_run (hs : short.SetsNested name first second value)
    (hsecond : second.IsLiteral) (hvalue : value.IsLiteral) :
    EndsAlike [name] (visit short setting c) ((do
      dropValue
      let _ ← whileProbing (visit first)
      visit first : Check Inferred) setting c) := by
  obtain ⟨outer, inner, array, hwrites, houter, hinner, hv⟩ := hs
  exact writes_run hwrites hvalue fun _ ty hc => write_nested houter hinner hv hsecond hc ty

/-- `$name[index] operator= value;` evaluates the index twice, once it has read the variable. -/
theorem joinsElement_run (hs : short.JoinsElement name first operator value)
    (hother : operator ≠ "??=") (hvalue : value.IsLiteral) :
    ∃ array : Node, array.IsVariable name ∧ EndsAlike [name] (visit short setting c) ((do
      dropValue
      let _ ← visit array
      let _ ← visit first
      visit first : Check Inferred) setting c) := by
  obtain ⟨node, element, array, hevaluates, hkind, hjoins, helement, hv⟩ := hs
  refine ⟨array, hv, ?_⟩
  rw [visit_statement hevaluates, visit_compound hkind hjoins hother]
  simp only [bind_assoc]
  refine .bind fun _ c₁ hdrop => ?_
  have hassigning : c₁.scope.assigning = none := dropValue_assigning hdrop
  rw [bind_run_ok (dropValue_run hassigning), bind_run, visit_subscript helement hassigning,
    ← bind_run]
  simp only [bind_assoc]
  refine .bind fun container c₂ _ => .bind fun result c₃ hfirst => ?_
  have hassigning : c₃.scope.assigning = none := visit_assigning hfirst
  obtain ⟨ty, hty⟩ : ∃ ty, visit value setting _ = .ok (.value ty) _ :=
    visit_literal hvalue hassigning
  rw [bind_run_ok scope_run]
  simp only [pure_bind]
  rw [bind_run_ok hty]
  refine .trans (.behind fun _ c₂ _ => ⟨_, _, rfl, fun _ _ => rfl⟩) ?_
  exact write_element helement hv hassigning _

end

/-! ### The index in a variable of its own -/

/-- The second checker has the variables of the first, but for one that it binds. -/
structure Binds (name : String) (c c' : Checker) : Prop where
  assigning : c'.scope.assigning = none
  bound : (c'.scope.env.get? name).isSome
  others : ∀ x, x ≠ name → c'.scope.env.get? x = c.scope.env.get? x

theorem Binds.of_scope {ty : TyUnion} (hc : c.scope.assigning = none)
    (hscope : c'.scope = c.scope.bind name ty) : Binds name c c' := by
  have hget : ∀ x, c'.scope.env.get? x = if name = x then some ty else c.scope.env.get? x := by
    intro x
    rw [hscope]
    exact Env.get?_set _ _ _ _
  refine ⟨by rw [hscope]; exact hc, ?_, fun x hx => (hget x).trans (if_neg fun heq => hx heq.symm)⟩
  rw [hget, if_pos rfl]
  rfl

/-- What comes behind an assignment starts with the variable written, once its value was
evaluated. -/
theorem behind_assigns {β : Type} {statement value : Node} {names : List String} {m : Check β}
    (hs : statement.Assigns name value)
    (hm : ∀ (result : Inferred) c₁ c₂, Binds name c₁ c₂ →
      EndsAlike names (m setting c₂) (.ok result c₁ : EStateM.Result Abort Checker Inferred)) :
    EndsAlike names ((do
      let _ ← visit statement
      m : Check β) setting c) ((do dropValue; visit value : Check Inferred) setting c) := by
  obtain ⟨node, left, hevaluates, hkind, hleft, hv, hright⟩ := hs
  rw [visit_statement hevaluates, visit_assignment_eq hkind hleft hright, visit_inField]
  simp only [bind_assoc]
  generalize hevaluated : (do dropValue; visit value : Check Inferred) setting c = r
  obtain ⟨_, c₀, hdrop⟩ : ∃ u c₀, dropValue setting c = .ok u c₀ := ⟨_, _, rfl⟩
  have hc₀ : c₀.scope.assigning = none := dropValue_assigning hdrop
  rw [bind_run_ok hdrop] at hevaluated
  rw [bind_run_ok hdrop, bind_run_ok (dropValue_run hc₀), bind_run, hevaluated]
  cases r with
  | error e c₁ => exact .error
  | ok result c₁ =>
    have hassigning : c₁.scope.assigning = none := visit_assigning hevaluated
    have hwrite : ∀ c₂ : Checker, c₂.scope = c₁.scope → ∀ ty,
        whileAssigning ty (visit left) setting c₂ =
          .ok (.value ty) { c₂ with scope := c₂.scope.bind name ty } := fun c₂ hscope ty =>
      write_run hv (hscope ▸ hassigning) ty
    dsimp only
    -- A call that returns nothing is reported, and null is written.
    split
    · simp only [bind_assoc]
      rw [bind_run_ok (report_mild rfl _ _ _)]
      have hscope : (if c₁.muted = 0 then c₁.note (setting.finding .assignmentWithoutValue
          (value.inField "right") "assignment of a call that returns no value") else c₁).scope =
          c₁.scope := by split <;> rfl
      rw [bind_run_ok (hwrite _ hscope _)]
      exact hm result c₁ _ (.of_scope hassigning (congrArg (Scope.bind · name (.of .null)) hscope))
    · simp only [bind_assoc]
      rw [bind_run_ok (hwrite c₁ rfl _)]
      exact hm result c₁ _ (.of_scope hassigning rfl)

theorem reportUndefined_ends {u : Unit} (hrun : reportUndefined name node setting c = .ok u c')
    {x : String} (hx : x ≠ name) : c'.scope.env.get? x = c.scope.env.get? x := by
  unfold reportUndefined at hrun
  obtain ⟨_, c₁, hreport, hrun⟩ := bind_ok hrun
  have hscope : c₁.scope = c.scope := by
    rw [report_mild rfl] at hreport
    cases hreport
    split <;> rfl
  obtain ⟨muted, c₂, hmuted, hrun⟩ := bind_ok hrun
  cases hmuted
  rw [← hscope]
  split at hrun
  · cases hrun
    exact (Env.get?_set _ _ _ _).trans (if_neg fun heq => hx heq.symm)
  · cases hrun
    rfl

/-- Reading a variable leaves the other variables as they are. -/
theorem visit_variable_ends (hv : node.IsVariable name) (hc : c.scope.assigning = none) :
    ∃ ty c', visit node setting c = .ok (.value ty) c' ∧
      ∀ x, x ≠ name → c'.scope.env.get? x = c.scope.env.get? x := by
  obtain ⟨ty, c', hrun, -⟩ : ∃ ty c', visit node setting c = .ok (.value ty) c' ∧ _ :=
    read_run hv hc
  refine ⟨ty, c', hrun, fun x hx => ?_⟩
  obtain rfl := hv.text
  rw [visit_variable_run hv hc] at hrun
  obtain ⟨_, c₁, hrule, hlast⟩ := bind_ok hrun
  cases hlast
  cases hread : c.scope.read? node.textD with
  | some u =>
    rw [variableRule_bound hread] at hrule
    cases hrule
    rfl
  | none =>
    rw [variableRule_unbound hread] at hrule
    split at hrule
    · cases hrule
      rfl
    · split at hrule
      · cases hrule
        rfl
      · obtain ⟨u, c₂, hreport, hrule⟩ := bind_ok hrule
        cases hrule
        exact reportUndefined_ends hreport hx

/-- Where it is bound, a variable can be read as often as one likes. -/
theorem visit_twice (hv : node.IsVariable name) (hc : c.scope.assigning = none)
    (hbound : (c.scope.env.get? name).isSome) :
    (∃ result, whileProbing (visit node) setting c = .ok result c) ∧
      ∃ result, visit node setting c = .ok result c := by
  have hprobe : visit node setting (c.probing true) = _ := visit_probing hv hc rfl
  obtain ⟨ty, hread⟩ : ∃ ty, visit node setting c = .ok (.value ty) c := visit_bound hv hc hbound
  refine ⟨?_, .value ty, hread⟩
  rw [whileProbing_run, hprobe]
  exact ⟨_, rfl⟩

section

variable {begins ends index reader key value : Node} {fresh operator : String}
  (hbegins : begins.Assigns fresh index) (hreader : reader.IsVariable fresh)
  (hvalue : value.IsLiteral)

include hbegins

/-- An index in a variable of its own is evaluated once, if reading it is all that happens. -/
theorem apart_run {m : Check Inferred}
    (hm : ∀ c : Checker, c.scope.assigning = none → (c.scope.env.get? fresh).isSome →
      ∃ result : Inferred, EndsAlike [name] (m setting c) (.ok result c)) :
    EndsAlike [name, fresh] ((do let _ ← visit begins; m : Check Inferred) setting c)
      ((do dropValue; visit index : Check Inferred) setting c) := by
  refine behind_assigns hbegins fun result c₁ c₂ hbinds => ?_
  obtain ⟨read, hrun⟩ := hm c₂ hbinds.assigning hbinds.bound
  have hnames : [name] ⊆ [name, fresh] := List.cons_subset_cons name (List.nil_subset _)
  refine (hrun.mono hnames).trans (.ok fun x hx => hbinds.others x ?_)
  rintro rfl
  exact hx (List.mem_cons_of_mem _ List.mem_cons_self)

include hreader hvalue

theorem setsElement_apart (hends : ends.SetsElement name reader value) :
    EndsAlike [name, fresh] ((do let _ ← visit begins; visit ends : Check Inferred) setting c)
      ((do dropValue; visit index : Check Inferred) setting c) := by
  refine apart_run hbegins fun c₂ hassigning hbound => ?_
  obtain ⟨-, read, hread⟩ : _ ∧ ∃ result, visit reader setting c₂ = .ok result c₂ :=
    visit_twice hreader hassigning hbound
  have hrun : EndsAlike [name] (visit ends setting c₂) _ := setsElement_run hends hvalue
  rw [bind_run_ok (dropValue_run hassigning), hread] at hrun
  exact ⟨read, hrun⟩

theorem setsNested_apart (hkey : key.IsLiteral) (hends : ends.SetsNested name reader key value) :
    EndsAlike [name, fresh] ((do let _ ← visit begins; visit ends : Check Inferred) setting c)
      ((do dropValue; visit index : Check Inferred) setting c) := by
  refine apart_run hbegins fun c₂ hassigning hbound => ?_
  obtain ⟨⟨probed, hprobe⟩, read, hread⟩ : _ ∧ ∃ result, visit reader setting c₂ = .ok result c₂ :=
    visit_twice hreader hassigning hbound
  have hrun : EndsAlike [name] (visit ends setting c₂) _ := setsNested_run hends hkey hvalue
  rw [bind_run_ok (dropValue_run hassigning), bind_run_ok hprobe, hread] at hrun
  exact ⟨read, hrun⟩

theorem joinsElement_apart (hfresh : fresh ≠ name) (hother : operator ≠ "??=")
    (hends : ends.JoinsElement name reader operator value) :
    EndsAlike [name, fresh] ((do let _ ← visit begins; visit ends : Check Inferred) setting c)
      ((do dropValue; visit index : Check Inferred) setting c) := by
  refine apart_run hbegins fun c₂ hassigning hbound => ?_
  obtain ⟨array, hv, hrun⟩ : ∃ array : Node, array.IsVariable name ∧
      EndsAlike [name] (visit ends setting c₂) _ := joinsElement_run hends hother hvalue
  obtain ⟨ty, c₃, harray, hothers⟩ : ∃ ty c', visit array setting c₂ = .ok (.value ty) c' ∧ _ :=
    visit_variable_ends hv hassigning
  -- Reading the array may bind it, but not the variable that holds the index.
  rw [← hothers fresh hfresh] at hbound
  obtain ⟨-, read, hread⟩ : _ ∧ ∃ result, visit reader setting c₃ = .ok result c₃ :=
    visit_twice hreader (visit_assigning harray) hbound
  rw [bind_run_ok (dropValue_run hassigning), bind_run_ok harray, bind_run_ok hread, hread] at hrun
  refine ⟨read, hrun.trans (.ok fun x hx => hothers x ?_)⟩
  rwa [List.mem_singleton] at hx

end

/-- Where the variable is bound, `$name[index] operator= value;` does nothing else. -/
theorem joinsElement_bound {short index value : Node} {operator : String}
    (hs : short.JoinsElement name index operator value) (hother : operator ≠ "??=")
    (hvalue : value.IsLiteral) (hbound : (c.scope.env.get? name).isSome) :
    EndsAlike [name] (visit short setting c) ((do
      dropValue
      let _ ← visit index
      visit index : Check Inferred) setting c) := by
  obtain ⟨array, hv, hrun⟩ : ∃ array : Node, array.IsVariable name ∧
      EndsAlike [name] (visit short setting c) _ := joinsElement_run hs hother hvalue
  obtain ⟨u, c₀, hdrop⟩ : ∃ u c₀, dropValue setting c = .ok u c₀ := ⟨_, _, rfl⟩
  have hassigning : c₀.scope.assigning = none := dropValue_assigning hdrop
  have hbound : (c₀.scope.env.get? name).isSome := by
    cases hdrop
    exact hbound
  obtain ⟨ty, hread⟩ : ∃ ty, visit array setting c₀ = .ok (.value ty) c₀ :=
    visit_bound hv hassigning hbound
  rw [bind_run_ok hdrop, bind_run_ok hread] at hrun
  rwa [bind_run_ok hdrop]

/-- Let `$fresh = index;` stand in front of a statement that uses `$fresh` as the index instead,
and compare which variables are bound then, to which types, but for the array and `$fresh`.
For `$name[index] = value;` that is all the same.  For `$name[index][key] = value;`, and for
`$name[index] operator= value;` where the array is bound, it is so exactly if evaluating the index
a second time changes nothing. -/
theorem index_in_variable {begins index reader key value : Node} {fresh : String}
    (hbegins : begins.Assigns fresh index) (hreader : reader.IsVariable fresh)
    (hfresh : fresh ≠ name) (hkey : key.IsLiteral) (hvalue : value.IsLiteral) :
    let apart (ends : Node) : Check Inferred := do
      let _ ← visit begins
      visit ends
    let once : Check Inferred := do
      dropValue
      visit index
    (∀ short ends : Node, short.SetsElement name index value → ends.SetsElement name reader value →
      EndsAlike [name, fresh] (visit short setting c) (apart ends setting c)) ∧
    (∀ short ends : Node, short.SetsNested name index key value →
      ends.SetsNested name reader key value →
      (EndsAlike [name, fresh] (visit short setting c) (apart ends setting c) ↔
        EndsAlike [name, fresh] ((do
          dropValue
          let _ ← whileProbing (visit index)
          visit index : Check Inferred) setting c) (once setting c))) ∧
    (∀ (short ends : Node) (operator : String), operator ≠ "??=" →
      short.JoinsElement name index operator value → ends.JoinsElement name reader operator value →
      (c.scope.env.get? name).isSome →
      (EndsAlike [name, fresh] (visit short setting c) (apart ends setting c) ↔
        EndsAlike [name, fresh] ((do
          dropValue
          let _ ← visit index
          visit index : Check Inferred) setting c) (once setting c))) := by
  intro apart once
  have hnames : [name] ⊆ [name, fresh] := List.cons_subset_cons name (List.nil_subset _)
  refine ⟨fun short ends hs hends => ?_, fun short ends hs hends => ?_,
    fun short ends operator hother hs hends hbound => ?_⟩
  · have happart : EndsAlike [name, fresh] (apart ends setting c) (once setting c) :=
      setsElement_apart hbegins hreader hvalue hends
    exact ((setsElement_run hs hvalue).mono hnames).trans happart.symm
  · have happart : EndsAlike [name, fresh] (apart ends setting c) (once setting c) :=
      setsNested_apart hbegins hreader hvalue hkey hends
    have hshort : EndsAlike [name, fresh] (visit short setting c) _ :=
      (setsNested_run hs hkey hvalue).mono hnames
    exact ⟨fun h => hshort.symm.trans (h.trans happart),
      fun h => hshort.trans (h.trans happart.symm)⟩
  · have happart : EndsAlike [name, fresh] (apart ends setting c) (once setting c) :=
      joinsElement_apart hbegins hreader hvalue hfresh hother hends
    have hshort : EndsAlike [name, fresh] (visit short setting c) _ :=
      (joinsElement_bound hs hother hvalue hbound).mono hnames
    exact ⟨fun h => hshort.symm.trans (h.trans happart),
      fun h => hshort.trans (h.trans happart.symm)⟩

end

end Check

/-! ### An index that counts -/

namespace Node

/-- `$x++` -/
def counting : Node :=
  .ofKind .postfixUpdateExpression default
    [(leaf .variableName default "x").inField "operand",
      (leaf .operator default "++").inField "operator"]

/-- `array[index]` -/
def elementAt (array index : Node) : Node :=
  .ofKind .subscriptExpression default [array.inField "object", index.inField "index"]

/-- `target = value;` -/
def writing (target value : Node) : Node :=
  (ofKind .assignment default [target.inField "left", value.inField "right"]).asStatement

/-- `$a` -/
def arrayA : Node := leaf .variableName default "a"

/-- `$t` -/
def freshT : Node := leaf .variableName default "t"

/-- `$a[index][0] = 1;` -/
def settingNested (index : Node) : Node :=
  writing (elementAt (elementAt arrayA index) (number "0")) (number "1")

/-- `$a[index] .= 1;` -/
def joiningElement (index : Node) : Node :=
  (ofKind .compoundAssignment default
    [(elementAt arrayA index).inField "left", (leaf .operator default ".").inField "operator",
      (number "1").inField "right"]).asStatement

theorem setsNested_settingNested (index : Node) : (settingNested index).SetsNested "a" index
    (number "0") ((number "1").inField "right") :=
  ⟨_, _, _, ⟨_, ⟨rfl, rfl, rfl⟩, rfl, rfl, rfl⟩, ⟨rfl, rfl, rfl⟩, ⟨rfl, rfl, rfl⟩, ⟨rfl, rfl⟩⟩

theorem joinsElement_joiningElement (index : Node) : (joiningElement index).JoinsElement "a" index
    "." ((number "1").inField "right") :=
  ⟨_, _, _, ⟨rfl, rfl, rfl⟩, rfl, ⟨rfl, rfl, rfl⟩, ⟨rfl, rfl, rfl⟩, ⟨rfl, rfl⟩⟩

theorem assigns_writing (value : Node) : (writing freshT value).Assigns "t" value :=
  ⟨_, _, ⟨rfl, rfl, rfl⟩, rfl, rfl, ⟨rfl, rfl⟩, rfl⟩

end Node

namespace Check

theorem members_int (i : Int64) : (TyUnion.of (.int (some i))).members = [.int (some i)] :=
  TyUnion.members_of (t := .int (some i)) nofun

theorem counting_run {setting : Setting} {c : Checker} {i j : Int64}
    (hc : c.scope.assigning = none) (hread : c.scope.read? "x" = some (.of (.int (some i))))
    (hstep : Ty.stepped true (.int (some i)) = .int (some j)) :
    visit .counting setting c = .ok (.value (.of (.int (some i))))
      { c with scope := c.scope.bind "x" (.of (.int (some j))) } := by
  let operand := (Node.leaf .variableName default "x").inField "operand"
  have hv : operand.IsVariable "x" := ⟨rfl, rfl⟩
  have hkind : Node.counting.kind = .postfixUpdateExpression := rfl
  have hchild : Node.counting.childBy? "operand" = some operand := rfl
  have hoperator : (Node.counting.fieldText? "operator" == some "++") = true := by decide
  have hvisit := Rules.below_visit (Node.height_childBy?_lt hchild)
  have hold : visit operand setting c = .ok (.value (.of (.int (some i)))) c := by
    rw [visit_variable_run hv hc]
    exact bind_run_ok (variableRule_bound hread)
  have hnew : (TyUnion.ofList ((Inferred.value (.of (.int (some i)))).ty.members.map
      (.stepped true))).orElse .mixed = .of (.int (some j)) := by
    rw [Inferred.value, members_int, List.map_singleton, hstep]
    show (TyUnion.of (.int (some j))).orElse .mixed = _
    rw [TyUnion.orElse, TyUnion.isEmpty, members_int]
    rfl
  rw [visit_reading hc]
  unfold Rules.apply Rules.logical? Rules.updateExpression
  rw [hkind]
  simp only [hchild, hoperator, Rules.expr, Rules.assign, hvisit, bind_assoc, pure_bind]
  rw [bind_run_ok hold, hnew, bind_run_ok (write_run hv hc _)]
  rfl

/-- `$a[$x++][0] = 1;` and `$a[$x++] .= 1;` where `$x` is zero. -/
theorem index_in_variable_counting :
    let c := Checker.blank.withEnv
      ((Env.empty.set "x" (.of (.int (some 0)))).set "a" (.of (.list (.of (.int none)))))
    let apart (ends : Node) : Check Inferred := do
      let _ ← visit (.writing .freshT .counting)
      visit ends
    ¬EndsAlike ["a", "t"] (visit (.settingNested .counting) .alone c)
        (apart (.settingNested .freshT) .alone c) ∧
      ¬EndsAlike ["a", "t"] (visit (.joiningElement .counting) .alone c)
        (apart (.joiningElement .freshT) .alone c) := by
  intro c apart
  let counted (i : Int64) : Checker := { c with scope := c.scope.bind "x" (.of (.int (some i))) }
  let again : Checker :=
    { counted 1 with scope := (counted 1).scope.bind "x" (.of (.int (some 2))) }
  have hfirst : visit .counting .alone c = .ok (.value (.of (.int (some 0)))) (counted 1) :=
    counting_run rfl rfl rfl
  have hprobe : whileProbing (visit .counting) .alone c =
      .ok (.value (.of (.int (some 0)))) (counted 1) := by
    rw [whileProbing_run, counting_run (c := c.probing true) (i := 0) (j := 1) rfl rfl rfl]
    rfl
  have hsecond : visit .counting .alone (counted 1) =
      .ok (.value (.of (.int (some 1)))) again := counting_run rfl rfl rfl
  have hdrop : dropValue .alone c = .ok () c := dropValue_run rfl
  have hset : ∀ (s : Scope) ty, (s.bind "x" ty).env.get? "x" = some ty := fun s ty =>
    (Env.get?_set _ _ _ _).trans (if_pos rfl)
  have hnot : ∀ r s : Inferred, ¬EndsAlike ["a", "t"]
      (.ok r again : EStateM.Result Abort Checker Inferred)
      (.ok s (counted 1) : EStateM.Result Abort Checker Inferred) := by
    intro r s hends
    cases hends with
    | ok agree =>
      have hx : some (TyUnion.of (.int (some 2))) = some (.of (.int (some 1))) :=
        (hset _ _).symm.trans ((agree "x" (by decide)).trans (hset _ _))
      have hmembers := congrArg TyUnion.members (Option.some.inj hx)
      rw [members_int, members_int] at hmembers
      simp at hmembers
  have hreader : Node.freshT.IsVariable "t" := ⟨rfl, rfl⟩
  have hkey : (Node.number "0").IsLiteral := .constant (by decide)
  have hvalue : ((Node.number "1").inField "right").IsLiteral := .constant (by decide)
  have hne : "t" ≠ "a" := by decide
  obtain ⟨-, hnested, hjoined⟩ :=
    @index_in_variable .alone c _ _ _ _ _ _ _ (Node.assigns_writing .counting) hreader hne hkey
      hvalue
  refine ⟨?_, ?_⟩
  · rw [hnested _ _ (Node.setsNested_settingNested _) (Node.setsNested_settingNested _),
      bind_run_ok hdrop, bind_run_ok hdrop, bind_run_ok hprobe, hfirst, hsecond]
    exact hnot _ _
  · rw [hjoined _ _ _ (by decide) (Node.joinsElement_joiningElement _)
      (Node.joinsElement_joiningElement _) rfl, bind_run_ok hdrop, bind_run_ok hdrop,
      bind_run_ok hfirst, hfirst, hsecond]
    exact hnot _ _

end Check

end PhpCheck
