import PhpCheck.Proofs.Check.Coalescing
import PhpCheck.Proofs.Check.Condition
import PhpCheck.Proofs.Check.Isolation
import PhpCheck.Proofs.Check.Sharing
import PhpCheck.Proofs.Scope.Joining

/-!
`$x = C ? A : B;` and `if (C) { $x = A; } else { $x = B; }`.

Both check `C`, and then the arms that it leaves open, from the same states.  The
expression joins what the arms are worth and writes that to the variable; the statement
writes it in each arm, and joins the environments.  That comes to the same, unless the arms
leave a number that is not equal to itself (`Check.visit_conditional`): where nothing was
written in them, the arms of the expression end in one snapshot, and their join leaves the
number alone, but the arms of the statement never do (`Check.conditional_differs`).
-/

namespace PhpCheck

open Check

/-! ### The statements -/

/-- `$name = value;` -/
def Node.Assigns (statement : Node) (name : String) (value : Node) : Prop :=
  ∃ node left, statement.Evaluates node ∧ node.kind = .assignment ∧
    node.childBy? "left" = some left ∧ left.IsVariable name ∧
    node.childBy? "right" = some (value.inField "right")

/-- `test ? yes : no` -/
structure Node.Chooses (node test yes no : Node) : Prop where
  kind : node.kind = .ternaryExpression
  condition : node.childBy? "condition" = some (test.inField "condition")
  consequence : node.childBy? "consequence" = some (yes.inField "consequence")
  alternative : node.childBy? "alternative" = some (no.inField "alternative")

/-- `{ statement }` -/
structure Node.Encloses (block statement : Node) : Prop where
  kind : block.kind = .block
  statements : block.positional = [statement]

/-- `if (test) { yes } else { no }` -/
structure Node.Branches (node test yes no : Node) : Prop where
  kind : node.kind = .ifStatement
  condition : node.childBy? "condition" = some (test.inField "condition")
  body : ∃ body, node.childBy? "body" = some body ∧ body.Encloses yes
  alternative : ∃ clause body, node.childrenBy "alternative" = [clause] ∧
    clause.childBy? "condition" = none ∧ clause.childBy? "body" = some body ∧ body.Encloses no

/-! ### Steps along the arms -/

namespace Check

/-- Takes a step in an environment, if there is a way to it. -/
def arm {α : Type} (taken : Bool) (e : Env) (m : Check α) : Check (List α) := do
  if taken then
    setEnv e
    return [← m]
  else return []

/-- Checks a condition, and takes a step for each outcome that is possible. -/
def fork {α : Type} (test : Node) (yes no : Check α) : Check (List α) := do
  let b ← condition test
  let first ← arm (b.known? != some false) b.split.yes yes
  let second ← arm (b.known? != some true) b.split.no no
  return first ++ second

/-- What a node is worth, and the environment behind it. -/
def evaluated (node : Node) : Check (TyUnion × Env) := do
  let ty := (← visit node).ty
  return (ty, ← env)

/-- The environment behind a node that is written to a target. -/
def written (left node : Node) : Check Env := do
  let ty := (← visit node).ty
  let _ ← whileAssigning ty (visit left)
  env

/-- What the arms of a choice are worth, and the environments behind them. -/
def arms (test yes no : Node) : Check (List (TyUnion × Env)) := do
  dropValue
  fork test (evaluated yes) (evaluated no)

/-- The environments behind the arms of a choice that are written to targets. -/
def writtenArms (test yes no left left' : Node) : Check (List Env) := do
  dropValue
  fork test (do dropValue; written left yes) (do dropValue; written left' no)

theorem dropValue_bind {α : Type} (m : Check α) :
    (do dropValue; dropValue; m) = (do dropValue; m) := rfl

section

variable {statement node value test yes no : Node} {name : String}

theorem visit_assigns (hs : statement.Assigns name value) (hcall : value.kind.isCall = false) :
    ∃ left, left.IsVariable name ∧ visit statement = (do
      dropValue
      let ty := (← visit value).ty
      let _ ← whileAssigning ty (visit left)
      return .statement .normal) := by
  obtain ⟨node, left, hevaluates, hkind, hleft, hv, hright⟩ := hs
  refine ⟨left, hv, ?_⟩
  rw [visit_statement hevaluates, visit_assignment hkind hleft hright hcall, visit_inField]
  simp only [bind_assoc, pure_bind]
  exact dropValue_bind _

/-- The expression joins what the arms are worth. -/
theorem visit_chooses (hnode : node.Chooses test yes no) : visit node = (do
      let ways ← arms test yes no
      return .value (← meet ways)) := by
  have htest : (test.inField "condition").height < node.height :=
    Node.height_childBy?_lt hnode.condition
  have hyes : (yes.inField "consequence").height < node.height :=
    Node.height_childBy?_lt hnode.consequence
  have hno : (no.inField "alternative").height < node.height :=
    Node.height_childBy?_lt hnode.alternative
  rw [visit_eq (by rw [hnode.kind]; rfl)]
  unfold Rules.apply Rules.logical?
  rw [hnode.kind]
  simp only [Rules.ternaryExpression_eq hnode.condition hnode.alternative, Rules.consequence,
    hnode.consequence, Rules.expr, Rules.below_condition htest, Rules.below_visit hyes,
    Rules.below_visit hno, condition_inField, visit_inField]
  have hway : ∀ taken e n, way taken e (do return (← visit n).ty) = arm taken e (evaluated n) := by
    intro taken e n
    unfold way arm evaluated
    cases taken
    · rfl
    · simp only [if_true, bind_assoc, pure_bind]
  unfold arms fork
  simp only [hway, bind_assoc, pure_bind]

/-- Statements that are worth nothing and go on. -/
theorem visit_encloses {block : Node} (hblock : block.Encloses statement) : visit block = (do
      dropValue
      return .statement (← visit statement).flow) := by
  have hstatement : statement.height < block.height :=
    Node.height_positional_lt (hblock.statements ▸ List.mem_singleton_self statement)
  rw [visit_eq (by rw [hblock.kind]; rfl)]
  unfold Rules.apply Rules.logical? Rules.block Rules.statements
  rw [hblock.kind, hblock.statements]
  simp [Rules.below_visit hstatement, Flow.isNormal]

/-- An arm of the statement writes to the variable, and goes on. -/
theorem visit_writes {block : Node} (hblock : block.Encloses statement)
    (hs : statement.Assigns name value) (hcall : value.kind.isCall = false) :
    ∃ left, left.IsVariable name ∧ ∀ {α : Type} (next : Inferred → Env → Check α),
      (do
        let result ← visit block
        let e ← env
        next result e) = (do
          let e ← (do dropValue; written left value)
          next (.statement .normal) e) := by
  obtain ⟨left, hv, hvisit⟩ := visit_assigns hs hcall
  refine ⟨left, hv, fun next => ?_⟩
  rw [visit_encloses hblock, hvisit]
  unfold written
  simp only [bind_assoc, pure_bind, Inferred.statement]
  exact dropValue_bind _

/-- The statement joins the environments in which the arms have written to the variable. -/
theorem visit_branches {writesYes writesNo : Node} (hnode : node.Branches test writesYes writesNo)
    (hyes : writesYes.Assigns name yes) (hno : writesNo.Assigns name no)
    (hyescall : yes.kind.isCall = false) (hnocall : no.kind.isCall = false) :
    ∃ left left', left.IsVariable name ∧ left'.IsVariable name ∧ visit node = (do
      let exits ← writtenArms test yes no left left'
      Rules.joinPaths exits
      return .statement .normal) := by
  obtain ⟨body, hbody, hfirst⟩ := hnode.body
  obtain ⟨clause, body', hclause, hlast, hbody', hsecond⟩ := hnode.alternative
  obtain ⟨left, hv, hleft⟩ := visit_writes hfirst hyes hyescall
  obtain ⟨left', hv', hright⟩ := visit_writes hsecond hno hnocall
  refine ⟨left, left', hv, hv', ?_⟩
  have htest : (test.inField "condition").height < node.height :=
    Node.height_childBy?_lt hnode.condition
  have hyes : body.height < node.height := Node.height_childBy?_lt hbody
  have hno : body'.height < node.height := Nat.lt_trans (Node.height_childBy?_lt hbody')
    (Node.height_childrenBy_lt (hclause ▸ List.mem_singleton_self clause))
  have harms : Rules.ifArms node = [(some (test.inField "condition"), body), (none, body')] := by
    simp [Rules.ifArms, hnode.condition, hbody, hclause, hlast, hbody']
  rw [visit_eq (by rw [hnode.kind]; rfl)]
  unfold Rules.apply Rules.logical? Rules.ifStatement
  rw [hnode.kind, harms]
  simp only [Rules.checkArms, Rules.below_condition htest, Rules.below_visit hyes,
    Rules.below_visit hno, condition_inField, hleft, hright]
  unfold writtenArms fork arm
  simp only [bind_assoc, pure_bind]
  refine bind_congr fun _ => bind_congr fun b => ?_
  by_cases hno : b.known? = some false
  · simp [hno, Paths.add, Flow.isNormal, Inferred.statement]
  · by_cases hyes : b.known? = some true
    · simp [hyes, Paths.add, Flow.isNormal, Inferred.statement]
    · simp [hno, hyes, Paths.add, Flow.isNormal, Flow.either, Inferred.statement]

end

/-! ### Two ways through the arms -/

/-- Two steps end with the same abort in the same state, or with related values in states that
are the same but for the environments. -/
inductive Parallel {α β : Type} (R : α → β → Prop) :
    EStateM.Result Abort Checker α → EStateM.Result Abort Checker β → Prop
  | ok {a : α} {b : β} {c c' : Checker} (related : R a b) (same : c.SameButEnv c') :
      Parallel R (.ok a c) (.ok b c')
  | error {x : Abort} {c : Checker} : Parallel R (.error x c) (.error x c)

section

variable {α β : Type} {R : α → β → Prop} {m : Check α} {m' : Check β} {setting : Setting}
  {c c' : Checker}

theorem withEnv_eq (hsame : c.SameButEnv c') (e : Env) : c.withEnv e = c'.withEnv e :=
  congrArg (·.withEnv e) hsame

/-- Where nothing is being assigned, the steps are parallel. -/
def ParallelSteps (R : α → β → Prop) (setting : Setting) (m : Check α) (m' : Check β) : Prop :=
  ∀ c, c.scope.assigning = none → Parallel R (m setting c) (m' setting c)

theorem parallel_bind {γ δ : Type} {S : γ → δ → Prop} {f : α → Check γ} {f' : β → Check δ}
    (h : Parallel R (m setting c) (m' setting c'))
    (hf : ∀ a b c₁ c₁', m setting c = .ok a c₁ → R a b → c₁.SameButEnv c₁' →
      Parallel S (f a setting c₁) (f' b setting c₁')) :
    Parallel S ((m >>= f) setting c) ((m' >>= f') setting c') := by
  rw [bind_run, bind_run]
  generalize hrun : m setting c = r at h
  generalize m' setting c' = r' at h
  cases h with
  | ok hab hsame => exact hf _ _ _ _ hrun hab hsame
  | error => exact .error

theorem parallel_arm (h : ParallelSteps R setting m m') (hsame : c.SameButEnv c')
    (hc : c.scope.assigning = none) (taken : Bool) (e : Env) :
    Parallel (List.Forall₂ R) (arm taken e m setting c) (arm taken e m' setting c') := by
  cases taken with
  | false => exact .ok .nil hsame
  | true =>
    have hset : ∀ {γ : Type} (n : Check γ) (c : Checker),
        arm true e n setting c = (do return [← n] : Check (List γ)) setting (c.withEnv e) :=
      fun n c => rfl
    have hrun := h (c.withEnv e) hc
    rw [hset, hset, ← withEnv_eq hsame]
    exact parallel_bind (h (c.withEnv e) hc) fun _ _ _ _ _ hab hsame => .ok (.cons hab .nil) hsame

theorem composite_condition (node : Node) : (condition node).Composite := by
  rw [← Rules.below_condition (Nat.lt_succ_self node.height)]
  exact (Rules.composite_below _).condition node

theorem Composite.assigning {γ : Type} {n : Check γ} (hn : n.Composite) {a : γ}
    (hc : c.scope.assigning = none) (hrun : n setting c = .ok a c') : c'.scope.assigning = none :=
  (hn.keeps setting c a c' hrun).scope.assigning hc

theorem Composite.arm {γ : Type} {n : Check γ} (hn : n.Composite) (taken : Bool) (e : Env) :
    (Check.arm taken e n).Composite := by
  unfold Check.arm
  grind

theorem composite_evaluated (node : Node) : (evaluated node).Composite :=
  .bind (composite_visit node) fun _ => .bind .env fun _ => .pure _

theorem composite_fork {γ : Type} {n n' : Check γ} (hn : n.Composite) (hn' : n'.Composite)
    (test : Node) : (fork test n n').Composite :=
  .bind (composite_condition test) fun _ => .bind (hn.arm _ _) fun _ =>
    .bind (hn'.arm _ _) fun _ => .pure _

/-- Forks with parallel steps are parallel. -/
theorem parallel_fork (h : ParallelSteps R setting m m') {n : Check α} {n' : Check β}
    (hn : ParallelSteps R setting n n') (hm : m.Composite) (test : Node)
    (hc : c.scope.assigning = none) :
    Parallel (List.Forall₂ R) (fork test m n setting c) (fork test m' n' setting c) := by
  unfold fork
  rw [bind_run, bind_run]
  cases hcondition : condition test setting c with
  | error x c₁ => exact .error
  | ok b c₁ =>
    have hc₁ : c₁.scope.assigning = none := (composite_condition test).assigning hc hcondition
    refine parallel_bind (parallel_arm h rfl hc₁ _ _) fun first first' c₂ c₂' hrun hfirst hsame =>
      ?_
    have hc₂ : c₂.scope.assigning = none := (hm.arm _ _).assigning hc₁ hrun
    refine parallel_bind (parallel_arm hn hsame hc₂ _ _) fun second second' _ _ _ hsecond hsame =>
      ?_
    exact .ok (List.rel_append hfirst hsecond) hsame

/-- One outcome is possible at least. -/
theorem fork_length {test : Node} {n : Check α} {xs : List α}
    (hrun : fork test m n setting c = .ok xs c') : xs.length = 1 ∨ xs.length = 2 := by
  have harm : ∀ {taken e c c'} {n : Check α} {xs}, arm taken e n setting c = .ok xs c' →
      xs.length = taken.toNat := by
    intro taken e c c' n xs hrun
    cases taken with
    | false =>
      cases hrun
      rfl
    | true =>
      obtain ⟨_, _, -, hrun⟩ := bind_ok hrun
      obtain ⟨a, _, -, hrun⟩ := bind_ok hrun
      cases hrun
      rfl
  obtain ⟨b, c₁, -, hrun⟩ := bind_ok hrun
  obtain ⟨first, c₂, hfirst, hrun⟩ := bind_ok hrun
  obtain ⟨second, c₃, hsecond, hrun⟩ := bind_ok hrun
  cases hrun
  rw [List.length_append, harm hfirst, harm hsecond]
  rcases b.known? with _ | _ | _ <;> decide

variable {left yes : Node} {name : String}

/-- Behind an arm of the statement the variable has what the arm of the expression is worth. -/
theorem parallel_written (hv : left.IsVariable name) (node : Node) : ParallelSteps
    (fun w e => e.bindings = (w.2.set name w.1).bindings) setting
    (evaluated node) (do dropValue; written left node) := by
  intro c hc
  rw [bind_run_ok (dropValue_run hc)]
  unfold evaluated written
  rw [bind_run, bind_run]
  cases hrun : visit node setting c with
  | error x c₁ => exact .error
  | ok result c₁ =>
    dsimp only
    rw [bind_run_ok (write_run hv (visit_assigning hrun) _)]
    exact .ok rfl rfl

/-- The arms of the expression and of the statement are parallel. -/
theorem parallel_arms {left' no : Node} (hv : left.IsVariable name) (hv' : left'.IsVariable name)
    (test : Node) : Parallel (List.Forall₂ fun w e => e.bindings = (w.2.set name w.1).bindings)
      (arms test yes no setting c) (writtenArms test yes no left left' setting c) :=
  parallel_fork (parallel_written hv yes) (parallel_written hv' no) (composite_evaluated yes) test
    rfl

theorem arms_length {test no : Node} {ways : List (TyUnion × Env)}
    (hways : arms test yes no setting c = .ok ways c') : ways.length = 1 ∨ ways.length = 2 := by
  obtain ⟨_, c₁, -, hfork⟩ := bind_ok hways
  exact fork_length hfork

theorem arms_assigning {test no : Node} {ways : List (TyUnion × Env)}
    (hways : arms test yes no setting c = .ok ways c') : c'.scope.assigning = none := by
  obtain ⟨_, c₁, hdrop, hfork⟩ := bind_ok hways
  cases hdrop
  exact (composite_fork (composite_evaluated yes) (composite_evaluated no) test).assigning rfl hfork

end

/-! ### Sharing -/

section

variable {α : Type} {l : Ledger} {R : Likeness α} {m n : Check α}

theorem agree_condition (node : Node) :
    (condition node).Agree none l Branches.alike (condition node) := by
  rw [← Rules.below_condition (Nat.lt_succ_self node.height)]
  exact (Rules.uniform_below none _).condition node.keeps_none

theorem agree_arm (hm : m.Agree none .blank R m) (taken : Bool) {e f : Env} (he : e.Alike l f) :
    (arm taken e m).Agree none l R.list (arm taken f m) := by
  unfold arm
  refine .ite (fun _ => ?_) fun _ => .pure .nil
  refine (Agree.setEnv he).bind fun l₁ _ _ _ _ => (hm.mono l₁.blank_le).bind fun l₂ _ _ _ ha => ?_
  exact .pure (.cons ha .nil)

theorem agree_fork (hm : m.Agree none .blank R m) (hn : n.Agree none .blank R n) (test : Node) :
    (fork test m n).Agree none l R.list (fork test m n) := by
  unfold fork
  refine (agree_condition test).bind fun l₁ b b' _ hb => ?_
  rw [hb.known?_eq]
  refine (agree_arm hm _ hb.split.yes).bind fun l₂ _ _ hl₂ hfirst => ?_
  refine (agree_arm hn _ (hb.split.no.mono hl₂)).bind fun l₃ _ _ hl₃ hsecond => .pure ?_
  exact List.rel_append (R.list.mono hl₃ hfirst) hsecond

theorem agree_evaluated (node : Node) : (evaluated node).Agree none l
    (Likeness.same.prod Env.alike) (evaluated node) :=
  (uniform_visit node.keeps_none).followed fun _ => Agree.env.bind fun _ _ _ _ he =>
    .pure ⟨rfl, he⟩

theorem agree_written (left node : Node) : Check.Agree none l Env.alike
    (do dropValue; written left node) (do dropValue; written left node) := by
  unfold written
  refine Uniform.dropValue.followed fun _ => (uniform_visit node.keeps_none).followed fun _ => ?_
  exact (Uniform.whileAssigning _ (uniform_visit left.keeps_none)).followed fun _ => Agree.env

theorem agree_arms (test yes no : Node) :
    (arms test yes no).Agree none l Rules.Uniform.ways (arms test yes no) :=
  Uniform.dropValue.followed fun _ => agree_fork (agree_evaluated yes) (agree_evaluated no) test

theorem agree_writtenArms (test yes no left left' : Node) :
    (writtenArms test yes no left left').Agree none l Env.alike.list
      (writtenArms test yes no left left') :=
  Uniform.dropValue.followed fun _ =>
    agree_fork (agree_written left yes) (agree_written left' no) test

end

end Check

/-! ### Where the arms meet -/

namespace Env

variable {l l' : Ledger} {name : String}

theorem get?_of_bindings_eq {e other : Env} (h : e.bindings = other.bindings) (x : String) :
    e.get? x = other.get? x := congrArg (Table.get? · x) h

theorem WellFormed.set {e : Env} (he : e.WellFormed) (name : String) {ty : TyUnion}
    (hty : ty.WellFormed) : (e.set name ty).WellFormed := by
  intro x u hu
  rw [get?_set] at hu
  split at hu
  · cases hu
    exact hty
  · exact he x u hu

theorem WellFormed.of_bindings_eq {e other : Env} (hother : other.WellFormed)
    (h : e.bindings = other.bindings) : e.WellFormed :=
  fun x u hu => hother x u (get?_of_bindings_eq h x ▸ hu)

theorem WellFormed.joinTypes {e other : Env} (he : e.WellFormed) (hother : other.WellFormed)
    (x : String) : ∀ u, PhpCheck.joinTypes (e.get? x) (other.get? x) = some u → u.WellFormed := by
  intro u hu
  cases hold : e.get? x with
  | none =>
    rw [hold] at hu
    exact hother x u hu
  | some old =>
    cases hnew : other.get? x with
    | none =>
      rw [hold, hnew] at hu
      cases hu
      exact he x _ hold
    | some new =>
      rw [hold, hnew] at hu
      cases hu
      unfold TyUnion.extend
      split
      · exact he x _ hold
      · exact (he x _ hold).union (hother x new hnew)

theorem rel_same_self {o : Option TyUnion} (ho : ∀ u, o = some u → u.WellFormed) :
    Option.Rel (fun u v => u.same v = true) o o := by
  cases o with
  | none => exact .none
  | some u => exact .some (ho u rfl).same_self

/-- Ways that are worth something lead to `e`, and those on which that was written to a variable
lead to `e'`. -/
structure Meeting (name : String) (ways : List (TyUnion × Env)) (exits : List Env)
    (e e' : Env) : Prop where
  written : List.Forall₂ (fun w e => e.bindings = (w.2.set name w.1).bindings) ways exits
  length : ways.length = 1 ∨ ways.length = 2
  shared : ∃ l, Rules.Uniform.ways.rel l ways ways
  shared' : ∃ l, List.Forall₂ (Env.Alike l) exits exits
  joined : joinAll? (ways.map (·.2)) = some e
  joined' : joinAll? exits = some e'

theorem joinAll?_of_ne_nil {envs : List Env} (henvs : envs ≠ []) : ∃ e, joinAll? envs = some e := by
  cases envs with
  | nil => exact absurd rfl henvs
  | cons e envs => exact ⟨_, rfl⟩

/-- What some ways are worth together. -/
def worth (ways : List (TyUnion × Env)) : TyUnion :=
  ways.foldl (fun result w => result.union w.1) .empty

/-- Ways that write what they are worth to a variable meet in the environment in which it has
what all of them are worth. -/
theorem Meeting.agrees {ways : List (TyUnion × Env)} {exits : List Env} {e e' : Env}
    (h : Meeting name ways exits e e') (hplain : ∀ w ∈ ways, w.1.WellFormed ∧ w.2.WellFormed) :
    (e.set name (worth ways)).Agrees e' := by
  obtain ⟨hwritten, hlength, ⟨l, hways⟩, ⟨l', hexits⟩, hjoined, hjoined'⟩ := h
  cases hwritten with
  | nil => simp at hlength
  | @cons w f ways exits hw hwritten =>
    obtain ⟨⟨hty, henv⟩, hplain⟩ := List.forall_mem_cons.1 hplain
    cases hwritten with
    | nil =>
      cases hjoined
      cases hjoined'
      intro x
      show Option.Rel _ ((w.2.set name (TyUnion.empty.union w.1)).get? x) (f.get? x)
      rw [hty.empty_union, get?_of_bindings_eq hw]
      exact rel_same_self ((henv.set name hty) x)
    | @cons w₁ f₁ ways exits hw₁ hwritten =>
      cases hwritten with
      | cons _ _ => simp at hlength
      | nil =>
        cases hjoined
        cases hjoined'
        intro x
        obtain ⟨⟨hty₁, henv₁⟩, -⟩ := List.forall_mem_cons.1 hplain
        have hways := List.forall₂_same.1 hways
        have hexits := List.forall₂_same.1 hexits
        have hget := get?_merge_of_sharing henv
          ((hways w (by simp)).2.bindings_eq (hways w₁ (by simp)).2) x
        have hget' := get?_merge_of_sharing ((henv.set name hty).of_bindings_eq hw)
          ((hexits f (by simp)).bindings_eq (hexits f₁ (by simp))) x
        show Option.Rel _ (((w.2.merge w₁.2).set name
          ((TyUnion.empty.union w.1).union w₁.1)).get? x) ((f.merge f₁).get? x)
        rw [hget', get?_of_bindings_eq hw, get?_of_bindings_eq hw₁, hty.empty_union, get?_set,
          get?_set, get?_set, hget]
        by_cases hname : name = x
        · rw [if_pos hname, if_pos hname, if_pos hname]
          exact .some (hty.union_same_extend hty₁)
        · rw [if_neg hname, if_neg hname, if_neg hname]
          exact rel_same_self (henv.joinTypes henv₁ x)

/-- Two ways that part from one snapshot meet in it, and leave what it holds alone.  But where
different types were written to a variable, what the others have is joined with itself. -/
theorem Meeting.not_agrees {a b u ty : TyUnion} {e₀ e e' : Env} {exits : List Env} {x : String}
    (h : Meeting name [(a, e₀), (b, e₀)] exits e e') (hne : a ≠ b)
    (htaken : e₀.snapshot.isSome = true) (hx : name ≠ x) (hu : e₀.get? x = some u)
    (hodd : ∀ v, u.same v = false) : ¬(e.set name ty).Agrees e' := by
  obtain ⟨hwritten, -, -, ⟨l, hshared⟩, hjoined, hjoined'⟩ := h
  obtain ⟨f, rest, hf, hrest, rfl⟩ := List.forall₂_cons_left_iff.1 hwritten
  obtain ⟨f', rest, hf', hnil, rfl⟩ := List.forall₂_cons_left_iff.1 hrest
  cases hnil
  cases hjoined
  cases hjoined'
  have hget : ∀ {f : Env} {ty : TyUnion}, f.bindings = (e₀.set name ty).bindings →
      f.get? name = some ty ∧ f.get? x = some u := by
    intro f ty hf
    rw [get?_of_bindings_eq hf, get?_of_bindings_eq hf, get?_set, get?_set, if_pos rfl, if_neg hx]
    exact ⟨rfl, hu⟩
  have hnew : f.isSnapshotOf f' = false := by
    refine Bool.eq_false_iff.2 fun hsame => hne ?_
    have hshared := List.forall₂_same.1 hshared
    have heq := get?_of_bindings_eq ((hshared f (by simp)).bindings_eq (hshared f' (by simp)) hsame)
      name
    rw [(hget hf).1, (hget hf').1] at heq
    exact Option.some.inj heq
  intro hagrees
  have hrel : Option.Rel (fun u v => u.same v = true)
    (((e₀.merge e₀).set name ty).get? x) ((f.merge f').get? x) := hagrees x
  rw [merge_self htaken, get?_set, if_neg hx, get?_merge hnew, (hget hf).2, (hget hf').2,
    hu] at hrel
  cases hrel with
  | some hsame => exact Bool.false_ne_true ((hodd _).symm.trans hsame)

end Env

/-! ### The two statements -/

namespace Check

/-- Two ways to check end with the same abort in the same state, or with the same result in
states that are the same but for the environments, which have the same variables with equal
types. -/
inductive SameEnd :
    EStateM.Result Abort Checker Inferred → EStateM.Result Abort Checker Inferred → Prop
  | ok {result : Inferred} {c c' : Checker} (same : c.SameButEnv c')
      (agrees : c.scope.env.Agrees c'.scope.env) : SameEnd (.ok result c) (.ok result c')
  | error {x : Abort} {c : Checker} : SameEnd (.error x c) (.error x c)

section

variable {short long choice test yes no writesYes writesNo : Node} {name : String}
  {setting : Setting} {c : Checker}

theorem visit_chosen (hshort : short.Assigns name choice) (hchoice : choice.Chooses test yes no) :
    ∃ left, left.IsVariable name ∧ visit short = (do
      let ways ← arms test yes no
      let ty ← meet ways
      let _ ← whileAssigning ty (visit left)
      return .statement .normal) := by
  obtain ⟨left, hv, hrun⟩ := visit_assigns hshort (by rw [hchoice.kind]; rfl)
  refine ⟨left, hv, ?_⟩
  rw [hrun, visit_chooses hchoice]
  unfold arms
  simp only [bind_assoc, pure_bind, Inferred.value]
  exact dropValue_bind _

variable (hshort : short.Assigns name choice) (hchoice : choice.Chooses test yes no)
  (hlong : long.Branches test writesYes writesNo) (hyes : writesYes.Assigns name yes)
  (hno : writesNo.Assigns name no) (hyescall : yes.kind.isCall = false)
  (hnocall : no.kind.isCall = false)

include hshort hchoice hlong hyes hno hyescall hnocall

/-- If the arms abort, so do both statements. -/
theorem conditional_abort {x : Abort} {c₁ : Checker}
    (harms : arms test yes no setting c = .error x c₁) :
    visit short setting c = .error x c₁ ∧ visit long setting c = .error x c₁ := by
  obtain ⟨left, -, hshortrun⟩ := visit_chosen hshort hchoice
  obtain ⟨left₁, left₂, hv₁, hv₂, hlongrun⟩ := visit_branches hlong hyes hno hyescall hnocall
  have hparallel : Parallel (List.Forall₂ fun w e => e.bindings = (w.2.set name w.1).bindings)
    (arms test yes no setting c) (writtenArms test yes no left₁ left₂ setting c) :=
    parallel_arms hv₁ hv₂ test
  rw [harms] at hparallel
  generalize hwritten : writtenArms test yes no left₁ left₂ setting c = r at hparallel
  cases hparallel
  rw [hshortrun, hlongrun, bind_run, bind_run, harms, hwritten]
  exact ⟨rfl, rfl⟩

/-- If the arms end, both statements write what they are worth and go on. -/
theorem conditional_run (hc : c.Shares) {ways : List (TyUnion × Env)} {c₁ : Checker}
    (hways : arms test yes no setting c = .ok ways c₁) :
    ∃ exits c₁' e e', Env.Meeting name ways exits e e' ∧ c₁.SameButEnv c₁' ∧
      visit short setting c = .ok (.statement .normal) (c₁.withEnv (e.set name (Env.worth ways))) ∧
      visit long setting c = .ok (.statement .normal) (c₁'.withEnv e') := by
  obtain ⟨left, hv, hshortrun⟩ := visit_chosen hshort hchoice
  obtain ⟨left₁, left₂, hv₁, hv₂, hlongrun⟩ := visit_branches hlong hyes hno hyescall hnocall
  have hparallel : Parallel (List.Forall₂ fun w e => e.bindings = (w.2.set name w.1).bindings)
    (arms test yes no setting c) (writtenArms test yes no left₁ left₂ setting c) :=
    parallel_arms hv₁ hv₂ test
  rw [hways] at hparallel
  generalize hexits : writtenArms test yes no left₁ left₂ setting c = r at hparallel
  cases hparallel with
  | @ok _ exits _ c₁' hwritten hsame =>
    have hlength : ways.length = 1 ∨ ways.length = 2 := arms_length hways
    obtain ⟨e, hjoined⟩ : ∃ e, Env.joinAll? (ways.map (·.2)) = some e := by
      refine Env.joinAll?_of_ne_nil fun hnil => ?_
      simp [List.map_eq_nil_iff.1 hnil] at hlength
    obtain ⟨e', hjoined'⟩ : ∃ e, Env.joinAll? exits = some e := by
      refine Env.joinAll?_of_ne_nil fun hnil => ?_
      simp [hwritten.length_eq, hnil] at hlength
    have hmeet : meet ways setting c₁ = .ok (Env.worth ways) (c₁.withEnv e) := by
      unfold meet Rules.joinPaths
      rw [hjoined]
      rfl
    have hpaths : Rules.joinPaths exits setting c₁' = .ok () (c₁'.withEnv e') := by
      unfold Rules.joinPaths
      rw [hjoined']
      rfl
    have hassigning : c₁.scope.assigning = none := arms_assigning hways
    have hmeeting : Env.Meeting name ways exits e e' :=
      ⟨hwritten, hlength, (agree_arms test yes no).of_shares hc hways,
        (agree_writtenArms test yes no left₁ left₂).of_shares hc hexits,
        hjoined, hjoined'⟩
    refine ⟨exits, c₁', e, e', hmeeting, hsame, ?_, ?_⟩
    · rw [hshortrun, bind_run_ok hways, bind_run_ok hmeet,
        bind_run_ok (write_run (c := c₁.withEnv e) hv hassigning _)]
      rfl
    · rw [hlongrun, bind_run_ok hexits, bind_run_ok hpaths]
      rfl

/-- If what the arms leave is free of numbers that are not equal to themselves, the expression
and the statement end alike, whatever the condition, the arms and the variable are. -/
theorem visit_conditional (hc : c.Shares)
    (hplain : ∀ ways c', arms test yes no setting c = .ok ways c' → ∀ w ∈ ways,
      w.1.Reachable ∧ ∀ x u, w.2.get? x = some u → u.Reachable) :
    SameEnd (visit short setting c) (visit long setting c) := by
  cases harms : arms test yes no setting c with
  | error x c₁ =>
    obtain ⟨hshortrun, hlongrun⟩ :=
      conditional_abort hshort hchoice hlong hyes hno hyescall hnocall harms
    rw [hshortrun, hlongrun]
    exact .error
  | ok ways c₁ =>
    obtain ⟨exits, c₁', e, e', hmeeting, hsame, hshortrun, hlongrun⟩ :=
      conditional_run hshort hchoice hlong hyes hno hyescall hnocall hc harms
    rw [hshortrun, hlongrun]
    refine .ok hsame (hmeeting.agrees fun w hw => ?_)
    obtain ⟨hty, henv⟩ := hplain ways c₁ harms w hw
    exact ⟨hty.wellFormed, fun x u hu => (henv x u hu).wellFormed⟩

end

end Check

/-! ### A choice behind a number that is not equal to itself -/

namespace Node

/-- `test ? yes : no` -/
def choosing (test yes no : Node) : Node :=
  .ofKind .ternaryExpression default
    [test.inField "condition", yes.inField "consequence", no.inField "alternative"]

/-- `{ statement }` -/
def inBlock (statement : Node) : Node := .ofKind .block default [statement]

/-- `if (test) { yes } else { no }` -/
def branching (test yes no : Node) : Node :=
  .ofKind .ifStatement default [test.inField "condition", yes.inBlock.inField "body",
    (Node.ofKind .elseClause default [no.inBlock.inField "body"]).inField "alternative"]

/-- `eval(code)` -/
def evaluating (code : Node) : Node := .ofKind .evalExpression default [code.inField "value"]

/-- `(target) operand` -/
def casting (target : String) (operand : Node) : Node :=
  .ofKind .castExpression default
    [(Node.leaf .operator default target).inField "type", operand.inField "operand"]

/-- `$y = value` -/
def assigningOther (value : Node) : Node :=
  .ofKind .assignment default
    [(Node.leaf .variableName default "y").inField "left", value.inField "right"]

def number (text : String) : Node := .leaf .integerLiteral default text

theorem assigns_assigning (value : Node) : (assigning value).asStatement.Assigns "x" value :=
  ⟨(assigning value).inField "expression", (leaf .variableName default "x").inField "left",
    ⟨rfl, rfl, rfl⟩, rfl, rfl, ⟨rfl, rfl⟩, rfl⟩

theorem chooses_choosing (test yes no : Node) : (choosing test yes no).Chooses test yes no :=
  ⟨rfl, rfl, rfl, rfl⟩

theorem branches_branching (test : Node) {yes no : Node} (hyes : yes.field = none)
    (hno : no.field = none) : (branching test yes no).Branches test yes no := by
  have hencloses : ∀ {statement : Node} {field : String}, statement.field = none →
      (statement.inBlock.inField field).Encloses statement := by
    intro statement field hfield
    refine ⟨rfl, ?_⟩
    show [statement].filter (·.field.isNone) = [statement]
    simp [hfield]
  exact ⟨rfl, rfl, ⟨yes.inBlock.inField "body", rfl, hencloses hyes⟩,
    (Node.ofKind .elseClause default [no.inBlock.inField "body"]).inField "alternative",
    no.inBlock.inField "body", rfl, rfl, rfl, hencloses hno⟩

end Node

namespace Check

/-- The number that is not equal to itself. -/
def nanType : TyUnion := .of (.float (some .nan))

theorem same_nanType (u : TyUnion) : nanType.same u = false := by
  have hmembers : nanType.members = [.float (some .nan)] := TyUnion.members_of nofun
  refine Bool.eq_false_iff.2 fun hsame => ?_
  obtain ⟨t, -, ht⟩ := (TyUnion.same_iff.1 hsame).2 (.float (some .nan)) (by simp [hmembers])
  obtain ⟨x, -, hx⟩ := Ty.float_same_iff.1 ht
  cases x with
  | none => cases hx
  | some d =>
    have hnan : Double.nan.isNaN = true := by decide
    rw [sameFloat, Double.same, hnan] at hx
    cases hx

/-- `(float) 'nan'` -/
theorem cast_nan :
    (CastTarget.ofText "float").result (.of (.string (some "nan"))) = nanType := by
  have htarget : CastTarget.ofText "float" = .float := by decide +kernel
  have hvalue : (TyUnion.of (.string (some "nan"))).value? = some (.string "nan") := by cbv
  have hread : Double.read? (trimmed "nan".toList) = some .nan := by decide +kernel
  have hcast : (some (Constant.string "nan")).bind (CastTarget.castValue? .float) =
      some (.float (some .nan)) := by
    show some (Ty.float (Double.read? (trimmed "nan".toList))) = _
    rw [hread]
  rw [htarget, CastTarget.result, hvalue, hcast]
  rfl

section

variable {setting : Setting} {c c₁ : Checker} {code operand : Node} {result : Inferred}

theorem visit_casting (target : String) (operand : Node) : visit (.casting target operand) = (do
      dropValue
      return .value ((CastTarget.ofText target).result (← visit operand).ty)) := by
  let node := Node.casting target operand
  have hoperand : node.childBy? "operand" = some (operand.inField "operand") := rfl
  have htarget : (node.fieldText? "type").getD "" = target := rfl
  have hkind : node.kind = .castExpression := rfl
  show visit node = _
  rw [visit_eq (by rw [hkind]; rfl)]
  unfold Rules.apply Rules.logical? Rules.castExpression Rules.expr? Rules.expr
  rw [hkind, hoperand, htarget]
  simp only [Rules.below_visit (Node.height_childBy?_lt hoperand), visit_inField, bind_assoc,
    pure_bind, Option.getD_some]

/-- `$y` becomes the number that is not equal to itself. -/
theorem visit_assigningNaN (hc : c.scope.assigning = none) :
    visit (.assigningOther (.casting "float" (.leaf .stringLiteral default "nan"))) setting c =
      .ok (.value nanType) { c with scope := c.scope.bind "y" nanType } := by
  let text := Node.leaf .stringLiteral default "nan"
  let node := Node.assigningOther (.casting "float" text)
  let left := (Node.leaf .variableName default "y").inField "left"
  have hvalue : visit (.casting "float" text) setting c = .ok (.value nanType) c := by
    have hrun : visit text setting c =
        .ok (.value (.of (.string (some "nan")))) c := by
      rw [visit_eq rfl, bind_run_ok (dropValue_run hc)]
      rfl
    rw [visit_casting, bind_run_ok (dropValue_run hc), bind_run_ok hrun, ← cast_nan]
    rfl
  have hleft : node.childBy? "left" = some left := rfl
  have hassign := visit_assignment rfl hleft rfl rfl
  rw [hassign, visit_inField, bind_run_ok (dropValue_run hc), bind_run_ok hvalue]
  exact bind_run_ok (write_run ⟨rfl, rfl⟩ hc nanType)

theorem visit_evaluating (code : Node) : visit (.evaluating code) = (do
      dropValue
      let _ ← visit code
      return .value .mixed) := by
  have hcode : (Node.evaluating code).childBy? "value" = some (code.inField "value") := rfl
  have hkind : (Node.evaluating code).kind = .evalExpression := rfl
  rw [visit_eq (by rw [hkind]; rfl)]
  unfold Rules.apply Rules.logical? Rules.evaluating Rules.expr? Rules.expr
  rw [hkind, hcode]
  simp only [Rules.below_visit (Node.height_childBy?_lt hcode), visit_inField, bind_assoc,
    pure_bind]

/-- Nothing is known of the outcome of `eval(code)`. -/
theorem condition_evaluating (hc : c.scope.assigning = none)
    (hrun : visit code setting c = .ok result c₁) :
    condition (.evaluating code) setting c =
      .ok (.unchanged .mixed (c₁.scope.env.numbered c₁.nextSnapshot))
        { c₁.withEnv (c₁.scope.env.numbered c₁.nextSnapshot) with
          nextSnapshot := c₁.nextSnapshot + 1 } := by
  let e := c₁.scope.env.numbered c₁.nextSnapshot
  have hsplit : split (.evaluating code) = do
      let ty := (← visit (.evaluating code)).ty
      return ⟨ty, splitBy (← hierarchy) (← scope) (← env) (.evaluating code)⟩ := rfl
  have hjoined : (Split.unchanged e).joined = e :=
    Env.merge_self (Option.isSome_or.trans (Bool.or_true _))
  unfold condition
  rw [hsplit, visit_evaluating]
  simp only [bind_assoc]
  rw [bind_run_ok (dropValue_run hc), bind_run_ok hrun]
  show EStateM.Result.ok (Branches.unchanged .mixed e)
    { c₁.withEnv (Split.unchanged e).joined with nextSnapshot := c₁.nextSnapshot + 1 } = _
  rw [hjoined]

/-- Both arms of `eval(code) ? 1 : 2` start and end in one snapshot. -/
theorem arms_evaluating (hc : c.scope.assigning = none)
    (hrun : visit code setting c = .ok result c₁) (hfresh : c₁.scope.env.snapshot = none) :
    let e := c₁.scope.env.numbered c₁.nextSnapshot
    arms (.evaluating code) (.number "1") (.number "2") setting c =
      .ok [(.of (.int (some 1)), e), (.of (.int (some 2)), e)]
        { c₁.withEnv e with nextSnapshot := c₁.nextSnapshot + 3 } := by
  intro e
  have hknown : (Branches.unchanged .mixed e).known? = none := rfl
  unfold arms fork
  rw [bind_run_ok (dropValue_run hc), bind_run_ok (condition_evaluating hc hrun), hknown]
  have hassigning : c₁.scope.assigning = none := visit_assigning hrun
  obtain ⟨session, scope⟩ := c₁
  obtain ⟨⟨bindings, snapshot⟩, names, classContext, isStatic, function, assigning⟩ := scope
  cases hfresh
  cases hassigning
  rfl

end

/-- Where `$y` is an integer, `$x = eval(0) ? 1 : 2;` is checked like the statement. -/
theorem visit_conditional_numbers :
    let c := Checker.blank.withEnv (Env.empty.set "y" (.of (.int none)))
    let one := Node.number "1"
    let two := Node.number "2"
    let test := Node.evaluating (.number "0")
    SameEnd (visit (Node.assigning (.choosing test one two)).asStatement .alone c)
      (visit (.branching test (Node.assigning one).asStatement (Node.assigning two).asStatement)
        .alone c) := by
  intro c one two test
  refine visit_conditional (Node.assigns_assigning _) (Node.chooses_choosing _ _ _)
    (Node.branches_branching test rfl rfl) (Node.assigns_assigning one)
    (Node.assigns_assigning two) rfl rfl (.of_alone rfl rfl) fun ways c' hrun w hw => ?_
  have hcode : visit (.number "0") .alone c = .ok (.value (.of (.int (some 0)))) c := rfl
  rw [arms_evaluating rfl hcode rfl] at hrun
  cases hrun
  have henv : ∀ x u, (c.scope.env.numbered 0).get? x = some u → u.Reachable := by
    intro x u hu
    have hget : (Env.empty.set "y" (.of (.int none))).get? x = some u := hu
    rw [Env.get?_set] at hget
    split at hget
    · cases hget
      exact .add .empty (.int none)
    · cases hget
  rcases List.mem_pair.1 hw with rfl | rfl
  · exact ⟨.add .empty (.int (some 1)), henv⟩
  · exact ⟨.add .empty (.int (some 2)), henv⟩

/-- In front of `$x = eval($y = (float) 'nan') ? 1 : 2;` nothing is bound, and behind it `$y` is
the number that is not equal to itself, but behind the statement it is some number. -/
theorem conditional_differs :
    let one := Node.number "1"
    let two := Node.number "2"
    let test := Node.evaluating
      (.assigningOther (.casting "float" (.leaf .stringLiteral default "nan")))
    Checker.blank.Shares ∧ (∀ x, Checker.blank.scope.env.get? x = none) ∧
      one.kind.isCall = false ∧ two.kind.isCall = false ∧
      ¬SameEnd (visit (Node.assigning (.choosing test one two)).asStatement .alone .blank)
        (visit (.branching test (Node.assigning one).asStatement (Node.assigning two).asStatement)
          .alone .blank) := by
  intro one two test
  refine ⟨.of_alone rfl rfl, fun _ => rfl, rfl, rfl, fun hend => ?_⟩
  have hcode : visit (.assigningOther (.casting "float" (.leaf .stringLiteral default "nan")))
      .alone .blank = .ok (.value nanType) _ := visit_assigningNaN rfl
  have harms := arms_evaluating rfl hcode rfl
  obtain ⟨exits, c₁', e, e', hmeeting, -, hshort, hlong⟩ :=
    conditional_run (c := .blank) (Node.assigns_assigning _) (Node.chooses_choosing _ _ _)
      (Node.branches_branching test rfl rfl) (Node.assigns_assigning one)
      (Node.assigns_assigning two) rfl rfl (.of_alone rfl rfl) harms
  rw [hshort, hlong] at hend
  cases hend with
  | ok _ hagrees =>
    have hne : TyUnion.of (.int (some 1)) ≠ .of (.int (some 2)) := fun heq => by
      have hmembers := congrArg TyUnion.members heq
      rw [TyUnion.members_of (t := .int (some 1)) nofun,
        TyUnion.members_of (t := .int (some 2)) nofun] at hmembers
      cases hmembers
    have hy : (Env.empty.set "y" nanType).get? "y" = some nanType := rfl
    exact hmeeting.not_agrees (x := "y") hne rfl (by decide) hy same_nanType hagrees

end Check

end PhpCheck
