import PhpCheck.Proofs.Grammar.InStep.Operators
import PhpCheck.Proofs.Grammar.Reading.Statements

/-!
Statements, in step.

A statement may end with the shared part: it ends with a token that can end something, or with the
block of such a statement.  Behind the block of an `if` or a `try` the statement may go on, but
only with words that do not follow the shared part.
-/

namespace PhpCheck.Grammar

section

variable {B : Bond} {below₁ below₂ : Below} {C : Option TokenKind → Prop}
  (hbelow : below₁.InStep below₂ B)

include hbelow

/-! ### Control flow -/

theorem ifBranches_inStep : InStep B .plain C (ifBranches below₁) (ifBranches below₂) := by
  unfold ifBranches
  refine .loopOn rfl (fun clauses clauses' hclauses => .here fun start start' => ?_)
    fun clauses clauses' hclauses => .pure (by simp [*])
  refine .eatsOn (by decide) ?_ (.eatsOn (by decide) ?_ (.pure (congrArg Round.done hclauses)))
  · refine .bind (parenthesized_inStep hbelow) fun condition condition' hcondition => ?_
    refine .bind (statementAsBlock_inStep hbelow) fun body body' hbody => ?_
    have hclause := @nodeFrom_inStep B .plain Any start start' .elseifClause
      [condition.inField "condition", body.inField "body"]
      [condition'.inField "condition", body'.inField "body"] _ (by simp [*])
    exact .bind hclause fun clause clause' hclause => .pure (by simp [*])
  · refine .bind (statementAsBlock_inStep hbelow) fun body body' hbody => ?_
    have hclause := @nodeFrom_inStep B .plain Any start start' .elseClause
      [body.inField "body"] [body'.inField "body"] _ (by simp [*])
    exact .bind hclause fun clause clause' hclause => .pure (by simp [*])

theorem ifColonBranches_inStep (stops : List TokenKind) :
    InStep B .inside C (ifColonBranches below₁ stops) (ifColonBranches below₂ stops) := by
  unfold ifColonBranches
  refine .loop rfl (fun clauses clauses' hclauses => .here fun start start' => ?_)
    fun clauses clauses' hclauses => .pure (by simp [*])
  refine .eats ?_ (.eats ?_ (.pure (congrArg Round.done hclauses)))
  · refine .bind (parenthesized_inStep hbelow) fun condition condition' hcondition => ?_
    refine .bind (.discard expect_inStep) fun _ _ _ => ?_
    refine .bind (blockUntil_inStep hbelow _) fun body body' hbody => ?_
    have hclause := @nodeFrom_inStep B .inside Any start start' .elseifClause
      [condition.inField "condition", body.inField "body"]
      [condition'.inField "condition", body'.inField "body"] _ (by simp [*])
    exact .bind hclause fun clause clause' hclause => .pure (by simp [*])
  · refine .bind (.discard expect_inStep) fun _ _ _ => ?_
    refine .bind (blockUntil_inStep hbelow _) fun body body' hbody => ?_
    have hclause := @nodeFrom_inStep B .inside Any start start' .elseClause
      [body.inField "body"] [body'.inField "body"] _ (by simp [*])
    exact .bind hclause fun clause clause' hclause => .pure (by simp [*])

theorem ifStatement_inStep : InStep B .ends C (ifStatement below₁) (ifStatement below₂) := by
  unfold ifStatement
  refine .bind expect_inStep fun _ _ _ => ?_
  refine .bind (parenthesized_inStep hbelow) fun condition condition' hcondition => .eats ?_ ?_
  · refine .bind (blockUntil_inStep hbelow _) fun body body' hbody => ?_
    refine .bind (ifColonBranches_inStep hbelow _) fun clauses clauses' hclauses => ?_
    refine .bind (.discard expect_inStep) fun _ _ _ => ?_
    exact .close expectSemicolon_ends fun _ _ _ => nodeFrom_inStep (by simp [*])
  · refine .close (statementAsBlock_inStep hbelow) fun body body' hbody => ?_
    refine .bind (ifBranches_inStep hbelow) fun clauses clauses' hclauses => ?_
    exact nodeFrom_inStep (by simp [*])

theorem whileStatement_inStep :
    InStep B .ends C (whileStatement below₁) (whileStatement below₂) := by
  unfold whileStatement
  refine .bind expect_inStep fun _ _ _ => ?_
  refine .bind (parenthesized_inStep hbelow) fun condition condition' hcondition => ?_
  exact .close (bodyUntil_inStep hbelow _) fun body body' hbody => nodeFrom_inStep (by simp [*])

theorem doWhileStatement_inStep :
    InStep B .ends C (doWhileStatement below₁) (doWhileStatement below₂) := by
  unfold doWhileStatement
  refine .bind expect_inStep fun _ _ _ => ?_
  refine .bind (statementAsBlock_inStep hbelow) fun body body' hbody => ?_
  refine .bind (.discard expect_inStep) fun _ _ _ => ?_
  refine .bind (parenthesized_inStep hbelow) fun condition condition' hcondition => ?_
  exact .close expectSemicolon_ends fun _ _ _ => nodeFrom_inStep (by simp [*])

theorem forClause_inStep (terminator : TokenKind) :
    InStep B .inside C (forClause below₁ terminator) (forClause below₂ terminator) := by
  unfold forClause
  refine .here fun start start' => ?_
  exact .bind (expressionsUntil_inStep hbelow _) fun items items' hitems => nodeFrom_inStep hitems

theorem forStatement_inStep : InStep B .ends C (forStatement below₁) (forStatement below₂) := by
  unfold forStatement
  refine .bind expect_inStep fun _ _ _ => .bind (.discard expect_inStep) fun _ _ _ => ?_
  refine .bind (forClause_inStep hbelow _) fun init init' hinit => ?_
  refine .bind (.discard expect_inStep) fun _ _ _ => ?_
  refine .bind (forClause_inStep hbelow _) fun condition condition' hcondition => ?_
  refine .bind (.discard expect_inStep) fun _ _ _ => ?_
  refine .bind (forClause_inStep hbelow _) fun update update' hupdate => ?_
  refine .bind (.discard expect_inStep) fun _ _ _ => ?_
  exact .close (bodyUntil_inStep hbelow _) fun body body' hbody => nodeFrom_inStep (by simp [*])

theorem foreachStatement_inStep :
    InStep B .ends C (foreachStatement below₁) (foreachStatement below₂) := by
  unfold foreachStatement
  refine .bind expect_inStep fun _ _ _ => .bind (.discard expect_inStep) fun _ _ _ => ?_
  refine .bind (hbelow.expression _) fun subject subject' hsubject => ?_
  refine .bind (.discard expect_inStep) fun _ _ _ => ?_
  refine .bind eat_inStep fun firstRef firstRef' hfirstRef => ?_
  refine .bind (hbelow.expression _) fun first first' hfirst => .ate fun _ => ?_
  extract_lets rest rest'
  have hrest : ∀ {C} {key key' : Option Node} {value value' : Node}
    {reference reference' : Option Token},
      unplaced key = unplaced key' → unplaced value = unplaced value' →
        unplaced reference = unplaced reference' →
          InStep B .ends C (rest (key, value, reference)) (rest' (key', value', reference')) := by
    intro C key key' value value' reference reference' hkey hvalue hreference
    refine .bind (.discard expect_inStep) fun _ _ _ => ?_
    refine .close (bodyUntil_inStep hbelow _) fun body body' hbody => nodeFrom_inStep ?_
    simp [hsubject, hkey, hvalue, hreference, hbody]
  refine .ite (fun _ => ?_) fun _ => .given (hrest rfl hfirst hfirstRef)
  refine .bind eat_inStep fun reference reference' hreference => ?_
  refine .bind (hbelow.expression _) fun value value' hvalue => .given ?_
  exact hrest (congrArg some hfirst) hvalue hreference

theorem switchLabel_inStep : InStep B .inside C (switchLabel below₁) (switchLabel below₂) := by
  unfold switchLabel
  refine .eats ?_ (.eats (.pure rfl) (.unexpected _))
  exact .bind (hbelow.expression _) fun value value' hvalue => .pure (by simp [hvalue])

theorem switchClause_inStep (stops : List TokenKind) :
    InStep B .inside C (switchClause below₁ stops) (switchClause below₂ stops) := by
  unfold switchClause
  refine .here fun start start' => .bind (switchLabel_inStep hbelow) ?_
  rintro ⟨kind, value⟩ ⟨kind', value'⟩ hlabel
  obtain ⟨rfl, hvalue⟩ := Prod.mk.inj hlabel
  have hrest : ∀ {C}, InStep B .inside C
      (statementsUntil below₁ stops >>= fun statements => nodeFrom kind start (value ++ statements))
      (statementsUntil below₂ stops >>= fun statements =>
        nodeFrom kind start' (value' ++ statements)) := by
    refine .bind (statementsUntil_inStep hbelow _) fun nodes nodes' hnodes => nodeFrom_inStep ?_
    rw [unplaced_append, unplaced_append, hnodes]
    exact congrArg (· ++ _) hvalue
  refine .ate fun _ => .ite (fun _ => ?_) fun _ => hrest
  exact .bind (.discard expect_inStep) fun _ _ _ => hrest

theorem switchStatement_inStep :
    InStep B .ends C (switchStatement below₁) (switchStatement below₂) := by
  unfold switchStatement
  refine .bind expect_inStep fun _ _ _ => ?_
  refine .bind (parenthesized_inStep hbelow) fun subject subject' hsubject => .ate fun colon => ?_
  extract_lets close rest rest'
  have hrest : ∀ {C}, InStep B .ends C (rest ()) (rest' ()) := by
    refine .bind (.discard eat_inStep) fun _ _ _ => ?_
    refine .loop rfl (fun clauses clauses' hclauses => ?_) fun clauses clauses' hclauses => ?_
    · refine .test fun _ => .test fun _ =>
        .ite (fun _ => .pure (congrArg Round.done hclauses)) fun _ => ?_
      refine .bind (switchClause_inStep hbelow _) fun clause clause' hclause => .pure ?_
      simp [hclause, hclauses]
    have hnode : ∀ {start start' : Nat}, InStep B .plain Any
        (nodeFrom .switchStatement start (subject.inField "subject" :: clauses.reverse))
        (nodeFrom .switchStatement start' (subject'.inField "subject" :: clauses'.reverse)) :=
      nodeFrom_inStep (by simp [hsubject, hclauses])
    cases colon with
    | true =>
      refine .bind (.discard expect_inStep) fun _ _ _ => ?_
      exact .close expectSemicolon_ends fun _ _ _ => hnode
    | false => exact .close (.discard (expect_ends (by decide))) fun _ _ _ => hnode
  refine .ite (fun _ => ?_) fun _ => hrest
  exact .bind (.discard expect_inStep) fun _ _ _ => hrest

theorem catchClause_inStep : InStep B .ends C (catchClause below₁) (catchClause below₂) := by
  unfold catchClause
  refine .here fun start start' => .bind discard_advance_inStep fun _ _ _ => ?_
  refine .bind (.discard expect_inStep) fun _ _ _ => .here fun typesStart typesStart' => ?_
  refine .bind (separated_inStep qualifiedName_inStep) fun names names' hnames => ?_
  have htypes := @nodeFrom_inStep B .inside Any typesStart typesStart' .nameList names names' _
    hnames
  refine .bind htypes fun types types' htypes => .test fun _ => ?_
  refine .partIf simpleVariable_inStep fun caught caught' hcaught => ?_
  refine .bind (.discard expect_inStep) fun _ _ _ => ?_
  refine .close (braceBlock_inStep hbelow) fun body body' hbody => nodeFrom_inStep ?_
  simp [htypes, hcaught, hbody]

theorem tryStatement_inStep : InStep B .ends C (tryStatement below₁) (tryStatement below₂) := by
  unfold tryStatement
  refine .bind expect_inStep fun _ _ _ => ?_
  refine .close (braceBlock_inStep hbelow) fun body body' hbody => ?_
  refine .loopOn rfl (fun catches catches' hcatches => ?_) fun catches catches' hcatches => ?_
  · refine .branchOn (by decide) ?_ (.pure (congrArg Round.done hcatches))
    refine .bind (catchClause_inStep hbelow) fun clause clause' hclause => .pure ?_
    simp [hclause, hcatches]
  refine .here fun last last' => ?_
  have hnode : ∀ {C} {start start' : Nat} (final final' : List Node),
    unplaced final = unplaced final' →
      InStep B .plain C
        (nodeFrom .tryStatement start (body.inField "body" :: catches.reverse ++ final))
        (nodeFrom .tryStatement start' (body'.inField "body" :: catches'.reverse ++ final')) :=
    fun final final' hfinal => nodeFrom_inStep (by simp [hbody, hcatches, hfinal])
  refine .eatsOn (by decide) ?_ (.given (hnode _ _ rfl))
  refine .bind (braceBlock_inStep hbelow) fun block block' hblock => ?_
  have hfinally := @nodeFrom_inStep B .plain Any last last' .finallyClause
    [block.inField "body"] [block'.inField "body"] _ (by simp [hblock])
  exact .bind hfinally fun clause clause' hclause => .given (hnode _ _ (by simp [hclause]))

theorem declareStatement_inStep :
    InStep B .ends C (declareStatement below₁) (declareStatement below₂) := by
  unfold declareStatement
  refine .bind expect_inStep fun _ _ _ => .bind (.discard expect_inStep) fun _ _ _ => ?_
  refine .bind (separated_inStep (constElement_inStep hbelow))
    fun directives directives' hdirectives => ?_
  refine .bind (.discard expect_inStep) fun _ _ _ => .test fun _ => ?_
  refine .partOr (bodyUntil_inStep hbelow _) expectSemicolon_ends fun body body' hbody => ?_
  exact nodeFrom_inStep (by simp [hdirectives, hbody])

/-! ### Jumps -/

theorem optionalOperand_inStep (field : String) :
    InStep B .inside C (optionalOperand below₁ field) (optionalOperand below₂ field) := by
  unfold optionalOperand
  refine .test fun _ => .test fun _ => .ite (fun _ => .pure rfl) fun _ => ?_
  exact .bind (hbelow.expression _) fun value value' hvalue => .pure (by simp [hvalue])

theorem returnStatement_inStep :
    InStep B .ends C (returnStatement below₁) (returnStatement below₂) := by
  unfold returnStatement
  refine .bind expect_inStep fun _ _ _ => ?_
  refine .bind (optionalOperand_inStep hbelow _) fun value value' hvalue => ?_
  exact .close expectSemicolon_ends fun _ _ _ => nodeFrom_inStep hvalue

theorem loopJump_inStep {kind : NodeKind} :
    InStep B .ends C (loopJump below₁ kind) (loopJump below₂ kind) := by
  unfold loopJump
  refine .here fun start start' => .bind discard_advance_inStep fun _ _ _ => ?_
  refine .bind (optionalOperand_inStep hbelow _) fun depth depth' hdepth => ?_
  exact .close expectSemicolon_ends fun _ _ _ => nodeFrom_inStep hdepth

omit hbelow in
theorem gotoStatement_inStep : InStep B .ends C gotoStatement gotoStatement := by
  unfold gotoStatement
  refine .bind expect_inStep fun _ _ _ => .bind expect_inStep fun label label' hlabel => ?_
  refine .close expectSemicolon_ends fun _ _ _ => nodeFrom_inStep ?_
  simp [(unplaced_token.1 hlabel).2]

omit hbelow in
theorem labelStatement_inStep : InStep B .ends C labelStatement labelStatement := by
  unfold labelStatement
  refine .bind expect_inStep fun label label' hlabel => ?_
  refine .close (.discard (expect_ends (by decide))) fun _ _ _ => nodeFrom_inStep ?_
  simp [(unplaced_token.1 hlabel).2]

/-! ### Namespaces and imports -/

theorem namespaceDefinition_inStep :
    InStep B .ends C (namespaceDefinition below₁) (namespaceDefinition below₂) := by
  unfold namespaceDefinition
  refine .bind expect_inStep fun _ _ _ => .test fun _ => ?_
  refine .partUnless qualifiedName_inStep fun name name' hname => .test fun _ => ?_
  refine .partOr (braceBlock_inStep hbelow) expectSemicolon_ends fun body body' hbody => ?_
  exact nodeFrom_inStep (by simp [hname, hbody])

omit hbelow in
theorem importKind_inStep : InStep B .inside C importKind importKind := by
  unfold importKind
  refine .current (fun s s' hs hs' => ?_) fun s s' tok tok' hs hs' htok => ?_ <;> rw [hs, hs'] <;>
    dsimp only
  · exact .pure rfl
  · obtain ⟨hkind, htext⟩ := unplaced_token.1 htok
    rw [← hkind]
    refine .ite (fun _ => .bind discard_advance_inStep fun _ _ _ => .pure ?_) fun _ => .pure rfl
    simp [htext]

omit hbelow in
theorem importClause_inStep {start start' : Nat} {name name' : Node} {kind kind' : Option Node}
    (hname : unplaced name = unplaced name') (hkind : unplaced kind = unplaced kind') :
    InStep B .inside C (importClause start name kind) (importClause start' name' kind') := by
  unfold importClause
  refine .ate fun _ => .partIf memberName_inStep fun shortName shortName' hshort =>
    nodeFrom_inStep ?_
  simp [hname, hkind, hshort]

omit hbelow in
theorem importGroup_inStep {head head' : Node} (hhead : unplaced head = unplaced head') :
    InStep B .inside C (importGroup head) (importGroup head') := by
  unfold importGroup
  rw [← textD_of_unplaced hhead]
  refine .bind (commaList_inStep fun {_} => ?_) fun clauses clauses' hclauses => ?_
  · refine .here fun start start' => .bind importKind_inStep fun kind kind' hkind => ?_
    refine .bind qualifiedName_inStep fun inner inner' hinner => ?_
    rw [← textD_of_unplaced hinner]
    exact importClause_inStep (by simp) hkind
  · exact .bind (.discard expect_inStep) fun _ _ _ => .pure hclauses

omit hbelow in
theorem useDeclaration_inStep : InStep B .ends C useDeclaration useDeclaration := by
  unfold useDeclaration
  refine .bind expect_inStep fun _ _ _ => .bind importKind_inStep fun kind kind' hkind => ?_
  refine .bind (separated_inStep fun {_} => ?_) fun groups groups' hgroups => ?_
  · refine .here fun start start' => .bind qualifiedName_inStep fun name name' hname => ?_
    refine .guarded (by decide) ?_ (.test fun _ => ?_)
    · refine .bind discard_advance_inStep fun _ _ _ => .bind discard_advance_inStep fun _ _ _ => ?_
      exact importGroup_inStep hname
    · rw [← textD_of_unplaced hname]
      refine .ite (fun _ => .bind discard_advance_inStep fun _ _ _ => importGroup_inStep hname)
        fun _ => ?_
      exact .bind (importClause_inStep hname rfl) fun clause clause' hclause =>
        .pure (by simp [hclause])
  · have hflat : unplaced groups.flatten = unplaced groups'.flatten := by simp [hgroups]
    refine .close expectSemicolon_ends fun _ _ _ => nodeFrom_inStep ?_
    simp only [unplaced_append, unplaced_optField, unplaced_map_inField, hkind, hflat]

/-! ### Simple statements -/

theorem expressionStatement_inStep :
    InStep B .ends C (expressionStatement below₁) (expressionStatement below₂) := by
  unfold expressionStatement
  refine .here fun start start' => .takeDoc fun doc doc' hdoc => ?_
  refine .bind (hbelow.expression _) fun value value' hvalue => ?_
  exact .close expectSemicolon_ends fun _ _ _ => nodeFrom_inStep (by simp [hdoc, hvalue])

theorem echoStatement_inStep {opening : TokenKind} {what : String} :
    InStep B .ends C (echoStatement below₁ opening what) (echoStatement below₂ opening what) := by
  unfold echoStatement
  refine .bind expect_inStep fun _ _ _ =>
    .bind (expressionsUntil_inStep hbelow _) fun values values' hvalues => ?_
  exact .close expectSemicolon_ends fun _ _ _ => nodeFrom_inStep hvalues

omit hbelow in
theorem globalDeclaration_inStep : InStep B .ends C globalDeclaration globalDeclaration := by
  unfold globalDeclaration
  refine .bind expect_inStep fun _ _ _ =>
    .bind (separated_inStep simpleVariable_inStep) fun names names' hnames => ?_
  exact .close expectSemicolon_ends fun _ _ _ => nodeFrom_inStep hnames

theorem staticDeclaration_inStep :
    InStep B .ends C (staticDeclaration below₁) (staticDeclaration below₂) := by
  unfold staticDeclaration
  refine .bind expect_inStep fun _ _ _ => ?_
  refine .bind (separated_inStep (initialized_inStep hbelow)) fun names names' hnames => ?_
  exact .close expectSemicolon_ends fun _ _ _ => nodeFrom_inStep hnames

theorem unsetStatement_inStep :
    InStep B .ends C (unsetStatement below₁) (unsetStatement below₂) := by
  unfold unsetStatement
  refine .bind expect_inStep fun _ _ _ => .bind (.discard expect_inStep) fun _ _ _ => ?_
  refine .bind (expressionsUntil_inStep hbelow _) fun targets targets' htargets => ?_
  refine .bind (.discard expect_inStep) fun _ _ _ => ?_
  exact .close expectSemicolon_ends fun _ _ _ => nodeFrom_inStep htargets

/-! ### Any statement -/

omit hbelow in
/-- The tokens behind the word for a function are asked for only as far as they are shared. -/
theorem atFunctionDeclaration_same {s₁ s₂ : State} (htwin : B.Twin s₁ s₂) (hfree : B.Free s₁)
    (hk : s₁.current.map (·.kind) = some .kwFunction) :
    ∃ x, atFunctionDeclaration B.left s₁ = .ok x s₁ ∧ atFunctionDeclaration B.right s₂ =
      .ok x s₂ := by
  have hclosing : ∀ k, s₁.current.map (·.kind) = some k → k ∉ closing := by
    intro k hk'
    obtain rfl := Option.some.inj (hk.symm.trans hk')
    decide
  have hpeek : ∀ (n : Nat) (src : Source) (s : State),
      peekNth n src s = .ok (State.nthToken? n s.rest) s := fun _ _ _ => rfl
  have hkind : ∀ (src : Source) (s : State),
      peek? src s = .ok ((State.nthToken? 0 s.rest).map (·.kind)) s := fun _ _ => rfl
  have hfirst := htwin.peek hfree hclosing
  have hsecond := htwin.peek_one hfree hclosing
  rw [atFunctionDeclaration, bind_ok (hkind _ _), bind_ok (hkind _ _), ← kind_of_rel hfirst]
  cases hnext : State.nthToken? 0 s₁.rest with
  | none => exact ⟨false, rfl, rfl⟩
  | some t =>
    by_cases hamp : t.kind = .amp
    · have hrel := hsecond fun u hu => by
        rw [hnext] at hu
        rw [← Option.some.inj hu, hamp]
        decide
      rw [Option.map_some, hamp]
      dsimp only
      rw [bind_ok (hpeek 1 _ _), bind_ok (hpeek 1 _ _), ← any_of_rel hrel TokenKind.isMemberName]
      exact ⟨_, rfl, rfl⟩
    · rw [Option.map_some]
      generalize t.kind = kind at hamp
      cases kind <;> first | exact absurd rfl hamp | exact ⟨_, rfl, rfl⟩

omit hbelow in
/-- So are those behind the words in front of a class. -/
theorem atClassDeclaration_same {s₁ s₂ : State} {k : TokenKind} (htwin : B.Twin s₁ s₂)
    (hfree : B.Free s₁)
    (hk : s₁.current.map (·.kind) = some k) (hclosing : k ∉ closing) :
    ∃ x, atClassDeclaration B.left s₁ = .ok x s₁ ∧ atClassDeclaration B.right s₂ = .ok x s₂ := by
  have hclosing' : ∀ k', s₁.current.map (·.kind) = some k' → k' ∉ closing := by
    intro k' hk'
    rwa [← Option.some.inj (hk.symm.trans hk')]
  have hcheck : ∀ (src : Source) (s : State),
      check .kwClass src s = .ok (s.current.map (·.kind) == some .kwClass) s := fun _ _ => rfl
  have hkind : ∀ (src : Source) (s : State),
      peek? src s = .ok ((State.nthToken? 0 s.rest).map (·.kind)) s := fun _ _ => rfl
  rw [atClassDeclaration, bind_ok (hcheck _ _), bind_ok (hcheck _ _), ← htwin.kind hfree]
  by_cases hclass : (s₁.current.map (·.kind) == some .kwClass) = true
  · rw [if_pos hclass, bind_ok (hkind _ _), bind_ok (hkind _ _),
      ← kind_of_rel (htwin.peek hfree hclosing')]
    exact ⟨_, rfl, rfl⟩
  · obtain ⟨ts₁, ts₂, more₁, more₂, hts, hrest₁, hrest₂, hmore⟩ := htwin.ahead hfree hclosing'
    have hsame := modifiersThenClass_same hts hmore
    rw [← hrest₁, ← hrest₂] at hsame
    rw [if_neg hclass]
    exact ⟨modifiersThenClass s₁.rest, rfl, by rw [hsame]; rfl⟩

theorem statement_inStep : InStep B .ends C (statement below₁) (statement below₂) := by
  unfold statement
  have hexpression : ∀ {C},
    InStep B .ends C (expressionStatement below₁) (expressionStatement below₂) :=
    expressionStatement_inStep hbelow
  have hclass : ∀ {k : TokenKind}, k ∉ closing → InStep B .ends (· = some k)
      (atClassDeclaration >>= fun x => if x = true then classDeclaration below₁ else
        expressionStatement below₁)
      (atClassDeclaration >>= fun x => if x = true then classDeclaration below₂ else
        expressionStatement below₂) :=
    fun hk => .ask (fun s₁ s₂ htwin hfree hC => atClassDeclaration_same htwin hfree hC hk)
      fun _ => .ite (fun _ => classDeclaration_inStep hbelow) fun _ => hexpression
  have hpeeks : ∀ {k : TokenKind}, k ∉ closing → ∀ k', (some k') = some k → k' ∉ closing :=
    fun hk k' h => Option.some.inj h ▸ hk
  refine .kind fun kind => ?_
  split
  · exact .unexpected _
  · exact braceBlock_inStep hbelow
  · exact .close (expect_ends (by decide)) fun tok tok' _ => .pure (by simp)
  · exact .close (expect_ends (by decide)) fun tok tok' htok =>
      .pure (by simp [(unplaced_token.1 htok).2])
  · exact echoStatement_inStep hbelow
  · exact ifStatement_inStep hbelow
  · exact whileStatement_inStep hbelow
  · exact doWhileStatement_inStep hbelow
  · exact forStatement_inStep hbelow
  · exact foreachStatement_inStep hbelow
  · exact switchStatement_inStep hbelow
  · exact tryStatement_inStep hbelow
  · exact declareStatement_inStep hbelow
  · exact returnStatement_inStep hbelow
  · exact loopJump_inStep hbelow
  · exact loopJump_inStep hbelow
  · exact gotoStatement_inStep
  · exact .ask (fun s₁ s₂ htwin hfree hC => atFunctionDeclaration_same htwin hfree hC)
      fun _ => .ite (fun _ => functionDefinition_inStep hbelow) fun _ => hexpression
  iterate 4 exact hclass (by decide)
  · exact interfaceDeclaration_inStep hbelow
  · exact traitDeclaration_inStep hbelow
  · exact constDeclaration_inStep hbelow
  · exact .peek (hpeeks (by decide)) fun _ =>
      .ite (fun _ => hexpression) fun _ => namespaceDefinition_inStep hbelow
  · exact useDeclaration_inStep
  · exact echoStatement_inStep hbelow
  · exact globalDeclaration_inStep
  · exact .peek (hpeeks (by decide)) fun _ =>
      .ite (fun _ => staticDeclaration_inStep hbelow) fun _ => hexpression
  · exact unsetStatement_inStep hbelow
  · exact .peek (hpeeks (by decide)) fun _ => .ite (fun _ => labelStatement_inStep) fun _ =>
      hexpression
  · exact hexpression

end

end PhpCheck.Grammar
