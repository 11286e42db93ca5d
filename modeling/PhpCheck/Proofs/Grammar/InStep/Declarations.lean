import PhpCheck.Proofs.Grammar.InStep.Literals

/-!
Blocks, functions, classes and constants, in step.
-/

namespace PhpCheck.Grammar

section

variable {B : Bond} {below₁ below₂ : Below} {C : Option TokenKind → Prop}
  (hbelow : below₁.InStep below₂ B)

include hbelow

/-! ### Blocks -/

theorem statementsUntil_inStep (terminators : List TokenKind) :
    InStep B .inside C (statementsUntil below₁ terminators)
      (statementsUntil below₂ terminators) := by
  unfold statementsUntil
  refine .loop rfl (fun done done' hdone => ?_)
    fun statements statements' h => .pure (by simp [h])
  have hmore : unplaced (Round.more done) = unplaced (Round.more done') := congrArg Round.more hdone
  refine .kind fun kind => ?_
  cases kind with
  | none => exact .pure (congrArg Round.done hdone)
  | some kind =>
    refine .ite (fun _ => .pure (congrArg Round.done hdone)) fun _ => .ite (fun _ => ?_) fun _ => ?_
    · exact .bind discard_advance_inStep fun _ _ _ => .pure hmore
    refine .here fun start start' => .attempt hbelow.statement (fun node node' hnode => .pure ?_)
      fun e s hs => ?_
    · rw [unplaced_more, unplaced_more, unplaced_cons, unplaced_cons, hnode, hdone]
    · have hunknown := unknown_not_known B.left
      refine notes_note e hs (fun s hs => ?_) (errorNode_reads (absurd · hunknown)
        (fun _ _ hG => absurd hG hunknown) (Nat.le_refl _))
      obtain ⟨s', hskip, hstep, -⟩ := synchronize_ok B.left hs
      exact ⟨s', hskip, hstep⟩

theorem blockUntil_inStep (terminators : List TokenKind) :
    InStep B .inside C (blockUntil below₁ terminators) (blockUntil below₂ terminators) := by
  unfold blockUntil
  refine .here fun start start' =>
    .bind (statementsUntil_inStep hbelow _) fun nodes nodes' hnodes => ?_
  exact nodeFrom_inStep hnodes

theorem braceBlock_inStep : InStep B .ends C (braceBlock below₁) (braceBlock below₂) := by
  unfold braceBlock
  refine .bind expect_inStep fun _ _ _ =>
    .bind (statementsUntil_inStep hbelow _) fun nodes nodes' hnodes => ?_
  exact .close (.discard (expect_ends (by decide))) fun _ _ _ => nodeFrom_inStep hnodes

theorem statementAsBlock_inStep :
    InStep B .ends C (statementAsBlock below₁) (statementAsBlock below₂) := by
  unfold statementAsBlock
  refine .close hbelow.statement fun node node' hnode => ?_
  rw [← kind_of_unplaced hnode]
  exact .ite (fun _ => .pure hnode) fun _ => .pure (by simp [hnode])

theorem bodyUntil_inStep (closing : TokenKind) :
    InStep B .ends C (bodyUntil below₁ closing) (bodyUntil below₂ closing) := by
  unfold bodyUntil
  refine .eats ?_ (statementAsBlock_inStep hbelow)
  refine .bind (blockUntil_inStep hbelow _) fun block block' hblock => ?_
  refine .bind (.discard expect_inStep) fun _ _ _ => ?_
  exact .close expectSemicolon_ends fun _ _ _ => .pure hblock

theorem expressionsUntil_inStep (terminators : List TokenKind) :
    InStep B .inside C (expressionsUntil below₁ terminators)
      (expressionsUntil below₂ terminators) := by
  unfold expressionsUntil
  exact commaList_inStep (hbelow.expression _)

theorem parenthesized_inStep :
    InStep B .ends C (parenthesized below₁) (parenthesized below₂) := by
  unfold parenthesized
  refine .bind (.discard expect_inStep) fun _ _ _ =>
    .bind (hbelow.expression _) fun value value' hvalue => ?_
  exact .close (.discard (expect_ends (by decide))) fun _ _ _ => .pure hvalue

/-! ### Functions, constants and properties -/

theorem parameter_inStep : InStep B .inside C (parameter below₁) (parameter below₂) := by
  unfold parameter
  refine .here fun start start' => .bind modifiers_inStep fun words words' hwords => ?_
  refine .test fun _ => .partUnless typeHint_inStep fun type type' htype => ?_
  refine .bind eat_inStep fun reference reference' hreference => ?_
  refine .bind eat_inStep fun variadic variadic' hvariadic => ?_
  refine .bind simpleVariable_inStep fun name name' hname => .ate fun _ => ?_
  refine .partIf (hbelow.expression _) fun default default' hdefault => ?_
  exact nodeFrom_inStep (by simp [*])

theorem parameterList_inStep :
    InStep B .inside C (parameterList below₁) (parameterList below₂) := by
  unfold parameterList
  refine .bind expect_inStep fun _ _ _ =>
    .bind (commaList_inStep (parameter_inStep hbelow)) fun ps ps' hps => ?_
  exact .bind (.discard expect_inStep) fun _ _ _ => nodeFrom_inStep hps

omit hbelow in
theorem returnType_inStep : InStep B .inside C returnType returnType := by
  unfold returnType
  exact .eats (.bind typeHint_inStep fun type type' htype => .pure (by simp [htype])) (.pure rfl)

theorem functionDefinition_inStep :
    InStep B .ends C (functionDefinition below₁) (functionDefinition below₂) := by
  unfold functionDefinition
  refine .here fun start start' => .takeDoc fun doc doc' hdoc => ?_
  refine .bind (.discard expect_inStep) fun _ _ _ =>
    .bind eat_inStep fun reference reference' hreference => ?_
  refine .bind memberName_inStep fun name name' hname => ?_
  refine .bind (parameterList_inStep hbelow) fun ps ps' hps => ?_
  refine .bind returnType_inStep fun result result' hresult => ?_
  refine .close (braceBlock_inStep hbelow) fun body body' hbody => ?_
  exact nodeFrom_inStep (by simp [*])

theorem constElement_inStep : InStep B .inside C (constElement below₁) (constElement below₂) := by
  unfold constElement
  refine .here fun start start' => .bind memberName_inStep fun name name' hname => ?_
  refine .bind (.discard expect_inStep) fun _ _ _ =>
    .bind (hbelow.expression _) fun value value' hvalue => ?_
  exact nodeFrom_inStep (by simp [*])

theorem constDeclaration_inStep :
    InStep B .ends C (constDeclaration below₁) (constDeclaration below₂) := by
  unfold constDeclaration
  refine .here fun start start' => .takeDoc fun doc doc' hdoc =>
    .bind (.discard expect_inStep) fun _ _ _ => ?_
  refine .bind (separated_inStep (constElement_inStep hbelow)) fun elements elements' helements =>
    ?_
  exact .close expectSemicolon_ends fun _ _ _ => nodeFrom_inStep (by simp [*])

theorem initialized_inStep {kind : NodeKind} :
    InStep B .inside C (initialized below₁ kind) (initialized below₂ kind) := by
  unfold initialized
  refine .here fun start start' => .bind simpleVariable_inStep fun name name' hname =>
    .ate fun _ => ?_
  refine .partIf (hbelow.expression _) fun default default' hdefault => ?_
  exact nodeFrom_inStep (by simp [*])

/-! ### Classes -/

omit hbelow in
theorem traitAdaptation_inStep : InStep B .ends C traitAdaptation traitAdaptation := by
  unfold traitAdaptation
  refine .here fun start start' => .bind qualifiedName_inStep fun first first' hfirst =>
    .ate fun _ => ?_
  extract_lets adaptation adaptation'
  have hadaptation : ∀ {C} (found found' : Option Node × Node), unplaced found = unplaced found' →
      InStep B .ends C (adaptation found) (adaptation' found') := by
    rintro C ⟨trait, method⟩ ⟨trait', method'⟩ hfound
    obtain ⟨htrait, hmethod⟩ := Prod.mk.inj hfound
    refine .eats ?_ ?_
    · obtain ⟨rfl, rfl⟩ | ⟨name, name', rfl, rfl, hname⟩ := unplaced_cases htrait
      · exact .spanFrom fun _ _ => .throw _
      · refine .bind nameList_inStep fun names names' hnames => ?_
        exact .close expectSemicolon_ends fun _ _ _ => nodeFrom_inStep (by simp [*])
    · refine .bind (.discard expect_inStep) fun _ _ _ => ?_
      extract_lets named named'
      have hnamed : ∀ {C} (visibility visibility' : List Node),
        unplaced visibility = unplaced visibility' →
          InStep B .ends C (named visibility) (named' visibility') := by
        intro C visibility visibility' hvisibility
        refine .test fun _ => .partUnless memberName_inStep fun newName newName' hnewName => ?_
        exact .close expectSemicolon_ends fun _ _ _ => nodeFrom_inStep (by simp [*])
      refine .current (fun s s' hs hs' => ?_) fun s s' tok tok' hs hs' htok => ?_ <;>
        rw [hs, hs'] <;>
        dsimp only
      · exact .given (hnamed [] [] rfl)
      · obtain ⟨hkind, htext⟩ := unplaced_token.1 htok
        rw [← hkind]
        refine .ite (fun _ => .bind discard_advance_inStep fun _ _ _ => .given ?_) fun _ =>
          .given (hnamed [] [] rfl)
        exact hnamed _ _ (by simp [htext])
  refine .ite (fun _ => .bind memberName_inStep fun name name' hname => ?_) fun _ => .given ?_
  · exact .given (hadaptation (some first, name) (some first', name') (by simp [hfirst, hname]))
  · exact hadaptation (none, first) (none, first') (by simp [hfirst])

omit hbelow in
theorem traitUse_inStep : InStep B .ends C traitUse traitUse := by
  unfold traitUse
  refine .bind expect_inStep fun _ _ _ => .bind nameList_inStep fun traits traits' htraits =>
    .ate fun _ => ?_
  extract_lets rest rest'
  have hrest : ∀ (nodes nodes' : List Node), unplaced nodes = unplaced nodes' →
      InStep B .plain Any (rest nodes) (rest' nodes') :=
    fun nodes nodes' hnodes => nodeFrom_inStep (by simp [*])
  refine .ite (fun _ => ?_) fun _ => .close expectSemicolon_ends fun _ _ _ => .given (hrest _ _ rfl)
  refine .loop rfl (fun found found' hfound => ?_)
    fun found found' hfound => .close (.discard (expect_ends (by decide))) fun _ _ _ =>
      .given (hrest _ _ (by simp [*]))
  refine .test fun _ => .test fun _ => .ite (fun _ => .pure (by simp [*])) fun _ => ?_
  exact .bind traitAdaptation_inStep.inside fun node node' hnode => .pure (by simp [*])

/-- Where the name of a constant must stand there is no token that could end something. -/
theorem constMember_inStep {start start' : Nat} {words words' : List Node} {doc doc' : Option Node}
    (hwords : unplaced words = unplaced words') (hdoc : unplaced doc = unplaced doc') :
    InStep B .inside C (constMember below₁ start words doc)
      (constMember below₂ start' words' doc') := by
  unfold constMember
  refine .bind discard_advance_inStep fun _ _ _ => .peekUnless (fun k s hs hclosing => ?_) fun k =>
    ?_
  · obtain ⟨t, ht, hk⟩ := hclosing
    split
    · have hhere : here B.left s = .ok ((s.current.map (·.span.start)).getD B.left.size) s := rfl
      obtain ⟨e, he⟩ := memberName_closing hs ht hk
      refine ⟨e, s, ?_⟩
      rw [pure_bind]
      refine bind_error ?_
      rw [separated]
      refine bind_error ?_
      rw [constElement]
      exact (bind_ok hhere).trans (bind_error he)
    · obtain ⟨e, s', he⟩ := typeHint_closing hs ht hk
      exact ⟨e, s', bind_error he⟩
  · refine .partUnless typeHint_inStep fun type type' htype => ?_
    refine .bind (separated_inStep (constElement_inStep hbelow)) fun elements elements' helements =>
      ?_
    exact .bind expectSemicolon_ends.inside fun _ _ _ => nodeFrom_inStep (by simp [*])

theorem methodMember_inStep {start start' : Nat} {words words' : List Node} {doc doc' : Option Node}
    (hwords : unplaced words = unplaced words') (hdoc : unplaced doc = unplaced doc') :
    InStep B .inside C (methodMember below₁ start words doc)
      (methodMember below₂ start' words' doc') := by
  unfold methodMember
  refine .bind discard_advance_inStep fun _ _ _ =>
    .bind eat_inStep fun reference reference' hreference => ?_
  refine .bind memberName_inStep fun name name' hname => ?_
  refine .bind (parameterList_inStep hbelow) fun ps ps' hps => ?_
  refine .bind returnType_inStep fun result result' hresult => .test fun _ =>
    .inside (m := .ends) ?_
  refine .partOr (braceBlock_inStep hbelow) expectSemicolon_ends fun body body' hbody => ?_
  exact nodeFrom_inStep (by simp [*])

theorem propertyMember_inStep {start start' : Nat} {words words' : List Node}
    {doc doc' : Option Node}
    (hwords : unplaced words = unplaced words') (hdoc : unplaced doc = unplaced doc') :
    InStep B .inside C (propertyMember below₁ start words doc)
      (propertyMember below₂ start' words' doc') := by
  unfold propertyMember
  refine .test fun _ => .partUnless typeHint_inStep fun type type' htype => ?_
  refine .bind (separated_inStep (initialized_inStep hbelow)) fun elements elements' helements => ?_
  exact .bind expectSemicolon_ends.inside fun _ _ _ => nodeFrom_inStep (by simp [*])

theorem classMember_inStep : InStep B .inside C (classMember below₁) (classMember below₂) := by
  unfold classMember
  refine .eats (.pure rfl) (.branch ?_ ?_)
  · exact .bind traitUse_inStep.inside fun node node' hnode => .pure (congrArg some hnode)
  refine .here fun start start' => .takeDoc fun doc doc' hdoc => ?_
  refine .bind modifiers_inStep fun words words' hwords => .kind fun kind => ?_
  split
  · exact .bind (constMember_inStep hbelow hwords hdoc) fun n n' hn => .pure (congrArg some hn)
  · exact .bind (methodMember_inStep hbelow hwords hdoc) fun n n' hn => .pure (congrArg some hn)
  · exact .currentSpan fun _ _ => .throw _
  · rw [← isEmpty_of_unplaced hwords]
    refine .ite (fun _ => .unexpected_bind _) fun _ => ?_
    exact .bind (propertyMember_inStep hbelow hwords hdoc) fun n n' hn => .pure (congrArg some hn)

theorem classBody_inStep : InStep B .ends C (classBody below₁) (classBody below₂) := by
  unfold classBody
  refine .bind expect_inStep fun _ _ _ => ?_
  refine .loop rfl (fun members members' hmembers => ?_)
    fun members members' hmembers => .close (.discard (expect_ends (by decide))) fun _ _ _ =>
      nodeFrom_inStep (by simp [*])
  refine .test fun _ => .test fun _ => .ite (fun _ => .pure (congrArg Round.done hmembers)) fun _ =>
    ?_
  refine .here fun start start' =>
    .attempt (classMember_inStep hbelow) (fun member member' hmember => ?_)
    fun e s hs => ?_
  · obtain ⟨rfl, rfl⟩ | ⟨n, n', rfl, rfl, hn⟩ := unplaced_cases hmember
    · exact .pure (congrArg Round.more hmembers)
    · exact .pure (by simp [*])
  · have hunknown := unknown_not_known B.left
    refine notes_note e hs (fun s hs => ?_) (errorNode_reads (absurd · hunknown)
      (fun _ _ hG => absurd hG hunknown) (Nat.le_refl _))
    obtain ⟨s', hskip, hstep, -⟩ := synchronizeMember_ok B.left hs
    exact ⟨s', hskip, hstep⟩

omit hbelow in
theorem heritage_inStep : InStep B .inside C heritage heritage := by
  unfold heritage
  refine .ate fun _ => .partIf qualifiedName_inStep fun parent parent' hparent => ?_
  refine .ate fun _ => .partIf nameList_inStep fun interfaces interfaces' hinterfaces => ?_
  exact .pure (by simp [*])

theorem classDeclaration_inStep :
    InStep B .ends C (classDeclaration below₁) (classDeclaration below₂) := by
  unfold classDeclaration
  refine .here fun start start' => .takeDoc fun doc doc' hdoc => ?_
  refine .bind modifiers_inStep fun words words' hwords =>
    .bind (.discard expect_inStep) fun _ _ _ => ?_
  refine .bind memberName_inStep fun name name' hname => ?_
  refine .bind heritage_inStep fun parents parents' hparents => ?_
  exact .close (classBody_inStep hbelow) fun body body' hbody => nodeFrom_inStep (by simp [*])

theorem interfaceDeclaration_inStep :
    InStep B .ends C (interfaceDeclaration below₁) (interfaceDeclaration below₂) := by
  unfold interfaceDeclaration
  refine .here fun start start' => .takeDoc fun doc doc' hdoc =>
    .bind (.discard expect_inStep) fun _ _ _ => ?_
  refine .bind memberName_inStep fun name name' hname => .ate fun _ => ?_
  refine .partIf nameList_inStep fun parents parents' hparents => ?_
  exact .close (classBody_inStep hbelow) fun body body' hbody => nodeFrom_inStep (by simp [*])

theorem traitDeclaration_inStep :
    InStep B .ends C (traitDeclaration below₁) (traitDeclaration below₂) := by
  unfold traitDeclaration
  refine .here fun start start' => .takeDoc fun doc doc' hdoc =>
    .bind (.discard expect_inStep) fun _ _ _ => ?_
  refine .bind memberName_inStep fun name name' hname => ?_
  exact .close (classBody_inStep hbelow) fun body body' hbody => nodeFrom_inStep (by simp [*])

end

end PhpCheck.Grammar
