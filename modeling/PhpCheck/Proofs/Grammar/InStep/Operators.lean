import PhpCheck.Proofs.Grammar.InStep.Expressions

/-!
Operators and what they apply to, in step: new objects, unary operators and keywords, and chains
of binary operators.
-/

namespace PhpCheck.Grammar

section

variable {B : Bond} {below₁ below₂ : Below} {C : Option TokenKind → Prop}
  (hbelow : below₁.InStep below₂ B)

include hbelow

/-! ### Objects -/

theorem newClassReference_inStep :
    InStep B .inside C (newClassReference below₁) (newClassReference below₂) := by
  unfold newClassReference
  refine .here fun start start' => .test fun _ => ?_
  extract_lets rest rest'
  have hrest : ∀ first first' : Node, unplaced first = unplaced first' →
      InStep B .inside Any (rest first) (rest' first') := by
    intro first first' hfirst
    refine repeated_inStep hfirst fun value value' hvalue => .branch ?_ (.eats ?_ (.eats ?_ ?_))
    · refine .bind discard_advance_inStep fun _ _ _ => ?_
      exact .bind memberName_inStep fun name name' hname => .more (nodeFrom_inStep (by simp [*]))
    · exact .bind simpleVariable_inStep fun name name' hname =>
        .more (nodeFrom_inStep (by simp [*]))
    · refine .bind (hbelow.expression _) fun index index' hindex => ?_
      exact .bind (.discard expect_inStep) fun _ _ _ => .more (nodeFrom_inStep (by simp [*]))
    · exact .pure (congrArg Round.done hvalue)
  exact .ite (fun _ => .bind (primary_inStep hbelow) hrest) fun _ =>
    .bind simpleVariable_inStep hrest

theorem anonymousClass_inStep :
    InStep B .inside C (anonymousClass below₁) (anonymousClass below₂) := by
  unfold anonymousClass
  refine .here fun start start' => .takeDoc fun doc doc' hdoc => ?_
  refine .bind (.discard expect_inStep) fun _ _ _ => .test fun _ => ?_
  refine .partIf (argumentList_inStep hbelow) fun arguments arguments' harguments => ?_
  refine .bind heritage_inStep fun parents parents' hparents => ?_
  exact .bind (classBody_inStep hbelow) fun body body' hbody => nodeFrom_inStep (by simp [*])

theorem newExpression_inStep :
    InStep B .inside C (newExpression below₁) (newExpression below₂) := by
  unfold newExpression
  refine .bind expect_inStep fun _ _ _ => .branch ?_ (.test fun _ => .test fun _ => ?_)
  · exact .bind (anonymousClass_inStep hbelow) fun declared declared' hdeclared =>
      nodeFrom_inStep (by simp [*])
  extract_lets rest rest'
  have hrest : ∀ named named' : Node, unplaced named = unplaced named' →
      InStep B .inside Any (rest named) (rest' named') := by
    intro named named' hnamed
    refine .test fun _ =>
      .partIf (argumentList_inStep hbelow) fun arguments arguments' harguments => ?_
    exact nodeFrom_inStep (by simp [*])
  refine .ite (fun _ => .bind qualifiedName_inStep hrest) fun _ => .ite (fun _ => ?_) fun _ => ?_
  · exact .bind (parenthesized_inStep hbelow) hrest
  · exact .bind (newClassReference_inStep hbelow) hrest

/-! ### Unary operators and keywords -/

omit hbelow in
/-- The word in parentheses and the token behind it are shared. -/
theorem castHead?_same {s₁ s₂ : State} (htwin : B.Twin s₁ s₂) (hfree : B.Free s₁)
    (hk : s₁.current.map (·.kind) = some .lParen) :
    ∃ found, castHead? B.left s₁ = .ok found s₁ ∧ castHead? B.right s₂ = .ok found s₂ := by
  have hclosing : ∀ k, s₁.current.map (·.kind) = some k → k ∉ closing := by
    intro k hk'
    obtain rfl := Option.some.inj (hk.symm.trans hk')
    decide
  have hpeek : ∀ (n : Nat) (src : Source) (s : State),
      peekNth n src s = .ok (State.nthToken? n s.rest) s := fun _ _ _ => rfl
  have hfirst := htwin.peek hfree hclosing
  have hsecond := htwin.peek_one hfree hclosing
  rw [castHead?, bind_ok (hpeek 0 _ _), bind_ok (hpeek 0 _ _)]
  generalize State.nthToken? 0 s₁.rest = first₁ at hfirst hsecond
  generalize State.nthToken? 0 s₂.rest = first₂ at hfirst
  cases hfirst with
  | none => exact ⟨none, rfl, rfl⟩
  | @some t₁ t₂ ht =>
    dsimp only
    rw [bind_ok (hpeek 1 _ _), bind_ok (hpeek 1 _ _), ← ht.kind, ← ht.text]
    by_cases hword : (t₁.kind == .identifier || t₁.kind == .kwArray) = true
    · have hother : t₁.kind ∉ closing := by
        rcases Bool.or_eq_true_iff.1 hword with h | h <;> rw [beq_iff_eq.1 h] <;> decide
      have hany := any_of_rel (hsecond fun t ht' => Option.some.inj ht' ▸ hother) (· == .rParen)
      rw [← hany]
      split <;> exact ⟨_, rfl, rfl⟩
    · rw [Bool.eq_false_iff.2 hword, Bool.false_and, Bool.false_and]
      exact ⟨none, rfl, rfl⟩

theorem castExpression_inStep (type : String) :
    InStep B .inside C (castExpression below₁ type) (castExpression below₂ type) := by
  unfold castExpression
  refine .here fun start start' => .bind discard_advance_inStep fun _ _ _ => ?_
  refine .bind advance_inStep fun word word' hword => ?_
  refine .bind (.discard expect_inStep) fun _ _ _ => ?_
  extract_lets rest rest'
  have hrest : ∀ {C} (span span' : Span), InStep B .inside C (rest span) (rest' span') := by
    intro C span span'
    refine .bind (hbelow.expression _) fun operand operand' hoperand => ?_
    exact nodeFrom_inStep (by simp [*])
  obtain ⟨rfl, rfl⟩ | ⟨tok, tok', rfl, rfl, -⟩ := unplaced_cases hword
  · exact .currentSpan hrest
  · exact .given (hrest _ _)

theorem yieldExpression_inStep :
    InStep B .inside C (yieldExpression below₁) (yieldExpression below₂) := by
  unfold yieldExpression
  refine .bind expect_inStep fun _ _ _ => .current? fun s s' hcurrent => ?_
  extract_lets isFrom rest isFrom' rest'
  have hfrom : isFrom = isFrom' := by
    obtain ⟨h, h'⟩ | ⟨tok, tok', h, h', htok⟩ := unplaced_cases hcurrent
    · simp only [isFrom, isFrom', h, h', Option.any_none]
    · obtain ⟨hkind, htext⟩ := unplaced_token.1 htok
      simp only [isFrom, isFrom', h, h', Option.any_some, hkind, htext]
  clear_value isFrom isFrom'
  subst hfrom
  refine .test fun _ => .test fun _ => ?_
  have hrest : ∀ {C} (parts parts' : List Node), unplaced parts = unplaced parts' →
      InStep B .inside C (rest parts) (rest' parts') :=
    fun parts parts' hparts => nodeFrom_inStep hparts
  refine .ite (fun _ => ?_) fun _ => .ite (fun _ => .given (hrest _ _ rfl)) fun _ => ?_
  · refine .bind advance_inStep fun word word' hword => ?_
    exact .bind (hbelow.expression _) fun value value' hvalue => .given (hrest _ _ (by simp [*]))
  · refine .bind (hbelow.expression _) fun first first' hfirst => .ate fun _ => ?_
    refine .ite (fun _ => ?_) fun _ => .given (hrest _ _ (by simp [*]))
    exact .bind (hbelow.expression _) fun value value' hvalue => .given (hrest _ _ (by simp [*]))

theorem keywordOperand_inStep {kind : NodeKind} {min : Precedence} :
    InStep B .inside C (keywordOperand below₁ kind min) (keywordOperand below₂ kind min) := by
  unfold keywordOperand
  refine .here fun start start' => .bind discard_advance_inStep fun _ _ _ => ?_
  exact .bind (hbelow.expression _) fun value value' hvalue => nodeFrom_inStep (by simp [*])

theorem operatorOperand_inStep {kind : NodeKind} {min : Precedence} :
    InStep B .inside C (operatorOperand below₁ kind min) (operatorOperand below₂ kind min) := by
  unfold operatorOperand
  refine .here fun start start' => .next (.unexpected _) fun op op' hop => ?_
  refine .bind (hbelow.expression _) fun operand operand' hoperand => ?_
  exact nodeFrom_inStep (by simp [hoperand, (unplaced_token.1 hop).2])

theorem includeExpression_inStep :
    InStep B .inside C (includeExpression below₁) (includeExpression below₂) := by
  unfold includeExpression
  refine .here fun start start' => .next (.unexpected _) fun word word' hword => ?_
  refine .bind (hbelow.expression _) fun value value' hvalue => ?_
  exact nodeFrom_inStep (by simp [hvalue, (unplaced_token.1 hword).2])

theorem unary_inStep : InStep B .inside C (unary below₁) (unary below₂) := by
  unfold unary
  have hchain : ∀ {C}, InStep B .inside C (primary below₁ >>= postfixChain below₁)
      (primary below₂ >>= postfixChain below₂) :=
    .bind (primary_inStep hbelow) fun first first' hfirst => postfixChain_inStep hbelow hfirst
  refine .here fun start start' => .kind fun kind => ?_
  split
  case h_1 => exact .unexpected _
  case h_2 => exact operatorOperand_inStep hbelow
  case h_3 | h_4 | h_5 | h_7 | h_8 => exact operatorOperand_inStep hbelow
  case h_6 =>
    refine .bind discard_advance_inStep fun _ _ _ => ?_
    exact .bind (hbelow.expression _) fun operand operand' hoperand => nodeFrom_inStep (by simp [*])
  case h_9 =>
    refine .ask (fun s₁ s₂ htwin hfree hk => castHead?_same htwin hfree hk) fun found => ?_
    cases found with
    | some type => exact castExpression_inStep hbelow type
    | none => exact hchain
  case h_10 =>
    exact .bind (newExpression_inStep hbelow) fun first first' hfirst =>
      postfixChain_inStep hbelow hfirst
  case h_11 | h_12 | h_13 => exact keywordOperand_inStep hbelow
  case h_14 | h_15 | h_16 | h_17 => exact includeExpression_inStep hbelow
  case h_18 => exact yieldExpression_inStep hbelow
  case h_19 | h_20 => exact closure_inStep hbelow rfl
  case h_21 =>
    refine .peek (fun k hk => Option.some.inj hk ▸ by decide) fun _ => .ite (fun _ => ?_) fun _ =>
      hchain
    exact .next (.unexpected _) fun word word' _ => closure_inStep hbelow rfl
  case h_22 => exact hchain

/-! ### Binary operators -/

theorem assignment_inStep {left left' : Node} (hleft : unplaced left = unplaced left') :
    InStep B .inside C (assignment below₁ left) (assignment below₂ left') := by
  unfold assignment
  refine .next (.unexpected _) fun op op' hop => ?_
  obtain ⟨hkind, htext⟩ := unplaced_token.1 hop
  dsimp only
  rw [← hkind]
  refine .ite (fun _ => .ate fun byRef => ?_) fun _ => ?_
  · exact .bind (hbelow.expression _) fun right right' hright => .pure (by simp [*])
  · exact .bind (hbelow.expression _) fun right right' hright => .pure (by simp [*])

theorem ternary_inStep {condition condition' : Node}
    (hcondition : unplaced condition = unplaced condition') :
    InStep B .inside C (ternary below₁ condition) (ternary below₂ condition') := by
  unfold ternary
  refine .bind (.discard expect_inStep) fun _ _ _ => .test fun _ => ?_
  refine .partUnless (hbelow.expression _) fun consequence consequence' hconsequence => ?_
  refine .bind (.discard expect_inStep) fun _ _ _ => ?_
  exact .bind (hbelow.expression _) fun alternative alternative' halternative => .pure (by simp [*])

theorem instanceofTarget_inStep :
    InStep B .inside C (instanceofTarget below₁) (instanceofTarget below₂) := by
  unfold instanceofTarget
  refine .branch qualifiedName_inStep ?_
  exact .bind (primary_inStep hbelow) fun first first' hfirst => postfixChain_inStep hbelow hfirst

theorem binaryOperation_inStep {left left' : Node} (hleft : unplaced left = unplaced left')
    {prec : Precedence} {assoc : Associativity} :
    InStep B .inside C (binaryOperation below₁ left prec assoc)
      (binaryOperation below₂ left' prec assoc) := by
  unfold binaryOperation
  refine .next (.pure hleft) fun op op' hop => ?_
  obtain ⟨hkind, htext⟩ := unplaced_token.1 hop
  dsimp only
  rw [← hkind]
  refine .ite (fun _ => ?_) fun _ => ?_
  · exact .bind (instanceofTarget_inStep hbelow) fun right right' hright => .pure (by simp [*])
  · exact .bind (hbelow.expression _) fun right right' hright => .pure (by simp [*])

theorem binary_inStep (min : Precedence) :
    InStep B .inside C (binary below₁ min) (binary below₂ min) := by
  unfold binary
  refine .bind (unary_inStep hbelow) fun first first' hfirst => ?_
  refine repeated_inStep hfirst fun left left' hleft => .kind fun kind => ?_
  have hdone : unplaced (Round.done left) = unplaced (Round.done left') := congrArg Round.done hleft
  cases kind with
  | none => exact .pure hdone
  | some kind =>
    dsimp only
    rw [← kind_of_unplaced hleft]
    refine .ite (fun _ => .more (assignment_inStep hbelow hleft)) fun _ => ?_
    refine .ite (fun _ => .more (ternary_inStep hbelow hleft)) fun _ => ?_
    cases kind.binary? with
    | none => exact .pure hdone
    | some found =>
      obtain ⟨prec, assoc⟩ := found
      dsimp only
      refine .ite (fun _ => .pure hdone) fun _ => .more (binaryOperation_inStep hbelow hleft)

end

end PhpCheck.Grammar
