import PhpCheck.Proofs.Grammar.InStep.Declarations

/-!
Expressions, in step.

The kinds of the tokens behind the current one are only asked for where the current one can end
nothing, so they are those of shared tokens.
-/

namespace PhpCheck.Grammar

section

variable {B : Bond} {below₁ below₂ : Below} {C : Option TokenKind → Prop}
  (hbelow : below₁.InStep below₂ B)

include hbelow

/-! ### Arguments and arrays -/

theorem argument_inStep : InStep B .inside C (argument below₁) (argument below₂) := by
  unfold argument
  refine .here fun start start' => .bind eat_inStep fun spread spread' hspread => ?_
  extract_lets rest rest'
  have hrest : ∀ {C} (mark mark' : List Node), unplaced mark = unplaced mark' →
      InStep B .inside C (rest mark) (rest' mark') := by
    intro C mark mark' hmark
    refine .bind (hbelow.expression _) fun value value' hvalue => ?_
    exact nodeFrom_inStep (by simp [*])
  obtain ⟨rfl, rfl⟩ | ⟨tok, tok', rfl, rfl, -⟩ := unplaced_cases hspread
  · refine .guardedName ?_ (.given (hrest [] [] rfl))
    refine .bind memberName_inStep fun name name' hname => .bind discard_advance_inStep fun _ _ _ =>
      .given ?_
    exact hrest [name.inField "name"] [name'.inField "name"] (by simp [hname])
  · exact .given (hrest _ _ (by simp))

theorem argumentList_inStep : InStep B .inside C (argumentList below₁) (argumentList below₂) := by
  unfold argumentList
  refine .bind expect_inStep fun _ _ _ => ?_
  have hrest : ∀ {C} {start start' : Nat} (mark mark' : List Node), unplaced mark = unplaced mark' →
      InStep B .inside C
        (commaList (check .rParen) (argument below₁) >>= fun arguments =>
          discard (expect .rParen "')'") >>= fun _ =>
            nodeFrom .argumentList start (mark ++ arguments))
        (commaList (check .rParen) (argument below₂) >>= fun arguments =>
          discard (expect .rParen "')'") >>= fun _ =>
            nodeFrom .argumentList start' (mark' ++ arguments)) := by
    intro C start start' mark mark' hmark
    refine .bind (commaList_inStep (argument_inStep hbelow)) fun nodes nodes' hnodes => ?_
    exact .bind (.discard expect_inStep) fun _ _ _ => nodeFrom_inStep (by simp [*])
  refine .guarded (by decide) ?_ (.given (hrest [] [] rfl))
  exact .bind advance_inStep fun tok tok' htok => .given (hrest _ _ (by simp [htok]))

theorem arrayElement_inStep {start start' : Nat} :
    InStep B .inside C (arrayElement below₁ start) (arrayElement below₂ start') := by
  unfold arrayElement
  refine .eat (fun tok tok' htok => ?_) (.bind eat_inStep fun byRef byRef' hbyRef => ?_)
  · refine .bind (hbelow.expression _) fun value value' hvalue => ?_
    exact nodeFrom_inStep (by simp [*])
  have hnone : byRef.isNone = byRef'.isNone := by
    obtain ⟨rfl, rfl⟩ | ⟨tok, tok', rfl, rfl, -⟩ := unplaced_cases hbyRef <;> rfl
  refine .bind (hbelow.expression _) fun first first' hfirst => .test fun _ => ?_
  rw [← hnone]
  refine .ite (fun _ => ?_) fun _ => nodeFrom_inStep (by simp [*])
  refine .bind discard_advance_inStep fun _ _ _ =>
    .bind eat_inStep fun reference reference' hreference => ?_
  refine .bind (hbelow.expression _) fun value value' hvalue => ?_
  exact nodeFrom_inStep (by simp [*])

theorem arrayElements_inStep (close : TokenKind) :
    InStep B .inside C (arrayElements below₁ close) (arrayElements below₂ close) := by
  unfold arrayElements
  refine .loop rfl (fun elements elements' helements => ?_)
    fun elements elements' helements => .pure (by simp [helements])
  refine .test fun _ => .test fun _ => .ite (fun _ => .pure (by simp [helements])) fun _ => ?_
  refine .here fun start start' => .branch ?_ ?_
  · have hslot : ∀ {C}, InStep B .inside C (nodeFrom .arrayElement start [])
        (nodeFrom .arrayElement start' []) := nodeFrom_inStep rfl
    refine .bind hslot fun slot slot' hslot => .bind discard_advance_inStep fun _ _ _ => ?_
    exact .pure (by simp [*])
  · refine .bind (arrayElement_inStep hbelow) fun element element' helement => ?_
    exact .eats (.pure (by simp [*])) (.pure (by simp [*]))

theorem arrayLiteral_inStep : InStep B .inside C (arrayLiteral below₁) (arrayLiteral below₂) := by
  unfold arrayLiteral
  refine .here fun start start' => .ate fun _ => ?_
  extract_lets rest rest'
  have hrest : ∀ {C} (close : TokenKind), InStep B .inside C (rest close) (rest' close) := by
    intro C close
    refine .bind (arrayElements_inStep hbelow _) fun elements elements' helements => ?_
    exact .bind (.discard expect_inStep) fun _ _ _ => nodeFrom_inStep helements
  refine .ite (fun _ => ?_) fun _ => ?_
  · exact .bind (.discard expect_inStep) fun _ _ _ => .given (hrest _)
  · exact .bind (.discard expect_inStep) fun _ _ _ => .given (hrest _)

theorem listExpression_inStep :
    InStep B .inside C (listExpression below₁) (listExpression below₂) := by
  unfold listExpression
  refine .bind expect_inStep fun _ _ _ => .bind (.discard expect_inStep) fun _ _ _ => ?_
  refine .bind (arrayElements_inStep hbelow _) fun elements elements' helements => ?_
  exact .bind (.discard expect_inStep) fun _ _ _ => nodeFrom_inStep helements

/-! ### Functions as values -/

omit hbelow in
theorem closureUse_inStep : InStep B .inside C closureUse closureUse := by
  unfold closureUse
  refine .here fun start start' => .bind eat_inStep fun reference reference' hreference => ?_
  exact .bind simpleVariable_inStep fun name name' hname => nodeFrom_inStep (by simp [*])

omit hbelow in
theorem closureUses_inStep : InStep B .inside C closureUses closureUses := by
  unfold closureUses
  refine .bind expect_inStep fun _ _ _ => .bind (.discard expect_inStep) fun _ _ _ => ?_
  refine .bind (commaList_inStep closureUse_inStep) fun uses uses' huses => ?_
  exact .bind (.discard expect_inStep) fun _ _ _ => nodeFrom_inStep huses

theorem closure_inStep {static static' : Option Span}
    (hstatic : unplaced static = unplaced static') :
    InStep B .inside C (closure below₁ static) (closure below₂ static') := by
  unfold closure
  extract_lets fixed rest fixed' rest'
  have hfixed : unplaced fixed = unplaced fixed' := by
    obtain ⟨rfl, rfl⟩ | ⟨span, span', rfl, rfl, -⟩ := unplaced_cases hstatic
    · rfl
    · simp [fixed, fixed']
  clear_value fixed fixed'
  have hrest : ∀ {C} {start start' : Nat}, InStep B .inside C (rest start) (rest' start') := by
    intro C start start'
    refine .test fun isArrow => .bind discard_advance_inStep fun _ _ _ => ?_
    refine .bind eat_inStep fun reference reference' hreference => ?_
    refine .bind (parameterList_inStep hbelow) fun ps ps' hps => ?_
    refine .test fun _ => .partIf closureUses_inStep fun uses uses' huses => ?_
    refine .bind returnType_inStep fun result result' hresult => ?_
    extract_lets last last'
    have hlast : ∀ body body' : Node, unplaced body = unplaced body' →
        InStep B .inside Any (last body) (last' body') :=
      fun body body' hbody => nodeFrom_inStep (by simp [*])
    refine .ite (fun _ => .bind (.discard expect_inStep) fun _ _ _ => ?_) fun _ => ?_
    · exact .bind (hbelow.expression _) hlast
    · exact .bind (braceBlock_inStep hbelow) hlast
  obtain ⟨rfl, rfl⟩ | ⟨span, span', rfl, rfl, -⟩ := unplaced_cases hstatic
  · exact .here fun start start' => hrest
  · exact .given hrest

/-! ### Variables and names -/

theorem variableVariable_inStep {fuel fuel' : Nat} (hfuel : fuel ≤ fuel') :
    InStep B .inside C (variableVariable below₁ fuel) (variableVariable below₂ fuel') := by
  induction fuel generalizing fuel' C with
  | zero => exact .fails fun s _ => stall_error B.left s
  | succ fuel ih =>
    obtain ⟨fuel', rfl⟩ := Nat.exists_eq_add_of_le' (Nat.lt_of_lt_of_le (Nat.succ_pos _) hfuel)
    unfold variableVariable
    refine .bind expect_inStep fun dollar dollar' _ => .ate fun _ => .test fun _ => ?_
    extract_lets rest rest'
    have hrest : ∀ {C} (name name' : Node), unplaced name = unplaced name' →
        InStep B .inside C (rest name) (rest' name') :=
      fun name name' hname => nodeFrom_inStep (by simp [hname])
    refine .ite (fun _ => ?_) fun _ => .ite (fun _ => ?_) fun _ => ?_
    · refine .bind (hbelow.expression _) fun inner inner' hinner => ?_
      exact .bind (.discard expect_inStep) fun _ _ _ => .given (hrest _ _ hinner)
    · exact .bind (ih (Nat.le_of_succ_le_succ hfuel)) hrest
    · exact .bind simpleVariable_inStep hrest

omit hbelow in
theorem unplaced_classifyName {name name' : Node} (h : unplaced name = unplaced name') :
    unplaced (classifyName name) = unplaced (classifyName name') := by
  unfold classifyName
  rw [textD_of_unplaced h]
  extract_lets bare lower upper
  split
  · exact h
  split
  · simp
  split
  · simp
  split
  · simp
  · exact h

/-! ### Primary expressions -/

theorem matchArm_inStep : InStep B .inside C (matchArm below₁) (matchArm below₂) := by
  unfold matchArm
  refine .here fun start start' => .bind eat_inStep fun default default' hdefault => ?_
  extract_lets rest rest'
  have hrest : ∀ {C} (heads heads' : List Node), unplaced heads = unplaced heads' →
      InStep B .inside C (rest heads) (rest' heads') := by
    intro C heads heads' hheads
    refine .bind (.discard expect_inStep) fun _ _ _ =>
      .bind (hbelow.expression _) fun body body' hbody => ?_
    exact nodeFrom_inStep (by simp [*])
  obtain ⟨rfl, rfl⟩ | ⟨tok, tok', rfl, rfl, -⟩ := unplaced_cases hdefault
  · refine .loop rfl (fun conditions conditions' hconditions => ?_)
      fun conditions conditions' hconditions => .given (hrest _ _ (by simp [hconditions]))
    refine .bind (hbelow.expression _) fun value value' hvalue => ?_
    have hmore : unplaced (value.inField "condition" :: conditions) =
        unplaced (value'.inField "condition" :: conditions') := by simp [*]
    refine .eats (.branch ?_ ?_) ?_
    · exact .pure (congrArg Round.done hmore)
    · exact .pure (congrArg Round.more hmore)
    · exact .pure (congrArg Round.done hmore)
  · exact .given (hrest _ _ (by simp))

theorem matchExpression_inStep :
    InStep B .inside C (matchExpression below₁) (matchExpression below₂) := by
  unfold matchExpression
  refine .bind expect_inStep fun _ _ _ =>
    .bind (parenthesized_inStep hbelow) fun subject subject' hsubject => ?_
  refine .bind (.discard expect_inStep) fun _ _ _ => ?_
  refine .bind (commaList_inStep (matchArm_inStep hbelow)) fun arms arms' harms => ?_
  exact .bind (.discard expect_inStep) fun _ _ _ => nodeFrom_inStep (by simp [*])

theorem exitExpression_inStep {start start' : Nat} :
    InStep B .inside C (exitExpression below₁ start) (exitExpression below₂ start') := by
  unfold exitExpression
  refine .bind discard_advance_inStep fun _ _ _ => .ate fun _ => ?_
  extract_lets rest closed rest' closed'
  have hrest : ∀ (value value' : List Node), unplaced value = unplaced value' →
      InStep B .inside Any (rest value) (rest' value') :=
    fun value value' hvalue => nodeFrom_inStep hvalue
  refine .ite (fun _ => ?_) fun _ => .given (hrest _ _ rfl)
  refine .test fun _ => .partUnless (hbelow.expression _) fun value value' hvalue => ?_
  exact .bind (.discard expect_inStep) fun _ _ _ => .given (hrest _ _ hvalue)

theorem primary_inStep : InStep B .inside C (primary below₁) (primary below₂) := by
  unfold primary
  refine .here fun start start' => .kind fun kind => ?_
  have hname : ∀ {C}, InStep B .inside C (qualifiedName >>= fun name => pure (classifyName name))
      (qualifiedName >>= fun name => pure (classifyName name)) :=
    .bind qualifiedName_inStep fun name name' h => .pure (unplaced_classifyName h)
  split
  case h_1 => exact simpleVariable_inStep
  case h_2 =>
    exact .bounded fun fuel fuel' hfuel => variableVariable_inStep hbelow (Nat.succ_le_succ hfuel)
  case h_3 | h_4 | h_5 | h_6 | h_7 => exact number_inStep
  case h_8 => exact plainString_inStep
  case h_9 | h_10 =>
    refine templateString_inStep hbelow fun k hk => ?_
    rw [Option.some.inj hk]
    rfl
  case h_11 | h_12 => exact heredocString_inStep hbelow
  case h_13 => exact arrayLiteral_inStep hbelow
  case h_14 =>
    refine .peek (fun k hk => Option.some.inj hk ▸ by decide) fun _ => ?_
    exact .ite (fun _ => arrayLiteral_inStep hbelow) fun _ => .unexpected _
  case h_15 => exact listExpression_inStep hbelow
  case h_16 => exact (parenthesized_inStep hbelow).inside
  case h_17 =>
    refine .bind discard_advance_inStep fun _ _ _ => .bind (.discard expect_inStep) fun _ _ _ => ?_
    refine .bind (expressionsUntil_inStep hbelow _) fun values values' hvalues => ?_
    exact .bind (.discard expect_inStep) fun _ _ _ => nodeFrom_inStep hvalues
  case h_18 | h_19 =>
    refine .bind discard_advance_inStep fun _ _ _ => ?_
    exact .bind (parenthesized_inStep hbelow) fun value value' hvalue =>
      nodeFrom_inStep (by simp [*])
  case h_20 | h_21 => exact exitExpression_inStep hbelow
  case h_22 => exact matchExpression_inStep hbelow
  case h_23 | h_24 | h_25 | h_26 => exact hname
  case h_27 => exact .unexpected _

/-! ### What may follow an expression -/

theorem braced_inStep : InStep B .inside C (braced below₁) (braced below₂) := by
  unfold braced
  refine .bind (hbelow.expression _) fun value value' hvalue => ?_
  exact .bind (.discard expect_inStep) fun _ _ _ => .pure hvalue

theorem memberSelector_inStep :
    InStep B .inside C (memberSelector below₁) (memberSelector below₂) := by
  unfold memberSelector
  exact .branch simpleVariable_inStep (.eats (braced_inStep hbelow) memberName_inStep)

variable {start start' : Nat} {left left' : Node} (hleft : unplaced left = unplaced left')

include hleft

theorem staticMember_inStep :
    InStep B .inside C (staticMember below₁ left start) (staticMember below₂ left' start') := by
  unfold staticMember
  refine .branch ?_ (.ate fun _ => ?_)
  · exact .bind simpleVariable_inStep fun name name' hname => nodeFrom_inStep (by simp [*])
  extract_lets rest rest'
  have hrest : ∀ name name' : Node, unplaced name = unplaced name' →
      InStep B .inside Any (rest name) (rest' name') := by
    intro name name' hname
    refine .branch ?_ (nodeFrom_inStep (by simp [*]))
    exact .bind (argumentList_inStep hbelow) fun arguments arguments' harguments =>
      nodeFrom_inStep (by simp [*])
  exact .ite (fun _ => .bind (braced_inStep hbelow) hrest) fun _ => .bind memberName_inStep hrest

theorem objectMember_inStep {arrow arrow' : Option Token}
    (harrow : unplaced arrow = unplaced arrow') :
    InStep B .inside C (objectMember below₁ left start arrow)
      (objectMember below₂ left' start' arrow') := by
  unfold objectMember
  refine .bind (memberSelector_inStep hbelow) fun name name' hname => ?_
  have hnullsafe : unplaced (arrow.filter (·.kind == .nullsafeArrow)) =
      unplaced (arrow'.filter (·.kind == .nullsafeArrow)) := by
    obtain ⟨rfl, rfl⟩ | ⟨tok, tok', rfl, rfl, htok⟩ := unplaced_cases harrow
    · rfl
    · rw [Option.filter_some, Option.filter_some, (unplaced_token.1 htok).1]
      split
      · exact congrArg some htok
      · rfl
  refine .branch ?_ (nodeFrom_inStep (by simp [*]))
  exact .bind (argumentList_inStep hbelow) fun arguments arguments' harguments =>
    nodeFrom_inStep (by simp [*])

theorem postfixChain_inStep :
    InStep B .inside C (postfixChain below₁ left) (postfixChain below₂ left') := by
  unfold postfixChain
  refine repeated_inStep hleft fun left left' hleft => .kind fun kind => ?_
  have hdone : unplaced (Round.done left) = unplaced (Round.done left') := congrArg Round.done hleft
  rw [← kind_of_unplaced hleft]
  split
  case h_1 =>
    refine .bind (argumentList_inStep hbelow) fun arguments arguments' harguments => ?_
    exact .more (nodeFrom_inStep (by simp [*]))
  case h_2 =>
    refine .bind discard_advance_inStep fun _ _ _ => .test fun _ => ?_
    refine .partUnless (hbelow.expression _) fun index index' hindex => ?_
    exact .bind (.discard expect_inStep) fun _ _ _ => .more (nodeFrom_inStep (by simp [*]))
  case h_3 | h_4 =>
    exact .bind advance_inStep fun arrow arrow' harrow =>
      .more (objectMember_inStep hbelow hleft harrow)
  case h_5 =>
    exact .bind discard_advance_inStep fun _ _ _ => .more (staticMember_inStep hbelow hleft)
  case h_6 | h_7 =>
    refine .ite (fun _ => .next (.pure hdone) fun op op' hop => ?_) fun _ => .pure hdone
    exact .more (nodeFrom_inStep (by simp [hleft, (unplaced_token.1 hop).2]))
  case h_8 => exact .pure hdone

end

end PhpCheck.Grammar
