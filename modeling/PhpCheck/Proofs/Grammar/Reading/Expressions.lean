import PhpCheck.Proofs.Grammar.Reading.Declarations

/-!
Expressions, read from the tokens of a text.

Where a production is chosen by the kind of the current token, that kind is known in it
(`ReadsAt`): quoted text is read at a token of quoted text, and the bound on dollar signs in a
row exceeds the number of tokens left at a dollar sign.
-/

namespace PhpCheck.Grammar

section

variable {G : Ground} {below : Below} {atToken owed : Bool} {w : Nat} (hbelow : below.Reads G)

include hbelow

/-! ### Arguments and arrays -/

theorem argument_reads : Reads G atToken true w (argument below) := by
  unfold argument
  refine .here fun start hstart => .bind eat_reads fun spread hspread => ?_
  extract_lets rest
  have hrest : ∀ {atToken : Bool} {w : Nat} (mark : List Node), Result.Fits G mark →
      Result.errors mark ≤ w → Reads G atToken true w (rest mark) := by
    intro atToken w mark hmark hw
    refine .took (hbelow.expression _) fun value hvalue => ?_
    exact nodeFrom_reads nofun hstart (by simp [*]) (by simp; omega)
  cases spread with
  | some tok =>
    exact .given (hrest _ (by simp [fits_tokenSpan (fits_some.1 hspread)]) (by simp))
  | none =>
    refine .look fun _ => .look fun _ => .ite (fun _ => ?_) fun _ =>
      .given (hrest [] fits_nil (by simp))
    refine .bind memberName_reads fun name hname => .bind discard_advance_reads fun _ _ => .given ?_
    exact hrest _ (by simp [hname]) (by simp)

theorem argumentList_reads : Reads G atToken true w (argumentList below) := by
  unfold argumentList
  refine .took expect_reads fun paren hparen => .look fun _ => .look fun _ => ?_
  extract_lets rest
  have hrest : ∀ {w : Nat} (mark : List Node), Result.Fits G mark →
      Result.errors mark ≤ w → Reads G false false w (rest mark) := by
    intro w mark hmark hw
    refine .bind (commaList_reads (argument_reads hbelow)) fun nodes hnodes => ?_
    refine .bind (.discard expect_reads) fun _ _ => ?_
    exact nodeFrom_reads nofun (fits_start (fits_tokenSpan hparen)) (by simp [*]) (by simp; omega)
  refine .ite (fun _ => ?_) fun _ => .given (hrest _ fits_nil (by simp))
  exact .bind advance_reads fun tok htok => .given (hrest _ (by simp [htok]) (by simp))

theorem arrayElement_reads {start : Nat} (hstart : Result.Fits G start) :
    Reads G atToken true w (arrayElement below start) := by
  unfold arrayElement
  refine .eat (fun tok htok => ?_) (.bind eat_reads fun byRef hbyRef => ?_)
  · refine .bind (hbelow.expression _) fun value hvalue => ?_
    exact nodeFrom_reads nofun hstart (by simp [fits_tokenSpan htok, *]) (by simp)
  refine .took (hbelow.expression _) fun first hfirst => .look fun _ =>
    .ite (fun _ => ?_) fun _ => ?_
  · refine .bind discard_advance_reads fun _ _ => .bind eat_reads fun reference hreference => ?_
    refine .bind (hbelow.expression _) fun value hvalue => ?_
    exact nodeFrom_reads nofun hstart (by simp [*]) (by simp)
  · exact nodeFrom_reads nofun hstart (by simp [*]) (by simp)

theorem arrayElements_reads (close : TokenKind) :
    Reads G atToken false w (arrayElements below close) := by
  unfold arrayElements
  refine .bind (repeated_reads fits_nil (Nat.le_refl _) fun elements w helements => ?_)
    fun elements helements => .pure (fits_reverse.2 helements) (by simp)
  refine .look fun _ => .look fun _ =>
    .ite (fun _ => .done helements (Nat.le_add_left _ _)) fun _ => ?_
  refine .here fun start hstart => .test (check_atToken _) ?_ ?_
  · refine .node nofun hstart fits_nil fun slot hslot herrors => ?_
    refine .took (.discard advance_reads) fun _ _ => .more (by simp [*]) (by simp [herrors])
  · refine .took (arrayElement_reads hbelow hstart) fun element helement => ?_
    refine .eats (.more (by simp [*]) (by simp; omega)) (.done (by simp [*]) (by simp; omega))

theorem arrayLiteral_reads : Reads G atToken true w (arrayLiteral below) := by
  unfold arrayLiteral
  refine .here fun start hstart => .bind eats_reads fun _ _ => ?_
  extract_lets rest
  have hrest : ∀ {w : Nat} (close : TokenKind), Reads G false false w (rest close) := by
    intro w close
    refine .bind (arrayElements_reads hbelow _) fun elements helements => ?_
    refine .bind (.discard expect_reads) fun _ _ => ?_
    exact nodeFrom_reads nofun hstart helements (by simp)
  refine .ite (fun _ => ?_) fun _ => ?_
  · exact .took (.discard expect_reads) fun _ _ => .given (hrest _)
  · exact .took (.discard expect_reads) fun _ _ => .given (hrest _)

theorem listExpression_reads : Reads G atToken true w (listExpression below) := by
  unfold listExpression
  refine .took expect_reads fun word hword => .bind (.discard expect_reads) fun _ _ => ?_
  refine .bind (arrayElements_reads hbelow _) fun elements helements => ?_
  refine .bind (.discard expect_reads) fun _ _ => ?_
  exact nodeFrom_reads nofun (fits_start (fits_tokenSpan hword)) helements (by simp)

/-! ### Functions as values -/

omit hbelow in
theorem closureUse_reads : Reads G atToken true w closureUse := by
  unfold closureUse
  refine .here fun start hstart => .bind eat_reads fun reference hreference => ?_
  refine .took simpleVariable_reads fun name hname => ?_
  exact nodeFrom_reads nofun hstart (by simp [*]) (by simp)

omit hbelow in
theorem closureUses_reads : Reads G atToken true w closureUses := by
  unfold closureUses
  refine .took expect_reads fun word hword => .bind (.discard expect_reads) fun _ _ => ?_
  refine .bind (commaList_reads closureUse_reads) fun uses huses => ?_
  refine .bind (.discard expect_reads) fun _ _ => ?_
  exact nodeFrom_reads nofun (fits_start (fits_tokenSpan hword)) huses (by simp)

theorem closure_reads {static : Option Span} (hstatic : Result.Fits G static) :
    Reads G atToken true w (closure below static) := by
  unfold closure
  extract_lets fixed rest
  have hfixed : Result.Fits G fixed ∧ Result.errors fixed = 0 := by
    cases static with
    | none => exact ⟨fits_nil, rfl⟩
    | some span => simp [fixed, fits_some.1 hstatic]
  clear_value fixed
  have hrest : ∀ {atToken : Bool} {w start : Nat}, Result.Fits G start →
      Reads G atToken true w (rest start) := by
    intro atToken w start hstart
    refine .look fun isArrow => .bind discard_advance_reads fun _ _ => ?_
    refine .bind eat_reads fun reference hreference => ?_
    refine .took (parameterList_reads hbelow) fun ps hps => ?_
    refine .look fun _ => .partIf closureUses_reads fun uses huses => ?_
    refine .bind returnType_reads fun result hresult => ?_
    extract_lets last
    have hlast : ∀ {w : Nat} (body : Node), Result.Fits G body → Result.errors body +
        Result.errors ps + Result.errors uses + Result.errors result ≤ w →
          Reads G false false w (last body) := fun body hbody hw =>
      nodeFrom_reads (by split <;> nofun) hstart (by simp [*]) (by simp; omega)
    refine .ite (fun _ => .bind (.discard expect_reads) fun _ _ => ?_) fun _ => ?_
    · exact .bind (hbelow.expression _) fun body hbody => hlast body hbody (by simp; omega)
    · exact .bind (braceBlock_reads hbelow) fun body hbody => hlast body hbody (by simp; omega)
  cases static with
  | none => exact .here fun start hstart => hrest hstart
  | some span => exact .given (hrest (fits_start (fits_some.1 hstatic)))

/-! ### Variables and names -/

/-- Each dollar sign in a row is a token, so their number does not exceed that of the tokens. -/
theorem variableVariable_fair {fuel : Nat} {s : State} (hs : s.Stands G)
    (hcurrent : s.current.isSome = true) (hfuel : s.pending.length ≤ fuel) :
    Fair G s true w (variableVariable below fuel G.src s) := by
  induction fuel generalizing s w with
  | zero =>
    obtain ⟨t, ht⟩ := Option.isSome_iff_exists.1 hcurrent
    rw [State.pending_of_current ht] at hfuel
    exact absurd hfuel (Nat.not_succ_le_zero _)
  | succ fuel ih =>
    unfold variableVariable
    have hexpect : Reads G true true 0 (expect .dollar "'$'") := expect_reads
    refine (hexpect s hs fun _ => hcurrent).seq fun dollar s' hdollar hs' hlt => ?_
    have hstart := fits_start (fits_tokenSpan hdollar)
    have hcheck : check .dollar G.src s' =
      .ok (s'.current.map (·.kind) == some .dollar) s' := rfl
    have hsimple : Reads G false true 0 simpleVariable := simpleVariable_reads
    rcases eats_cases .lBrace G.src s' with ⟨heats, -⟩ | heats
    · have hstep := Step.advance hs'
      rw [bind_ok heats]
      refine Fair.after (n := 0) ((?_ : Reads G false false _ _) _ hstep.stands nofun) hstep
        hstep.errors
      refine .look fun _ => .ite (fun _ => ?_) fun h => absurd rfl h
      refine .bind (hbelow.expression _) fun inner hinner =>
        .bind (.discard expect_reads) fun _ _ => ?_
      exact .given (nodeFrom_reads nofun hstart (by simp [*]) (by simp))
    rw [bind_ok heats, bind_ok hcheck]
    split
    · rename_i h
      cases h
    split
    · rename_i hk
      refine ((ih hs' (isSome_of_map_eq hk) (by omega)).bind fun name hname => ?_).forgo
      exact nodeFrom_reads nofun hstart (by simp [*]) (by simp)
    · refine ((hsimple s' hs' nofun).bind fun name hname => ?_).forgo
      exact nodeFrom_reads nofun hstart (by simp [*]) (by simp)

omit hbelow in
/-- A name that stands for a literal becomes a leaf at its place. -/
theorem classifyName_cases (name : Node) : classifyName name = name ∨
    ((classifyName name).kind ≠ .error ∧ (classifyName name).span = name.span ∧
      (classifyName name).children = []) := by
  unfold classifyName
  extract_lets bare lower upper
  split
  · exact .inl rfl
  split
  · exact .inr ⟨nofun, rfl, rfl⟩
  split
  · exact .inr ⟨nofun, rfl, rfl⟩
  split
  · exact .inr ⟨nofun, rfl, rfl⟩
  · exact .inl rfl

omit hbelow in
theorem fits_classifyName {name : Node} (hname : Result.Fits G name) :
    Result.Fits G (classifyName name) := by
  rcases classifyName_cases name with h | ⟨-, hspan, hchildren⟩
  · rwa [h]
  · rw [fits_node, hspan, hchildren]
    exact ⟨fits_span hname, fits_nil⟩

omit hbelow in
theorem errors_classifyName (name : Node) :
    Result.errors (classifyName name) ≤ Result.errors name := by
  rcases classifyName_cases name with h | ⟨hkind, -, hchildren⟩
  · rw [h]
  · rw [errors_node, if_neg hkind, hchildren]
    exact Nat.zero_le _

/-! ### Primary expressions -/

theorem matchArm_reads : Reads G atToken true w (matchArm below) := by
  unfold matchArm
  refine .here fun start hstart => .bind eat_reads fun default hdefault => ?_
  extract_lets rest
  have hrest : ∀ {atToken : Bool} {w : Nat} (heads : List Node), Result.Fits G heads →
      Result.errors heads ≤ w → Reads G atToken true w (rest heads) := by
    intro atToken w heads hheads hw
    refine .took (.discard expect_reads) fun _ _ => .bind (hbelow.expression _) fun body hbody => ?_
    exact nodeFrom_reads nofun hstart (by simp [*]) (by simp; omega)
  cases default with
  | some tok =>
    exact .given (hrest _ (by simp [fits_tokenSpan (fits_some.1 hdefault)]) (by simp))
  | none =>
    refine .bind (repeated_reads fits_nil (Nat.le_refl _) fun conditions w hconditions => ?_)
      fun conditions hconditions => .given (hrest _ (fits_reverse.2 hconditions) (by simp))
    refine .took (hbelow.expression _) fun value hvalue => ?_
    have hconditions' : Result.Fits G (value.inField "condition" :: conditions) := by simp [*]
    refine .eats (.look fun _ => .ite (fun _ => ?_) fun _ => ?_) ?_
    · exact .done hconditions' (by simp; omega)
    · exact .more hconditions' (by simp; omega)
    · exact .done hconditions' (by simp; omega)

theorem matchExpression_reads : Reads G atToken true w (matchExpression below) := by
  unfold matchExpression
  refine .took expect_reads fun word hword =>
    .bind (parenthesized_reads hbelow) fun subject hsubject => ?_
  refine .bind (.discard expect_reads) fun _ _ => ?_
  refine .bind (commaList_reads (matchArm_reads hbelow)) fun arms harms => ?_
  refine .bind (.discard expect_reads) fun _ _ => ?_
  exact nodeFrom_reads nofun (fits_start (fits_tokenSpan hword)) (by simp [*]) (by simp)

theorem exitExpression_reads {start : Nat} (hstart : Result.Fits G start) :
    Reads G true true w (exitExpression below start) := by
  unfold exitExpression
  refine .took (.discard advance_reads) fun _ _ => .bind eats_reads fun _ _ => ?_
  extract_lets rest
  have hrest : ∀ {w : Nat} (value : List Node), Result.Fits G value →
      Result.errors value ≤ w → Reads G false false w (rest value) :=
    fun value hvalue hw => nodeFrom_reads nofun hstart hvalue hw
  refine .ite (fun _ => ?_) fun _ => .given (hrest _ fits_nil (by simp))
  refine .look fun _ => .partUnless (hbelow.expression _) fun value hvalue => ?_
  exact .bind (.discard expect_reads) fun _ _ => .given (hrest _ hvalue (by simp))

theorem primary_reads : Reads G atToken true w (primary below) := by
  unfold primary
  refine .here fun start hstart => .kindAt .unexpected fun kind => ?_
  have htemplate : kind.isTemplate = true → ReadsAt G kind true w (templateString below) :=
    fun hkind s t hs ht hk => templateString_fair hbelow hs ht (hk ▸ hkind)
  have hname : ReadsAt G kind true w (qualifiedName >>= fun name => pure (classifyName name)) :=
    Reads.atKind (.wrap qualifiedName_reads (fun _ => fits_classifyName) errors_classifyName)
  split
  case h_1 => exact simpleVariable_reads.atKind
  case h_2 =>
    intro s t hs ht _
    exact variableVariable_fair hbelow hs (ht ▸ rfl) s.pending_length_le
  case h_3 | h_4 | h_5 | h_6 | h_7 => exact number_reads.atKind
  case h_8 => exact plainString_reads.atKind
  case h_9 | h_10 =>
    rename_i h
    exact htemplate (by rw [Option.some.inj h]; rfl)
  case h_11 | h_12 => exact (heredocString_reads hbelow).atKind
  case h_13 => exact (arrayLiteral_reads hbelow).atKind
  case h_14 =>
    exact Reads.atKind (.look fun _ => .ite (fun _ => arrayLiteral_reads hbelow) fun _ =>
      .unexpected)
  case h_15 => exact (listExpression_reads hbelow).atKind
  case h_16 => exact (parenthesized_reads hbelow).atKind
  case h_17 =>
    refine Reads.atKind (.took (.discard advance_reads) fun _ _ => ?_)
    refine .bind (.discard expect_reads) fun _ _ => ?_
    refine .bind (expressionsUntil_reads hbelow _) fun values hvalues => ?_
    refine .bind (.discard expect_reads) fun _ _ => nodeFrom_reads nofun hstart hvalues (by simp)
  case h_18 =>
    refine Reads.atKind (.took (.discard advance_reads) fun _ _ => ?_)
    refine .bind (parenthesized_reads hbelow) fun value hvalue => ?_
    exact nodeFrom_reads nofun hstart (by simp [hvalue]) (by simp)
  case h_19 =>
    refine Reads.atKind (.took (.discard advance_reads) fun _ _ => ?_)
    refine .bind (parenthesized_reads hbelow) fun value hvalue => ?_
    exact nodeFrom_reads nofun hstart (by simp [hvalue]) (by simp)
  case h_20 | h_21 => exact (exitExpression_reads hbelow hstart).atKind
  case h_22 => exact (matchExpression_reads hbelow).atKind
  case h_23 | h_24 | h_25 | h_26 => exact hname
  case h_27 => exact Reads.unexpected.atKind

/-! ### What may follow an expression -/

theorem braced_reads : Reads G atToken true w (braced below) := by
  unfold braced
  refine .took (hbelow.expression _) fun value hvalue => ?_
  exact .bind (.discard expect_reads) fun _ _ => .pure hvalue (by simp)

theorem memberSelector_reads : Reads G atToken true w (memberSelector below) := by
  unfold memberSelector
  refine .look fun _ => .ite (fun _ => simpleVariable_reads) fun _ => ?_
  exact .eats (braced_reads hbelow).forgo memberName_reads

variable {start : Nat} {left : Node}

theorem staticMember_reads (hstart : Result.Fits G start) (hleft : Result.Fits G left)
    (hw : Result.errors left ≤ w) : Reads G atToken false w (staticMember below left start) := by
  unfold staticMember
  refine .look fun _ => .ite (fun _ => ?_) fun _ => .bind eats_reads fun _ _ => ?_
  · refine .bind simpleVariable_reads fun name hname => ?_
    exact nodeFrom_reads nofun hstart (by simp [*]) (by simp; omega)
  refine .either (braced_reads hbelow) memberName_reads fun name hname => ?_
  refine .look fun _ => .ite (fun _ => ?_) fun _ => ?_
  · refine .bind (argumentList_reads hbelow) fun arguments harguments => ?_
    exact nodeFrom_reads nofun hstart (by simp [*]) (by simp; omega)
  · exact nodeFrom_reads nofun hstart (by simp [*]) (by simp; omega)

theorem objectMember_reads {arrow : Option Token} (hstart : Result.Fits G start)
    (hleft : Result.Fits G left) (harrow : Result.Fits G arrow) (hw : Result.errors left ≤ w) :
    Reads G atToken false w (objectMember below left start arrow) := by
  unfold objectMember
  refine .bind (memberSelector_reads hbelow) fun name hname => ?_
  have hnullsafe := fits_filter harrow (·.kind == .nullsafeArrow)
  refine .look fun _ => .ite (fun _ => ?_) fun _ => ?_
  · refine .bind (argumentList_reads hbelow) fun arguments harguments => ?_
    exact nodeFrom_reads nofun hstart (by simp [*]) (by simp; omega)
  · exact nodeFrom_reads nofun hstart (by simp [*]) (by simp; omega)

theorem postfixChain_reads (hleft : Result.Fits G left) (hw : Result.errors left ≤ w) :
    Reads G atToken false w (postfixChain below left) := by
  unfold postfixChain
  refine repeated_reads hleft hw fun left w hleft => ?_
  have hstart := fits_start (fits_span hleft)
  have hdone : ∀ {atToken : Bool}, Reads G atToken true (w + Result.errors left)
      (pure (Round.done left)) := .done hleft (Nat.le_add_left _ _)
  refine .kind hdone fun kind => ?_
  split
  · refine .took (argumentList_reads hbelow) fun arguments harguments => ?_
    exact .wrap (nodeFrom_reads nofun hstart (by simp [*]) (by simp)) (fun _ h => h) fun _ =>
      Nat.le_refl _
  · refine .took (.discard advance_reads) fun _ _ => .look fun _ => ?_
    refine .partUnless (hbelow.expression _) fun index hindex => ?_
    refine .bind (.discard expect_reads) fun _ _ => ?_
    exact .wrap (nodeFrom_reads nofun hstart (by simp [*]) (by simp)) (fun _ h => h) fun _ =>
      Nat.le_refl _
  · refine .took advance_reads fun arrow harrow => ?_
    exact .wrap (objectMember_reads hbelow hstart hleft harrow (by simp)) (fun _ h => h) fun _ =>
      Nat.le_refl _
  · refine .took advance_reads fun arrow harrow => ?_
    exact .wrap (objectMember_reads hbelow hstart hleft harrow (by simp)) (fun _ h => h) fun _ =>
      Nat.le_refl _
  · refine .took (.discard advance_reads) fun _ _ => ?_
    exact .wrap (staticMember_reads hbelow hstart hleft (by simp)) (fun _ h => h) fun _ =>
      Nat.le_refl _
  · refine .ite (fun _ => .next fun op hop => ?_) fun _ => hdone
    exact .wrap (nodeFrom_reads nofun
      hstart (by simp [fits_tokenSpan hop, *]) (by simp)) (fun _ h => h) fun _ => Nat.le_refl _
  · refine .ite (fun _ => .next fun op hop => ?_) fun _ => hdone
    exact .wrap (nodeFrom_reads nofun
      hstart (by simp [fits_tokenSpan hop, *]) (by simp)) (fun _ h => h) fun _ => Nat.le_refl _
  · exact hdone

/-! ### Objects -/

theorem newClassReference_reads : Reads G atToken false w (newClassReference below) := by
  unfold newClassReference
  refine .here fun start hstart => .look fun _ => ?_
  refine .either (primary_reads hbelow) simpleVariable_reads fun first hfirst => ?_
  refine repeated_reads hfirst (Nat.le_add_left _ _) fun value w hvalue => ?_
  refine .test (checkAny_atToken _) ?_ (.eats ?_ (.eats ?_ (.done hvalue (Nat.le_add_left _ _))))
  · refine .took (.discard advance_reads) fun _ _ => .bind memberName_reads fun name hname => ?_
    exact .wrap (nodeFrom_reads nofun hstart (by simp [*]) (by simp)) (fun _ h => h) fun _ =>
      Nat.le_refl _
  · refine .bind simpleVariable_reads fun name hname => ?_
    exact .wrap (nodeFrom_reads nofun hstart (by simp [*]) (by simp)) (fun _ h => h) fun _ =>
      Nat.le_refl _
  · refine .bind (hbelow.expression _) fun index hindex =>
      .bind (.discard expect_reads) fun _ _ => ?_
    exact .wrap (nodeFrom_reads nofun hstart (by simp [*]) (by simp)) (fun _ h => h) fun _ =>
      Nat.le_refl _

theorem anonymousClass_reads : Reads G atToken true w (anonymousClass below) := by
  unfold anonymousClass
  refine .here fun start hstart => .takeDoc fun doc hdoc hdocErrors => ?_
  refine .took (.discard expect_reads) fun _ _ => .look fun _ => ?_
  refine .partIf (argumentList_reads hbelow) fun arguments harguments => ?_
  refine .bind heritage_reads fun parents hparents =>
    .bind (classBody_reads hbelow) fun body hbody => ?_
  exact nodeFrom_reads nofun hstart (by simp [*]) (by simp; omega)

theorem newExpression_reads : Reads G atToken true w (newExpression below) := by
  unfold newExpression
  refine .took expect_reads fun word hword => .look fun _ => .ite (fun _ => ?_) fun _ => ?_
  · refine .bind (anonymousClass_reads hbelow) fun declared hdeclared => ?_
    exact nodeFrom_reads nofun (fits_start (fits_tokenSpan hword)) (by simp [*]) (by simp)
  refine .look fun _ => .look fun _ => ?_
  extract_lets rest
  have hrest : ∀ {w : Nat} (named : Node), Result.Fits G named → Result.errors named ≤ w →
      Reads G false false w (rest named) := by
    intro w named hnamed hw
    refine .look fun _ => .partIf (argumentList_reads hbelow) fun arguments harguments => ?_
    exact nodeFrom_reads nofun (fits_start (fits_tokenSpan hword)) (by simp [*]) (by simp; omega)
  have hnamed : ∀ {w : Nat} {p : Parse Node}, Reads G false false 0 p →
      Reads G false false w (p >>= rest) :=
    fun hp => .bind hp fun named hnamed => hrest named hnamed (by simp)
  refine .ite (fun _ => hnamed qualifiedName_reads.forgo) fun _ => ?_
  refine .ite (fun _ => hnamed (parenthesized_reads hbelow).forgo) fun _ => ?_
  exact hnamed (newClassReference_reads hbelow)

/-! ### Unary operators and keywords -/

instance : Looks castHead? := ⟨fun src s => by
  have hfirst : peekNth 0 src s = .ok (State.nthToken? 0 s.rest) s := rfl
  have hsecond : peekNth 1 src s = .ok (State.nthToken? 1 s.rest) s := rfl
  rw [castHead?, bind_ok hfirst]
  cases State.nthToken? 0 s.rest with
  | none => exact ⟨none, rfl⟩
  | some tok =>
    dsimp only
    rw [bind_ok hsecond]
    exact iteInduction (motive := fun p : Parse (Option String) => ∃ type, p src s = .ok type s)
      (fun _ => ⟨_, rfl⟩) fun _ => ⟨_, rfl⟩⟩

theorem castExpression_reads (type : String) :
    Reads G atToken true w (castExpression below type) := by
  unfold castExpression
  refine .here fun start hstart => .bind discard_advance_reads fun _ _ => ?_
  refine .bind advance_reads fun word hword => .took (.discard expect_reads) fun _ _ => ?_
  extract_lets rest
  have hrest : ∀ {w : Nat} (span : Span), Result.Fits G span →
      Reads G false false w (rest span) := by
    intro w span hspan
    refine .bind (hbelow.expression _) fun operand hoperand => ?_
    exact nodeFrom_reads nofun hstart (by simp [*]) (by simp)
  cases word with
  | some tok => exact .given (hrest _ (fits_tokenSpan (fits_some.1 hword)))
  | none => exact .currentSpan fun span hspan => hrest span hspan

theorem yieldExpression_reads : Reads G atToken true w (yieldExpression below) := by
  unfold yieldExpression
  refine .took expect_reads fun word hword => ?_
  refine .look fun _ => .look fun _ => .look fun _ => ?_
  extract_lets rest
  have hrest : ∀ {w : Nat} (parts : List Node), Result.Fits G parts →
      Result.errors parts ≤ w → Reads G false false w (rest parts) := fun parts hparts hw =>
    nodeFrom_reads nofun (fits_start (fits_tokenSpan hword)) hparts hw
  refine .ite (fun _ => ?_) fun _ => .ite (fun _ => .given (hrest [] fits_nil (by simp))) fun _ =>
    ?_
  · refine .bind advance_reads fun from? hfrom => .bind (hbelow.expression _) fun value hvalue => ?_
    exact .given (hrest _ (by simp [*]) (by simp))
  · refine .bind (hbelow.expression _) fun first hfirst => .eats ?_ ?_
    · refine .bind (hbelow.expression _) fun value hvalue => .given ?_
      exact hrest _ (by simp [*]) (by simp)
    · exact .given (hrest _ (by simp [*]) (by simp))

theorem keywordOperand_reads {kind : NodeKind} (hkind : kind ≠ .error) (min : Precedence) :
    Reads G atToken true w (keywordOperand below kind min) := by
  unfold keywordOperand
  refine .here fun start hstart => .bind discard_advance_reads fun _ _ => ?_
  refine .took (hbelow.expression _) fun value hvalue => ?_
  exact nodeFrom_reads hkind hstart (by simp [*]) (by simp)

theorem operatorOperand_reads {kind : NodeKind} (hkind : kind ≠ .error) (min : Precedence) :
    Reads G true true w (operatorOperand below kind min) := by
  unfold operatorOperand
  refine .here fun start hstart => .next fun op hop =>
    .bind (hbelow.expression _) fun value hvalue => ?_
  exact nodeFrom_reads hkind hstart (by simp [fits_tokenSpan hop, *]) (by simp)

theorem includeExpression_reads : Reads G true true w (includeExpression below) := by
  unfold includeExpression
  refine .here fun start hstart => .next fun op hop =>
    .bind (hbelow.expression _) fun value hvalue => ?_
  exact nodeFrom_reads nofun hstart (by simp [fits_tokenSpan hop, *]) (by simp)

theorem unary_reads : Reads G atToken true w (unary below) := by
  unfold unary
  have hchain : ∀ {atToken : Bool} {p : Parse Node}, (∀ {w}, Reads G atToken true w p) →
      Reads G atToken true w (p >>= fun first => postfixChain below first) :=
    fun hp => .took hp fun first hfirst => postfixChain_reads hbelow hfirst (by simp)
  have hprimary : Reads G true true w (primary below >>= fun first => postfixChain below first) :=
    hchain (primary_reads hbelow)
  refine .here fun start hstart => .kind .unexpected fun kind => ?_
  split
  case h_1 => exact .unexpected
  case h_2 | h_3 | h_4 | h_5 | h_7 | h_8 => exact operatorOperand_reads hbelow (by nofun) _
  case h_6 =>
    refine .took (.discard advance_reads) fun _ _ => ?_
    refine .bind (hbelow.expression _) fun operand hoperand => ?_
    exact nodeFrom_reads nofun hstart (by simp [*]) (by simp)
  case h_9 =>
    refine .look fun type => ?_
    cases type with
    | some type => exact castExpression_reads hbelow type
    | none => exact hprimary
  case h_10 => exact hchain (newExpression_reads hbelow)
  case h_11 | h_12 | h_13 => exact keywordOperand_reads hbelow (by nofun) _
  case h_14 | h_15 | h_16 | h_17 => exact includeExpression_reads hbelow
  case h_18 => exact yieldExpression_reads hbelow
  case h_19 | h_20 => exact closure_reads hbelow fits_none
  case h_21 =>
    refine .look fun _ => .ite (fun _ => .next fun word hword => ?_) fun _ => hprimary
    exact (closure_reads hbelow (fits_some.2 (fits_tokenSpan hword))).forgo
  case h_22 => exact hprimary

/-! ### Binary operators -/

theorem assignment_reads (hleft : Result.Fits G left) (hw : Result.errors left ≤ w) :
    Reads G true true w (assignment below left) := by
  unfold assignment
  refine .next fun op hop => .ite (fun _ => ?_) fun _ => ?_
  · refine .bind eats_reads fun byRef _ => .bind (hbelow.expression _) fun right hright =>
      .pure ?_ ?_
    · simp [fits_merge (fits_span hleft) (fits_span hright), *]
    · rw [errors_ofKind (by split <;> nofun)]
      simp
      omega
  · refine .bind (hbelow.expression _) fun right hright => .pure ?_ ?_
    · simp [fits_merge (fits_span hleft) (fits_span hright), fits_tokenSpan hop, *]
    · simp
      omega

theorem ternary_reads (hleft : Result.Fits G left) (hw : Result.errors left ≤ w) :
    Reads G atToken true w (ternary below left) := by
  unfold ternary
  refine .took (.discard expect_reads) fun _ _ => .look fun _ => ?_
  refine .partUnless (hbelow.expression _) fun consequence hconsequence => ?_
  refine .bind (.discard expect_reads) fun _ _ => ?_
  refine .bind (hbelow.expression _) fun alternative halternative => .pure ?_ ?_
  · simp [fits_merge (fits_span hleft) (fits_span halternative), *]
  · simp
    omega

theorem instanceofTarget_reads : Reads G atToken true w (instanceofTarget below) := by
  unfold instanceofTarget
  refine .look fun _ => .ite (fun _ => qualifiedName_reads) fun _ => ?_
  exact .took (primary_reads hbelow) fun first hfirst => postfixChain_reads hbelow hfirst (by simp)

theorem binaryOperation_reads {prec : Precedence} {assoc : Associativity}
    (hleft : Result.Fits G left) (hw : Result.errors left ≤ w) :
    Reads G true true w (binaryOperation below left prec assoc) := by
  unfold binaryOperation
  refine .next fun op hop =>
    .either (instanceofTarget_reads hbelow) (hbelow.expression _) fun right hright => ?_
  refine .pure ?_ ?_
  · simp [fits_merge (fits_span hleft) (fits_span hright), fits_tokenSpan hop, *]
  · simp
    omega

theorem binary_reads (min : Precedence) : Reads G atToken true w (binary below min) := by
  unfold binary
  refine .took (unary_reads hbelow) fun first hfirst => ?_
  refine repeated_reads hfirst (by simp) fun left w hleft => ?_
  have hdone : ∀ {atToken : Bool}, Reads G atToken true (w + Result.errors left)
      (pure (Round.done left)) := .done hleft (Nat.le_add_left _ _)
  refine .kind hdone fun kind => .ite (fun _ => ?_) fun _ => .ite (fun _ => ?_) fun _ => ?_
  · exact .wrap (assignment_reads hbelow hleft (by simp)) (fun _ h => h) fun _ => Nat.le_refl _
  · exact .wrap (ternary_reads hbelow hleft (by simp)) (fun _ h => h) fun _ => Nat.le_refl _
  · split
    · exact hdone
    · refine .ite (fun _ => hdone) fun _ => ?_
      exact .wrap (binaryOperation_reads hbelow hleft (by simp)) (fun _ h => h) fun _ =>
        Nat.le_refl _

end

end PhpCheck.Grammar
