import PhpCheck.Proofs.Grammar.Reading.Expressions

/-!
Statements, read from the tokens of a text.
-/

namespace PhpCheck.Grammar

section

variable {G : Ground} {below : Below} {atToken : Bool} {w : Nat} (hbelow : below.Reads G)

include hbelow

/-! ### Control flow -/

theorem ifBranches_reads : Reads G atToken false w (ifBranches below) := by
  unfold ifBranches
  refine .bind (repeated_reads fits_nil (Nat.le_refl _) fun clauses w hclauses => ?_)
    fun clauses hclauses => .pure (fits_reverse.2 hclauses) (by simp)
  refine .here fun start hstart => .eats ?_ (.eats ?_ (.done hclauses (Nat.le_add_left _ _)))
  · refine .bind (parenthesized_reads hbelow) fun condition hcondition => ?_
    refine .bind (statementAsBlock_reads hbelow) fun body hbody => ?_
    refine .node nofun hstart (by simp [*]) fun clause hclause herrors => ?_
    exact .more (by simp [*]) (by simp [herrors]; omega)
  · refine .bind (statementAsBlock_reads hbelow) fun body hbody => ?_
    refine .node nofun hstart (by simp [*]) fun clause hclause herrors => ?_
    exact .done (by simp [*]) (by simp [herrors]; omega)

theorem ifColonBranches_reads (stops : List TokenKind) :
    Reads G atToken false w (ifColonBranches below stops) := by
  unfold ifColonBranches
  refine .bind (repeated_reads fits_nil (Nat.le_refl _) fun clauses w hclauses => ?_)
    fun clauses hclauses => .pure (fits_reverse.2 hclauses) (by simp)
  refine .here fun start hstart => .eats ?_ (.eats ?_ (.done hclauses (Nat.le_add_left _ _)))
  · refine .bind (parenthesized_reads hbelow) fun condition hcondition => ?_
    refine .bind (.discard expect_reads) fun _ _ => ?_
    refine .bind (blockUntil_reads hbelow _) fun body hbody => ?_
    refine .node nofun hstart (by simp [*]) fun clause hclause herrors => ?_
    exact .more (by simp [*]) (by simp [herrors]; omega)
  · refine .bind (.discard expect_reads) fun _ _ => ?_
    refine .bind (blockUntil_reads hbelow _) fun body hbody => ?_
    refine .node nofun hstart (by simp [*]) fun clause hclause herrors => ?_
    exact .more (by simp [*]) (by simp [herrors]; omega)

theorem ifStatement_reads : Reads G atToken true w (ifStatement below) := by
  unfold ifStatement
  refine .took expect_reads fun word hword => ?_
  have hstart := fits_start (fits_tokenSpan hword)
  refine .bind (parenthesized_reads hbelow) fun condition hcondition => .eats ?_ ?_
  · refine .bind (blockUntil_reads hbelow _) fun body hbody => ?_
    refine .bind (ifColonBranches_reads hbelow _) fun clauses hclauses => ?_
    refine .bind (.discard expect_reads) fun _ _ => .bind expectSemicolon_reads fun _ _ => ?_
    exact nodeFrom_reads nofun hstart (by simp [*]) (by simp; omega)
  · refine .bind (statementAsBlock_reads hbelow) fun body hbody => ?_
    refine .bind (ifBranches_reads hbelow) fun clauses hclauses => ?_
    exact nodeFrom_reads nofun hstart (by simp [*]) (by simp; omega)

theorem whileStatement_reads : Reads G atToken true w (whileStatement below) := by
  unfold whileStatement
  refine .took expect_reads fun word hword => ?_
  refine .bind (parenthesized_reads hbelow) fun condition hcondition => ?_
  refine .bind (bodyUntil_reads hbelow _) fun body hbody => ?_
  exact nodeFrom_reads nofun (fits_start (fits_tokenSpan hword)) (by simp [*]) (by simp)

theorem doWhileStatement_reads : Reads G atToken true w (doWhileStatement below) := by
  unfold doWhileStatement
  refine .took expect_reads fun word hword =>
    .bind (statementAsBlock_reads hbelow) fun body hbody => ?_
  refine .bind (.discard expect_reads) fun _ _ => ?_
  refine .bind (parenthesized_reads hbelow) fun condition hcondition => ?_
  refine .bind expectSemicolon_reads fun _ _ => ?_
  exact nodeFrom_reads nofun (fits_start (fits_tokenSpan hword)) (by simp [*]) (by simp)

theorem forClause_reads (terminator : TokenKind) :
    Reads G atToken false w (forClause below terminator) := by
  unfold forClause
  refine .here fun start hstart => .bind (expressionsUntil_reads hbelow _) fun items hitems => ?_
  exact nodeFrom_reads nofun hstart hitems (by simp)

theorem forStatement_reads : Reads G atToken true w (forStatement below) := by
  unfold forStatement
  refine .took expect_reads fun word hword => .bind (.discard expect_reads) fun _ _ => ?_
  refine .bind (forClause_reads hbelow _) fun init hinit =>
    .bind (.discard expect_reads) fun _ _ => ?_
  refine .bind (forClause_reads hbelow _) fun condition hcondition => ?_
  refine .bind (.discard expect_reads) fun _ _ => ?_
  refine .bind (forClause_reads hbelow _) fun update hupdate => ?_
  refine .bind (.discard expect_reads) fun _ _ => .bind (bodyUntil_reads hbelow _) fun body hbody =>
    ?_
  exact nodeFrom_reads nofun (fits_start (fits_tokenSpan hword)) (by simp [*]) (by simp; omega)

theorem foreachStatement_reads : Reads G atToken true w (foreachStatement below) := by
  unfold foreachStatement
  refine .took expect_reads fun word hword => .bind (.discard expect_reads) fun _ _ => ?_
  refine .bind (hbelow.expression _) fun subject hsubject =>
    .bind (.discard expect_reads) fun _ _ => ?_
  refine .bind eat_reads fun firstRef hfirstRef => .bind (hbelow.expression _) fun first hfirst =>
    ?_
  refine .bind eats_reads fun _ _ => ?_
  extract_lets rest
  have hrest : ∀ {w : Nat} (key : Option Node) (value : Node) (reference : Option Token),
      Result.Fits G key → Result.Fits G value → Result.Fits G reference →
        Result.errors key + Result.errors value + Result.errors subject ≤ w →
          Reads G false false w (rest (key, value, reference)) := by
    intro w key value reference hkey hvalue hreference hw
    refine .bind (.discard expect_reads) fun _ _ =>
      .bind (bodyUntil_reads hbelow _) fun body hbody => ?_
    exact nodeFrom_reads nofun (fits_start (fits_tokenSpan hword)) (by simp [*]) (by simp; omega)
  refine .ite (fun _ => ?_) fun _ => .given ?_
  · refine .bind eat_reads fun reference hreference => ?_
    refine .bind (hbelow.expression _) fun value hvalue => .given ?_
    exact hrest (some first) value reference (fits_some.2 hfirst) hvalue hreference (by simp; omega)
  · exact hrest none first firstRef fits_none hfirst hfirstRef (by simp; omega)

theorem switchLabel_reads : Reads G atToken true w (switchLabel below) := by
  unfold switchLabel
  refine .eats (.bind (hbelow.expression _) fun value hvalue => ?_)
    (.eats (.pure ⟨nofun, fits_nil⟩ (Nat.zero_le _)) .unexpected)
  exact .pure ⟨nofun, by simpa using hvalue⟩ (by simp)

theorem switchClause_reads (stops : List TokenKind) :
    Reads G atToken true w (switchClause below stops) := by
  unfold switchClause
  refine .here fun start hstart => .took (switchLabel_reads hbelow) fun found hfound => ?_
  obtain ⟨kind, value⟩ := found
  obtain ⟨hkind, hvalue⟩ := fits_pair.1 hfound
  have hrest : Reads G false false (w + Result.errors value)
      (statementsUntil below stops >>= fun statements =>
        nodeFrom kind start (value ++ statements)) := by
    refine .bind (statementsUntil_reads hbelow _) fun statements hstatements => ?_
    exact nodeFrom_reads hkind hstart (by simp [*]) (by simp)
  rw [errors_pair, errors_nodeKind, Nat.zero_add]
  refine .bind eats_reads fun _ _ => .ite (fun _ => ?_) fun _ => hrest
  exact .bind (.discard expect_reads) fun _ _ => hrest

theorem switchStatement_reads : Reads G atToken true w (switchStatement below) := by
  unfold switchStatement
  refine .took expect_reads fun word hword => ?_
  refine .bind (parenthesized_reads hbelow) fun subject hsubject =>
    .bind eats_reads fun colon _ => ?_
  extract_lets close rest
  have hrest : ∀ {w : Nat}, Result.errors subject ≤ w → Reads G false false w (rest ()) := by
    intro w hw
    refine .bind (.discard eat_reads) fun _ _ => ?_
    refine .bind (repeated_reads fits_nil (Nat.le_refl _) fun clauses w hclauses => ?_)
      fun clauses hclauses => .bind (.discard expect_reads) fun _ _ => ?_
    · refine .look fun _ => .look fun _ =>
        .ite (fun _ => .done hclauses (Nat.le_add_left _ _)) fun _ => ?_
      exact .took (switchClause_reads hbelow _) fun clause hclause =>
        .more (by simp [*]) (by simp; omega)
    have hnode : ∀ {w' : Nat}, w + Result.errors clauses ≤ w' → Reads G false false w'
        (nodeFrom .switchStatement word.span.start
          (subject.inField "subject" :: clauses.reverse)) :=
      fun hw' => nodeFrom_reads nofun
        (fits_start (fits_tokenSpan hword)) (by simp [*]) (by simp; omega)
    exact .ite (fun _ => .bind expectSemicolon_reads fun _ _ => hnode (by simp)) fun _ =>
      hnode (by simp)
  refine .ite (fun _ => ?_) fun _ => hrest (by simp)
  exact .bind (.discard expect_reads) fun _ _ => hrest (by simp)

theorem catchClause_reads : Reads G atToken true w (catchClause below) := by
  unfold catchClause
  refine .here fun start hstart => .bind discard_advance_reads fun _ _ => ?_
  refine .took (.discard expect_reads) fun _ _ => .here fun typesStart htypesStart => ?_
  refine .bind (separated_reads qualifiedName_reads) fun names hnames => ?_
  refine .node nofun htypesStart hnames fun types htypes htypesErrors => .look fun _ => ?_
  refine .partIf simpleVariable_reads fun caught hcaught => ?_
  refine .bind (.discard expect_reads) fun _ _ => .bind (braceBlock_reads hbelow) fun body hbody =>
    ?_
  exact nodeFrom_reads nofun hstart (by simp [*]) (by simp; omega)

theorem tryStatement_reads : Reads G atToken true w (tryStatement below) := by
  unfold tryStatement
  refine .took expect_reads fun word hword => .bind (braceBlock_reads hbelow) fun body hbody => ?_
  refine .bind (repeated_reads fits_nil (Nat.le_refl _) fun catches w hcatches => ?_)
    fun catches hcatches => ?_
  · refine .look fun _ => .ite (fun _ => ?_) fun _ => .done hcatches (Nat.le_add_left _ _)
    refine .took (catchClause_reads hbelow) fun clause hclause =>
      .more (by simp [*]) (by simp; omega)
  refine .here fun last hlast => .bind eats_reads fun _ _ => ?_
  extract_lets rest
  have hrest : ∀ {w : Nat} (final : List Node), Result.Fits G final →
      Result.errors final + Result.errors body + Result.errors catches ≤ w →
        Reads G false false w (rest final) := fun final hfinal hw =>
    nodeFrom_reads nofun (fits_start (fits_tokenSpan hword)) (by simp [*]) (by simp; omega)
  refine .ite (fun _ => .bind (braceBlock_reads hbelow) fun block hblock => ?_) fun _ =>
    .given (hrest _ fits_nil (by simp))
  refine .node nofun hlast (by simp [*]) fun clause hclause herrors => .given ?_
  exact hrest _ (by simp [*]) (by simp [herrors]; omega)

theorem declareStatement_reads : Reads G atToken true w (declareStatement below) := by
  unfold declareStatement
  refine .took expect_reads fun word hword => .bind (.discard expect_reads) fun _ _ => ?_
  refine .bind (separated_reads (constElement_reads hbelow)) fun directives hdirectives => ?_
  refine .bind (.discard expect_reads) fun _ _ => .look fun _ => ?_
  refine .partOr (bodyUntil_reads hbelow _) expectSemicolon_reads fun body hbody => ?_
  exact nodeFrom_reads nofun (fits_start (fits_tokenSpan hword)) (by simp [*]) (by simp)

/-! ### Jumps -/

theorem optionalOperand_reads (field : String) :
    Reads G atToken false w (optionalOperand below field) := by
  unfold optionalOperand
  refine .look fun _ => .look fun _ => .ite (fun _ => .pure fits_nil (Nat.zero_le _)) fun _ => ?_
  exact .bind (hbelow.expression _) fun value hvalue => .pure (by simp [*]) (by simp)

theorem returnStatement_reads : Reads G atToken true w (returnStatement below) := by
  unfold returnStatement
  refine .took expect_reads fun word hword =>
    .bind (optionalOperand_reads hbelow _) fun value hvalue => ?_
  refine .bind expectSemicolon_reads fun _ _ => ?_
  exact nodeFrom_reads nofun (fits_start (fits_tokenSpan hword)) hvalue (by simp)

theorem loopJump_reads {kind : NodeKind} (hkind : kind ≠ .error) :
    Reads G true true w (loopJump below kind) := by
  unfold loopJump
  refine .here fun start hstart => .took (.discard advance_reads) fun _ _ => ?_
  refine .bind (optionalOperand_reads hbelow _) fun depth hdepth => ?_
  refine .bind expectSemicolon_reads fun _ _ => nodeFrom_reads hkind hstart hdepth (by simp)

omit hbelow in
theorem gotoStatement_reads : Reads G atToken true w gotoStatement := by
  unfold gotoStatement
  refine .took expect_reads fun word hword => .bind expect_reads fun label hlabel => ?_
  refine .bind expectSemicolon_reads fun _ _ => ?_
  exact nodeFrom_reads nofun
    (fits_start (fits_tokenSpan hword)) (by simp [fits_tokenSpan hlabel]) (by simp)

omit hbelow in
theorem labelStatement_reads : Reads G atToken true w labelStatement := by
  unfold labelStatement
  refine .took expect_reads fun label hlabel => .bind (.discard expect_reads) fun _ _ => ?_
  have hspan := fits_tokenSpan hlabel
  exact nodeFrom_reads nofun (fits_start hspan) (by simp [hspan]) (by simp)

/-! ### Namespaces and imports -/

theorem namespaceDefinition_reads : Reads G atToken true w (namespaceDefinition below) := by
  unfold namespaceDefinition
  refine .took expect_reads fun word hword => .look fun _ => ?_
  refine .partUnless qualifiedName_reads fun name hname => .look fun _ => ?_
  refine .partOr (braceBlock_reads hbelow) expectSemicolon_reads fun body hbody => ?_
  exact nodeFrom_reads nofun (fits_start (fits_tokenSpan hword)) (by simp [*]) (by simp)

omit hbelow in
theorem importKind_reads : Reads G atToken false w importKind := by
  unfold importKind
  refine .current (fun s hs => ?_) fun s tok hs htok => ?_ <;> rw [hs]
  · exact .pure fits_none (Nat.zero_le _)
  · refine .ite (fun _ => .bind discard_advance_reads fun _ _ => ?_) fun _ =>
      .pure fits_none (Nat.zero_le _)
    exact .pure (by simp [fits_tokenSpan htok]) (by simp)

omit hbelow in
theorem importClause_reads {start : Nat} {name : Node} {kind : Option Node}
    (hstart : Result.Fits G start) (hname : Result.Fits G name) (hkind : Result.Fits G kind)
    (hw : Result.errors name + Result.errors kind ≤ w) :
    Reads G atToken false w (importClause start name kind) := by
  unfold importClause
  refine .bind eats_reads fun _ _ => .partIf memberName_reads fun shortName hshortName => ?_
  exact nodeFrom_reads nofun hstart (by simp [*]) (by simp; omega)

omit hbelow in
theorem importGroup_reads {head : Node} (hhead : Result.Fits G head) :
    Reads G atToken false w (importGroup head) := by
  unfold importGroup
  have hitem : ∀ {atToken : Bool} {w : Nat}, Reads G atToken true w (do
      let start ← here
      let kind ← importKind
      let inner ← qualifiedName
      let full := String.ofList (head.textD.toList.reverse.dropWhile (· == '\\')).reverse ++ "\\" ++
        inner.textD
      importClause start (Node.leaf .name (head.span.merge inner.span) full) kind) := by
    refine .here fun start hstart => .bind importKind_reads fun kind hkind => ?_
    refine .took qualifiedName_reads fun inner hinner => ?_
    have hspan := fits_merge (fits_span hhead) (fits_span hinner)
    exact importClause_reads hstart (by simp [hspan]) hkind (by simp; omega)
  refine .bind (commaList_reads hitem) fun clauses hclauses => ?_
  exact .bind (.discard expect_reads) fun _ _ => .pure hclauses (by simp)

omit hbelow in
theorem useDeclaration_reads : Reads G atToken true w useDeclaration := by
  unfold useDeclaration
  refine .took expect_reads fun word hword => .bind importKind_reads fun kind hkind => ?_
  refine .bind (separated_reads (fun {atToken w} => ?_)) fun groups hgroups => ?_
  · refine .here fun start hstart => .took qualifiedName_reads fun name hname => ?_
    have hgroup : ∀ w, Reads G false false w (importGroup name) := fun w => importGroup_reads hname
    refine .look fun _ => .look fun _ => .ite (fun _ => ?_) fun _ => .look fun _ =>
      .ite (fun _ => ?_) fun _ => ?_
    · exact .bind discard_advance_reads fun _ _ => .bind discard_advance_reads fun _ _ => hgroup _
    · exact .bind discard_advance_reads fun _ _ => hgroup _
    · refine .wrap (importClause_reads hstart hname fits_none (by simp)) (fun clause hclause => ?_)
        fun _ => Nat.le_refl _
      exact fits_cons.2 ⟨hclause, fits_nil⟩
  refine .bind expectSemicolon_reads fun _ _ => ?_
  exact nodeFrom_reads nofun (fits_start (fits_tokenSpan hword))
    (fits_append.2 ⟨fits_optField.2 hkind, fits_map_inField.2 (fits_flatten.2 hgroups)⟩)
    (by rw [errors_append, errors_optField, errors_map_inField, errors_flatten]; simp)

/-! ### Simple statements -/

theorem expressionStatement_reads : Reads G atToken true w (expressionStatement below) := by
  unfold expressionStatement
  refine .here fun start hstart => .takeDoc fun doc hdoc hdocErrors => ?_
  refine .took (hbelow.expression _) fun value hvalue => .bind expectSemicolon_reads fun _ _ => ?_
  exact nodeFrom_reads nofun hstart (by simp [*]) (by simp; omega)

theorem echoStatement_reads (opening : TokenKind) (what : String) :
    Reads G atToken true w (echoStatement below opening what) := by
  unfold echoStatement
  refine .took expect_reads fun word hword =>
    .bind (expressionsUntil_reads hbelow _) fun values hvalues => ?_
  refine .bind expectSemicolon_reads fun _ _ => ?_
  exact nodeFrom_reads nofun (fits_start (fits_tokenSpan hword)) hvalues (by simp)

omit hbelow in
theorem globalDeclaration_reads : Reads G atToken true w globalDeclaration := by
  unfold globalDeclaration
  refine .took expect_reads fun word hword => ?_
  refine .bind (separated_reads simpleVariable_reads) fun names hnames => ?_
  refine .bind expectSemicolon_reads fun _ _ => ?_
  exact nodeFrom_reads nofun (fits_start (fits_tokenSpan hword)) hnames (by simp)

theorem staticDeclaration_reads : Reads G atToken true w (staticDeclaration below) := by
  unfold staticDeclaration
  refine .took expect_reads fun word hword => ?_
  refine .bind (separated_reads (initialized_reads hbelow (by nofun))) fun names hnames => ?_
  refine .bind expectSemicolon_reads fun _ _ => ?_
  exact nodeFrom_reads nofun (fits_start (fits_tokenSpan hword)) hnames (by simp)

theorem unsetStatement_reads : Reads G atToken true w (unsetStatement below) := by
  unfold unsetStatement
  refine .took expect_reads fun word hword => .bind (.discard expect_reads) fun _ _ => ?_
  refine .bind (expressionsUntil_reads hbelow _) fun targets htargets => ?_
  refine .bind (.discard expect_reads) fun _ _ => .bind expectSemicolon_reads fun _ _ => ?_
  exact nodeFrom_reads nofun (fits_start (fits_tokenSpan hword)) htargets (by simp)

/-! ### Any statement -/

instance : Looks atFunctionDeclaration := ⟨fun src s => by
  have hpeek : peek? src s = .ok ((State.nthToken? 0 s.rest).map (·.kind)) s := rfl
  rw [atFunctionDeclaration, bind_ok hpeek]
  generalize (State.nthToken? 0 s.rest).map (·.kind) = next
  cases next with
  | none => exact ⟨_, rfl⟩
  | some kind => cases kind <;> exact ⟨_, rfl⟩⟩

instance : Looks atClassDeclaration := ⟨fun src s => by
  have hcheck : check .kwClass src s = .ok (s.current.map (·.kind) == some .kwClass) s := rfl
  rw [atClassDeclaration, bind_ok hcheck]
  exact iteInduction (motive := fun p : Parse Bool => ∃ b, p src s = .ok b s) (fun _ => ⟨_, rfl⟩)
    fun _ => ⟨_, rfl⟩⟩

theorem statement_reads : Reads G atToken true w (statement below) := by
  unfold statement
  refine .kind .unexpected fun kind => ?_
  have hexpression : Reads G true true w (expressionStatement below) :=
    expressionStatement_reads hbelow
  have hclass : Reads G true true w (do
      if ← atClassDeclaration then classDeclaration below else expressionStatement below) :=
    .look fun _ => .ite (fun _ => classDeclaration_reads hbelow) fun _ => hexpression
  split
  · exact .unexpected
  · exact braceBlock_reads hbelow
  · refine .took expect_reads fun tok htok => .pure ?_ (by simp)
    exact fits_ofKind.2 ⟨fits_tokenSpan htok, fits_nil⟩
  · exact .took expect_reads fun tok htok => .pure (fits_leaf.2 (fits_tokenSpan htok)) (by simp)
  · exact echoStatement_reads hbelow _ _
  · exact ifStatement_reads hbelow
  · exact whileStatement_reads hbelow
  · exact doWhileStatement_reads hbelow
  · exact forStatement_reads hbelow
  · exact foreachStatement_reads hbelow
  · exact switchStatement_reads hbelow
  · exact tryStatement_reads hbelow
  · exact declareStatement_reads hbelow
  · exact returnStatement_reads hbelow
  · exact loopJump_reads hbelow nofun
  · exact loopJump_reads hbelow nofun
  · exact gotoStatement_reads
  · exact .look fun _ => .ite (fun _ => functionDefinition_reads hbelow) fun _ => hexpression
  iterate 4 exact hclass
  · exact interfaceDeclaration_reads hbelow
  · exact traitDeclaration_reads hbelow
  · exact constDeclaration_reads hbelow
  · exact .look fun _ => .ite (fun _ => hexpression) fun _ => namespaceDefinition_reads hbelow
  · exact useDeclaration_reads
  · exact echoStatement_reads hbelow _ _
  · exact globalDeclaration_reads
  · exact .look fun _ => .ite (fun _ => staticDeclaration_reads hbelow) fun _ => hexpression
  · exact unsetStatement_reads hbelow
  · exact .look fun _ => .ite (fun _ => labelStatement_reads) fun _ => hexpression
  · exact hexpression

end

end PhpCheck.Grammar
