import PhpCheck.Proofs.Grammar.Climbing

/-!
Reading what is written of a tree of binary operators gives back the tree
(`parse_inverts_render`).  A file that consists of one tree either is read as that tree, or
has more levels than the nesting limit allows (`parse_file`).
-/

namespace PhpCheck

namespace Grammar

/-! ### A file with one statement -/

section

variable {src : Source} {errors : List SyntaxError} {prevEnd : Nat} {toks : List Token}

/-- One round over the statements of a whole file. -/
def statementRound (below : Below) (done : List Node) : Parse (Round (List Node)) := do
  match ← kind? with
  | none => return .done done
  | some kind =>
    if kind == .openTag || kind == .closeTag then
      discard advance
      return .more done
    let start ← here
    match ← attempt (below .statement) with
    | .ok node => return .more (node :: done)
    | .error e =>
      note e
      synchronize
      return .more ((← nodeFrom .error start []) :: done)

theorem statementsUntil_eq (below : Below) : statementsUntil below [] =
    repeated [] (statementRound below) >>= fun statements => pure statements.reverse := rfl

/-- A semicolon that nothing follows ends a statement. -/
theorem expectSemicolon_before {semicolon : Token} (hs : semicolon.kind = .semicolon) :
    expectSemicolon src (.before errors prevEnd [semicolon]) =
      .ok () (.before errors semicolon.span.stop []) := by
  obtain ⟨kind, span, text⟩ := semicolon
  obtain rfl := hs
  rfl

variable {below : Below} {first semicolon : Token} {done : List Node}

/-- What begins with a variable or a parenthesis is an expression. -/
theorem statement_before (hfirst : first.kind = .variableName ∨ first.kind = .lParen) :
    statement below src (.before [] prevEnd (first :: toks)) =
      (below.expression >>= fun value => expectSemicolon >>= fun _ =>
        nodeFrom .expressionStatement first.span.start [value.inField "expression"]) src
          (.before [] prevEnd (first :: toks)) := by
  obtain ⟨kind, span, text⟩ := first
  rcases hfirst with hfirst | hfirst <;>
  · obtain rfl := hfirst
    rfl

theorem statementRound_openTag (hopen : first.kind = .openTag) (htoks : Plain toks) :
    statementRound below done src (.before errors prevEnd (first :: toks)) =
      .ok (.more done) (.before errors first.span.stop toks) := by
  rw [statementRound, bind_ok kind?_before, hopen]
  show (discard advance >>= fun _ => pure (Round.more done)) src _ = _
  rw [bind_ok (discard_ok (advance_before htoks))]
  rfl

/-- What stands behind the opening tag is what a file consists of. -/
theorem statementsUntil_file {stop : Nat} (hopen : first.kind = .openTag) (htoks : Plain toks)
    (hrun : rounds (statementRound below) (toks.length + 1) [] src
      (.before [] first.span.stop toks) = .ok done (.before errors stop [])) :
    statementsUntil below [] src (.before [] 0 (first :: toks)) =
      .ok done.reverse (.before errors stop []) := by
  have hrounds : repeated [] (statementRound below) src (.before [] 0 (first :: toks)) =
      .ok done (.before errors stop []) := by
    rw [repeated_eq, rounds_more (statementRound_openTag hopen htoks)]
    show rounds _ ((toks.map Except.ok).length + 1) _ _ _ = _
    rw [List.length_map, hrun]
  rw [statementsUntil_eq, bind_ok hrounds]
  rfl

theorem attempt_eq {α : Type} {p : Parse α} {s : State} : attempt p src s =
    match p src s with
    | .ok a s => .ok (.ok a) s
    | .error e s => .ok (.error e) s := rfl

/-- Between tags each round reads a statement, and skips what follows one that fails. -/
theorem statementRound_eq (hfirst : first.kind ≠ .openTag ∧ first.kind ≠ .closeTag) :
    statementRound below done src (.before errors prevEnd (first :: toks)) =
      (attempt (below .statement) >>= fun result => match result with
        | .ok node => pure (.more (node :: done))
        | .error e => note e >>= fun _ => synchronize >>= fun _ =>
          nodeFrom .error first.span.start [] >>= fun node => pure (.more (node :: done)))
        src (.before errors prevEnd (first :: toks)) := by
  rw [statementRound, bind_ok kind?_before]
  dsimp only
  rw [beq_false_of_ne hfirst.1, beq_false_of_ne hfirst.2]
  rfl

theorem statementRound_ok {n : Node} {s : State}
    (hfirst : first.kind ≠ .openTag ∧ first.kind ≠ .closeTag)
    (hn : below .statement src (.before errors prevEnd (first :: toks)) = .ok n s) :
    statementRound below done src (.before errors prevEnd (first :: toks)) =
      .ok (.more (n :: done)) s := by
  have hattempt : attempt (below .statement) src (.before errors prevEnd (first :: toks)) =
      .ok (.ok n) s := by rw [attempt_eq, hn]
  rw [statementRound_eq hfirst, bind_ok hattempt]
  rfl

/-- After a statement that fails, what skipping leaves comes next. -/
theorem statementRound_error (done : List Node) {e : SyntaxError} {stop stop' : Nat}
    {more : List Token}
    (hfirst : first.kind ≠ .openTag ∧ first.kind ≠ .closeTag)
    (he : below .statement src (.before [] prevEnd (first :: toks)) =
      .error e (.before [] stop more))
    (hskip : synchronize src (.before [e] stop more) = .ok () (.before [e] stop' [])) :
    ∃ n, statementRound below done src (.before [] prevEnd (first :: toks)) =
      .ok (.more (n :: done)) (.before [e] stop' []) := by
  have hattempt : attempt (below .statement) src (.before [] prevEnd (first :: toks)) =
      .ok (.error e) (.before [] stop more) := by rw [attempt_eq, he]
  have hnote : note e src (.before [] stop more) = .ok () (.before [e] stop more) := rfl
  refine ⟨Node.ofKind .error (src.span first.span.start (max stop' first.span.start)) [], ?_⟩
  rw [statementRound_eq hfirst, bind_ok hattempt]
  dsimp only
  rw [bind_ok hnote, bind_ok hskip]
  rfl

/-- One round of skipping after a fault. -/
def skipRound (last : Option Token) : Parse (Round (Option Token)) := do
  if ← atEnd then return .done last
  if last.any (·.kind == .semicolon) then return .done last
  if ← checkAny boundaries then return .done last
  return .more (← advance)

theorem skipRound_before {last : Option Token} {t : Token} {more : List Token}
    (hlast : last.any (·.kind == .semicolon) = false) (hplain : Plain (t :: more)) :
    skipRound last src (.before errors prevEnd (t :: more)) =
      .ok (.more (some t)) (.before errors t.span.stop more) := by
  have hboundary : ∀ kind ∈ infixKinds, boundaries.contains kind = false := by decide
  obtain ⟨ht, hmore⟩ := List.forall_mem_cons.1 hplain
  have hend : atEnd src (.before errors prevEnd (t :: more)) =
      .ok false (.before errors prevEnd (t :: more)) := rfl
  have hcheck : checkAny boundaries src (.before errors prevEnd (t :: more)) =
      .ok false (.before errors prevEnd (t :: more)) := by
    show EStateM.Result.ok (boundaries.contains t.kind) _ = _
    rw [hboundary t.kind ht]
  rw [skipRound, bind_ok hend, hlast]
  show (checkAny boundaries >>= _) src _ = _
  rw [bind_ok hcheck]
  show (advance >>= _) src _ = _
  rw [bind_ok (advance_before hmore)]
  rfl

/-- Skipping goes up to the semicolon at the end. -/
theorem rounds_skipRound {last : Option Token} (hlast : last.any (·.kind == .semicolon) = false)
    (hplain : Plain (toks ++ [semicolon]))
    (hinner : ∀ t ∈ toks, t.kind ≠ .semicolon) :
    rounds skipRound (toks.length + 2) last src (.before errors prevEnd (toks ++ [semicolon])) =
      .ok (some semicolon) (.before errors semicolon.span.stop []) := by
  induction toks generalizing last prevEnd with
  | nil => exact (rounds_more (skipRound_before hlast hplain)).trans (rounds_done rfl)
  | cons t toks ih =>
    obtain ⟨ht, hinner⟩ := List.forall_mem_cons.1 hinner
    have hlast' : (some t).any (·.kind == .semicolon) = false := beq_false_of_ne ht
    exact (rounds_more (skipRound_before hlast hplain)).trans
      (ih hlast' (List.forall_mem_cons.1 hplain).2 hinner)

/-- From within the statement, skipping goes up to the end of the file. -/
theorem synchronize_before (src : Source) (errors : List SyntaxError) (prevEnd : Nat)
    {more : List Token} (hplain : Plain (toks ++ [semicolon]))
    (hinner : ∀ t ∈ toks, t.kind ≠ .semicolon) (hmore : more <:+ toks ++ [semicolon]) :
    ∃ stop, synchronize src (.before errors prevEnd more) = .ok () (.before errors stop []) := by
  have hrest : Plain more := fun t ht => hplain t (hmore.mem ht)
  rcases List.suffix_concat_iff.1 hmore with rfl | ⟨inner, rfl, hsuffix⟩
  · exact ⟨prevEnd, rfl⟩
  have hinner : ∀ t ∈ inner, t.kind ≠ .semicolon := fun t ht => hinner t (hsuffix.mem ht)
  rw [synchronize]
  cases inner with
  | nil =>
    refine ⟨semicolon.span.stop, ?_⟩
    rw [List.nil_append, bind_ok (advance_before fun _ h => absurd h List.not_mem_nil)]
    rfl
  | cons t inner =>
    obtain ⟨ht, hinner⟩ := List.forall_mem_cons.1 hinner
    have hadvance : advance src (.before errors prevEnd (t :: (inner ++ [semicolon]))) =
        .ok (some t) (.before errors t.span.stop (inner ++ [semicolon])) :=
      advance_before (List.forall_mem_cons.1 hrest).2
    refine ⟨semicolon.span.stop, ?_⟩
    rw [List.cons_append, bind_ok hadvance]
    refine discard_ok (a := some semicolon) (repeated_eq.trans ?_)
    have hlength : (State.before errors t.span.stop (inner ++ [semicolon])).rest.length =
        inner.length := by
      cases inner <;> simp [State.before]
    rw [hlength]
    exact rounds_skipRound (beq_false_of_ne ht) (List.forall_mem_cons.1 hrest).2 hinner

end

end Grammar

/-! ### Whole files -/

namespace InfixTree

/-- Every tree begins with a variable or a parenthesis. -/
theorem words_head (T : InfixTree) :
    ∃ w ws, T.words = w :: ws ∧ (w.1 = .variableName ∨ w.1 = .lParen) := by
  induction T with
  | leaf name => exact ⟨_, _, rfl, .inl rfl⟩
  | node left op right ihl _ =>
    rw [words]
    cases left.enclosedLeft op with
    | true => exact ⟨_, _, rfl, .inr rfl⟩
    | false =>
      obtain ⟨w, ws, hw, hkind⟩ := ihl
      exact ⟨w, _, by rw [enclose, hw]; rfl, hkind⟩

theorem mem_enclose {enclosed : Bool} {ws : List Word} {w : Word} (hw : w ∈ enclose enclosed ws) :
    w = (.lParen, "(") ∨ w = (.rParen, ")") ∨ w ∈ ws := by
  cases enclosed with
  | false => exact .inr (.inr hw)
  | true => simpa [enclose, or_left_comm, or_comm] using hw

theorem words_kind (T : InfixTree) : ∀ w ∈ T.words, w.1 ∈ infixKinds ∧ w.1 ≠ .semicolon := by
  have hkinds : ∀ kind ∈ (infixSymbols ++ infixKeywords).map (·.2), kind ≠ .semicolon := by decide
  have henclose : ∀ {enclosed : Bool} {ws : List Word},
      (∀ w ∈ ws, w.1 ∈ infixKinds ∧ w.1 ≠ .semicolon) →
        ∀ w ∈ enclose enclosed ws, w.1 ∈ infixKinds ∧ w.1 ≠ .semicolon := by
    intro enclosed ws hws w hw
    rcases mem_enclose hw with rfl | rfl | hw
    · exact ⟨by decide, nofun⟩
    · exact ⟨by decide, nofun⟩
    · exact hws w hw
  induction T with
  | leaf name =>
    exact List.forall_mem_singleton.2 ⟨(by decide : TokenKind.variableName ∈ infixKinds), nofun⟩
  | node left op right ihl ihr =>
    refine List.forall_mem_append.2 ⟨henclose ihl, List.forall_mem_cons.2 ⟨?_, henclose ihr⟩⟩
    exact ⟨op.kind_mem, hkinds _ (List.mem_map_of_mem (f := Prod.snd) op.mem_infix)⟩

/-- The node of a file that consists of a tree, without places. -/
def fileNode (T : InfixTree) : Node :=
  Node.ofKind .sourceFile default
    [Node.ofKind .expressionStatement default [T.toNode.inField "expression"]]

end InfixTree

namespace Grammar

section

variable (code : Nat → Nat → Parse Node) (src : Source) (levels prevEnd : Nat) {T : InfixTree}
  {body : List Token} {semicolon : Token}

/-- A tree as a statement needs two levels more than its own. -/
theorem statement_tree (hbody : body.map Token.word = T.words)
    (hsemicolon : semicolon.kind = .semicolon) :
    (T.nesting + 1 ≤ levels ∧ ∃ n stop,
        statement (descend code levels) src (.before [] prevEnd (body ++ [semicolon])) =
          .ok n (.before [] stop []) ∧
        n.unplaced = Node.ofKind .expressionStatement default [T.toNode.inField "expression"]) ∨
      (levels < T.nesting + 1 ∧ TooDeep (body ++ [semicolon])
        (statement (descend code levels) src (.before [] prevEnd (body ++ [semicolon])))) := by
  have hplain : Plain body := fun t ht =>
    (T.words_kind t.word (hbody ▸ List.mem_map_of_mem ht)).1
  have hT : Readable code src false T := readable T
  have hread := hT.reads_below levels prevEnd .lowest hbody hplain (Nat.zero_le _)
    (stops_semicolon _ hsemicolon)
  obtain ⟨w, ws, hw, hhead⟩ := T.words_head
  obtain ⟨first, more, rfl, rfl, -⟩ := List.map_eq_cons_iff.1 (hbody.trans hw)
  rw [List.cons_append, statement_before hhead]
  rcases hread with ⟨hdepth, n, stop, hr, hn⟩ | ⟨hdepth, hr⟩
  · refine .inl ⟨hdepth, Node.ofKind .expressionStatement (src.span first.span.start
      (max semicolon.span.stop first.span.start)) [n.inField "expression"],
      semicolon.span.stop, ?_, ?_⟩
    · exact (bind_ok hr).trans (bind_ok (expectSemicolon_before hsemicolon))
    · simp [Node.unplacedAll, hn]
  · exact .inr ⟨hdepth, hr.bind⟩

end

end Grammar

open Grammar in
/-- A tree is read back from its file, unless it has too many levels. -/
theorem parse_file (T : InfixTree) :
    (T.nesting + 2 ≤ maxNesting ∧ (parse (.ofString T.file)).1.unplaced = T.fileNode ∧
        (parse (.ofString T.file)).2 = []) ∨
      (maxNesting < T.nesting + 2 ∧ ∃ e ∈ (parse (.ofString T.file)).2,
        e.fault = .nestingTooDeep maxNesting) := by
  obtain ⟨toks, htoks, hwords⟩ := tokenize_file T
  obtain ⟨opening, others, rfl, hopening, hothers⟩ := List.map_eq_cons_iff.1 hwords
  obtain ⟨body, ends, rfl, hbody, hends⟩ := List.map_eq_append_iff.1 hothers
  obtain ⟨semicolon, rfl, hsemicolon⟩ := List.map_eq_singleton_iff.1 hends
  obtain ⟨hsemicolon, -⟩ := Prod.mk.inj hsemicolon
  obtain ⟨hopen, -⟩ := Prod.mk.inj hopening
  have hkinds : ∀ t ∈ body, t.kind ∈ infixKinds ∧ t.kind ≠ .semicolon := fun t ht =>
    T.words_kind t.word (hbody ▸ List.mem_map_of_mem ht)
  have hplain : Plain (body ++ [semicolon]) :=
    List.forall_mem_append.2 ⟨fun t ht => (hkinds t ht).1, (stops_semicolon 0 hsemicolon).plain⟩
  have hstart : State.ofLexemes (tokenize (.ofString T.file)) =
      .before [] 0 (opening :: (body ++ [semicolon])) := by
    rw [htoks]
    obtain ⟨kind, span, text⟩ := opening
    obtain rfl := hopen
    rfl
  have hfirst : ∃ first more, body = first :: more ∧
      first.kind ≠ .openTag ∧ first.kind ≠ .closeTag := by
    obtain ⟨w, ws, hw, hhead⟩ := T.words_head
    obtain ⟨first, more, hfirst, rfl, -⟩ := List.map_eq_cons_iff.1 (hbody.trans hw)
    refine ⟨first, more, hfirst, ?_⟩
    rcases hhead with hhead | hhead <;> rw [show first.kind = _ from hhead] <;> exact ⟨nofun, nofun⟩
  obtain ⟨first, more, rfl, hhead⟩ := hfirst
  let src : Source := .ofString T.file
  let below := top src
  let after := State.before [] opening.span.stop (first :: more ++ [semicolon])
  have hlength : (first :: more ++ [semicolon]).length + 1 = more.length + 1 + 1 + 1 := by simp
  have hend : ∀ done errors stop fuel, rounds (statementRound below) (fuel + 1) done src
      (.before errors stop []) = .ok done (.before errors stop []) :=
    fun _ _ _ _ => rounds_done rfl
  -- The round over the one statement decides.
  have hparse : ∀ done errors stop, statementRound below [] src after =
        .ok (.more done) (.before errors stop []) →
      parse src = (Node.ofKind .sourceFile (src.span 0 src.size) done.reverse, errors) := by
    intro done errors stop hround
    have hfile : statementsUntil (top src) [] src (State.ofLexemes (tokenize src)) =
        .ok done.reverse (.before errors stop []) := by
      rw [hstart]
      refine statementsUntil_file hopen hplain ?_
      rw [hlength, rounds_more hround, hend]
    rw [parse_eq, hfile]
    rfl
  rcases statement_tree (embeddedCode src.size) src 127 opening.span.stop hbody hsemicolon with
    ⟨hdepth, n, stop, hn, hnode⟩ | ⟨hdepth, e, stop, left, he, hfault, hleft⟩
  · refine .inl ⟨Nat.succ_le_succ hdepth, ?_⟩
    rw [hparse [n] [] stop (statementRound_ok hhead hn)]
    refine ⟨?_, rfl⟩
    simp [InfixTree.fileNode, Node.unplacedAll, hnode]
  · refine .inr ⟨Nat.succ_lt_succ hdepth, e, ?_, hfault⟩
    have hinner : ∀ t ∈ first :: more, t.kind ≠ .semicolon := fun t ht => (hkinds t ht).2
    obtain ⟨stop', hskip⟩ := synchronize_before src [e] stop hplain hinner hleft
    have hstatement : below .statement src after = .error e (.before [] stop left) := he
    obtain ⟨n, hround⟩ := statementRound_error [] hhead hstatement hskip
    rw [hparse [n] [e] stop' hround]
    exact List.mem_singleton_self e

/-- A tree has too many levels for the nesting limit exactly when reading its file finds that. -/
theorem exists_nestingTooDeep_iff (T : InfixTree) :
    (∃ e ∈ (parse (.ofString T.file)).2, e.fault = .nestingTooDeep Grammar.maxNesting) ↔
      Grammar.maxNesting < T.nesting + 2 := by
  rcases parse_file T with ⟨hle, -, herrors⟩ | ⟨hlt, hfault⟩
  · refine iff_of_false ?_ (Nat.not_lt_of_le hle)
    rw [herrors]
    rintro ⟨e, he, -⟩
    exact absurd he List.not_mem_nil
  · exact iff_of_true hfault hlt

/-- Reading what is written of a tree gives back the tree, without any fault, unless the
nesting limit is hit. -/
theorem parse_inverts_render (T : InfixTree)
    (hdepth : ∀ e ∈ (parse (.ofString T.file)).2, e.fault ≠ .nestingTooDeep Grammar.maxNesting) :
    (parse (.ofString T.file)).1.unplaced = T.fileNode ∧ (parse (.ofString T.file)).2 = [] := by
  rcases parse_file T with ⟨-, hread⟩ | ⟨-, e, he, hfault⟩
  · exact hread
  · exact absurd hfault (hdepth e he)

namespace InfixTree

/-- A tree with a group on the left, one on the right, and a word for an operator. -/
def mixed : InfixTree :=
  let leaf (name : String) (hname : isName name.toList = true) : InfixTree := .leaf ⟨name, hname⟩
  let plus : InfixOperator := ⟨.plus, "+", .additive, .left, rfl, nofun, by decide +kernel⟩
  let power : InfixOperator := ⟨.starStar, "**", .pow, .right, rfl, nofun, by decide +kernel⟩
  let both : InfixOperator := ⟨.kwAnd, "and", .keywordAnd, .left, rfl, nofun, by decide +kernel⟩
  .node (.node (.node (leaf "a" rfl) plus (leaf "b" rfl)) power
    (.node (leaf "c" rfl) power (leaf "d" rfl))) both (.node (leaf "e" rfl) both (leaf "f" rfl))

end InfixTree

theorem parse_inverts_render_mixed :
    InfixTree.mixed.file = "<?php ($a + $b) ** $c ** $d and ($e and $f);" ∧
      (∀ e ∈ (parse (.ofString InfixTree.mixed.file)).2,
        e.fault ≠ .nestingTooDeep Grammar.maxNesting) ∧
      (parse (.ofString InfixTree.mixed.file)).1.unplaced = InfixTree.mixed.fileNode ∧
      (parse (.ofString InfixTree.mixed.file)).2 = [] := by
  have hdepth : ∀ e ∈ (parse (.ofString InfixTree.mixed.file)).2,
      e.fault ≠ .nestingTooDeep Grammar.maxNesting := fun e he hfault =>
    absurd ((exists_nestingTooDeep_iff InfixTree.mixed).1 ⟨e, he, hfault⟩) (by decide)
  exact ⟨by decide +kernel, hdepth, parse_inverts_render InfixTree.mixed hdepth⟩

end PhpCheck
