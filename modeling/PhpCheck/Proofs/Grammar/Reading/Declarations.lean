import PhpCheck.Proofs.Grammar.Reading.Literals

/-!
Sequences of statements and declarations, read from the tokens of a text.

A production that failed where a token was current is made up for by skipping tokens
(`fair_attempt`): either it consumed one itself, or the same token is still there to be
skipped.  The error node that stands for it is the one the noted fault accounts for.
-/

namespace PhpCheck.Grammar

/-! ### Recovery -/

section

variable {α β : Type} [Result α] [Result β] {G : Ground} {atToken owed : Bool} {w : Nat}
  {s : State} {t : Token} {e : SyntaxError} {p : Parse α}

omit [Result α] [Result β] in
/-- A token has been consumed, or the current one is the same. -/
theorem Step.consumed_or_same {s' : State} (hstep : Step G s s') (ht : s.current = some t) :
    s'.pending.length < s.pending.length ∨ s'.current = some t := by
  rcases Nat.lt_or_eq_of_le hstep.pending.length_le with hlt | heq
  · exact .inl hlt
  · have hpending := hstep.pending.eq_of_length heq
    rw [State.pending_of_current ht] at hpending
    obtain ⟨t', ht'⟩ := Option.isSome_iff_exists.1
      (hstep.stands.current_isSome (hpending ▸ Nat.succ_pos _))
    rw [State.pending_of_current ht'] at hpending
    obtain rfl := (List.cons.inj hpending).1
    exact .inr ht'

/-- What follows an attempt is told after a failure whether a token has been consumed, and
has the same current token otherwise. -/
theorem fair_attempt [Counted α] {f : Except SyntaxError α → Parse β} (ht : s.current = some t)
    (hp : Fair G s true 0 (p G.src s))
    (hok : ∀ a, Result.Fits G a → Reads G false false (w + Result.errors a) (f (.ok a)))
    (herror : ∀ owed e s', Result.Fits G e.span → e.fault ≠ .stalled → s'.Stands G →
      (owed = true → s'.current = some t) → Fair G s' owed w (f (.error e) G.src s')) :
    Fair G s true w ((attempt p >>= f) G.src s) := by
  cases hr : p G.src s with
  | ok a s' =>
    have hattempt : attempt p G.src s = .ok (.ok a) s' := by rw [attempt, hr]
    rw [bind_ok hattempt]
    rw [hr] at hp
    cases hp with
    | ok step fits consumed errors =>
      exact (hok a fits s' step.stands nofun).afterToken step errors (consumed rfl (counted a))
  | error e s' =>
    have hattempt : attempt p G.src s = .ok (.error e) s' := by rw [attempt, hr]
    rw [bind_ok hattempt]
    rw [hr] at hp
    cases hp with
    | error step fits fault =>
      rcases step.consumed_or_same ht with hlt | hsame
      · exact (herror false e s' fits fault step.stands nofun).afterToken (n := 0) step
          step.errors hlt
      · exact (herror true e s' fits fault step.stands fun _ => hsame).after (n := 0) step
          step.errors

omit [Result α] [Result β] in
/-- A fault that is noted leaves the tokens as they are. -/
theorem State.Stands.noted (hs : s.Stands G) (hfault : e.fault ≠ .stalled) :
    State.Stands G { s with errors := s.errors ++ [e] } :=
  ⟨hs.settled, hs.current, hs.doc, hs.prevEnd, hs.rest, fun hG =>
    List.forall_mem_append.2 ⟨hs.errors hG, List.forall_mem_singleton.2 hfault⟩⟩

omit [Result α] in
/-- A noted fault accounts for one error node. -/
theorem fair_note {f : Unit → Parse β} (hs : s.Stands G) (hfault : e.fault ≠ .stalled)
    (hf : ∀ s' : State, s'.Stands G → s'.current = s.current →
      Fair G s' owed (w + 1) (f () G.src s')) :
    Fair G s owed w ((note e >>= f) G.src s) := by
  have hstands := hs.noted hfault
  have hlength : (s.errors ++ [e]).length = s.errors.length + 1 := List.length_append
  have hle : s.errors.length ≤ (s.errors ++ [e]).length := hlength ▸ Nat.le_succ _
  exact (hf _ hstands rfl).after ⟨hstands, List.suffix_refl _, hle, Nat.add_le_add_right hle _⟩
    (Nat.le_of_eq hlength.symm)

theorem errorNode_reads {start : Nat} {nodes : List Node} (hstart : Result.Fits G start)
    (hnodes : Result.Fits G nodes) (hw : Result.errors nodes + 1 ≤ w) :
    Reads G atToken false w
      (nodeFrom .error start [] >>= fun node => pure (Round.more (node :: nodes))) := by
  simp only [nodeFrom, bind_assoc, pure_bind]
  refine .spanFrom hstart fun span hspan => .more (by simp [hspan, hnodes]) ?_
  rw [errors_cons, errors_node]
  exact (Nat.add_comm _ _).trans_le hw

end

/-! ### Skipping -/

section

variable {G : Ground} {src : Source} {s : State}

/-- Rounds of which each passes over the current token, or is the last one, do not fail. -/
theorem repeated_skip {α : Type} (a : α) {round : α → Parse (Round α)}
    (hround : ∀ a s, (s.current.isSome = true ∧ ∃ r, round a src s = .ok r s.advance) ∨
      ∃ b, round a src s = .ok (.done b) s) (hs : s.Stands G) :
    ∃ b s', repeated a round src s = .ok b s' ∧ Step G s s' ∧
      (s'.pending.length < s.pending.length ∨ round a src s = .ok (.done b) s) := by
  have hrounds : ∀ fuel a s, s.Stands G → s.pending.length < fuel →
      ∃ b s', rounds round fuel a src s = .ok b s' ∧ Step G s s' ∧
        (s'.pending.length < s.pending.length ∨ round a src s = .ok (.done b) s) := by
    intro fuel
    induction fuel with
    | zero => exact fun a s _ h => absurd h (Nat.not_lt_zero _)
    | succ fuel ih =>
      intro a s hs hfuel
      rcases hround a s with ⟨hcurrent, r, hr⟩ | ⟨b, hr⟩
      · have hstep := Step.advance hs
        have hlt := advance_lt hcurrent
        cases r with
        | done b => exact ⟨b, s.advance, rounds_done hr, hstep, .inl hlt⟩
        | more b =>
          obtain ⟨c, s', hrun, hstep', -⟩ := ih b s.advance hstep.stands (by omega)
          exact ⟨c, s', (rounds_more hr).trans hrun, hstep.trans hstep',
            .inl (Nat.lt_of_le_of_lt hstep'.pending.length_le hlt)⟩
      · exact ⟨b, s, rounds_done hr, .refl hs, .inr hr⟩
  exact hrounds _ a s hs (Nat.lt_succ_of_le s.pending_length_le)

/-- One round of the skipping to a statement boundary, after the token `last`. -/
def boundaryRound (last : Option Token) : Parse (Round (Option Token)) := do
  if ← atEnd then return .done last
  if last.any (·.kind == .semicolon) then return .done last
  if ← checkAny boundaries then return .done last
  return .more (← advance)

theorem synchronize_eq : synchronize =
    advance >>= fun last => discard (repeated last boundaryRound) := rfl

theorem boundaryRound_ok (last : Option Token) (src : Source) (s : State) :
    (s.current.isSome = true ∧ ∃ r, boundaryRound last src s = .ok r s.advance) ∨
      ∃ b, boundaryRound last src s = .ok (.done b) s := by
  have hend : atEnd src s = .ok s.current.isNone s := rfl
  have hboundary : checkAny boundaries src s =
      .ok ((s.current.map (·.kind)).any boundaries.contains) s := rfl
  rw [boundaryRound, bind_ok hend]
  by_cases hcurrent : s.current.isNone = true
  · exact .inr ⟨last, by rw [if_pos hcurrent]; rfl⟩
  rw [if_neg hcurrent]
  by_cases hlast : last.any (·.kind == .semicolon) = true
  · exact .inr ⟨last, by rw [if_pos hlast]; rfl⟩
  rw [if_neg hlast, bind_ok hboundary]
  by_cases hat : (s.current.map (·.kind)).any boundaries.contains = true
  · exact .inr ⟨last, by rw [if_pos hat]; rfl⟩
  · refine .inl ⟨Option.isSome_iff_ne_none.2 fun h => hcurrent (h ▸ rfl), .more s.current, ?_⟩
    rw [if_neg hat]
    rfl

/-- Skipping to a statement boundary consumes a token if there is one. -/
theorem synchronize_ok (src : Source) (hs : s.Stands G) : ∃ s', synchronize src s = .ok () s' ∧
    Step G s s' ∧ (s.current.isSome = true → s'.pending.length < s.pending.length) := by
  have hstep := Step.advance hs
  obtain ⟨last, s', hrun, hstep', -⟩ :=
    repeated_skip s.current (boundaryRound_ok · src) hstep.stands
  rw [synchronize_eq, bind_ok (show advance src s = .ok s.current s.advance from rfl),
    discard_ok hrun]
  exact ⟨s', rfl, hstep.trans hstep', fun h =>
    Nat.lt_of_le_of_lt hstep'.pending.length_le (advance_lt h)⟩

/-- What a round of the skipping to the next member does at a token of some kind. -/
def skipAt (depth : Nat) : Option TokenKind → Parse (Round Nat)
  | none => return .done depth
  | some .lBrace => do
    discard advance
    return .more (depth + 1)
  | some .rBrace => do
    if depth = 0 then return .done depth
    discard advance
    if depth = 1 then return .done 0
    return .more (depth - 1)
  | some .semicolon => do
    discard advance
    if depth = 0 then return .done depth
    return .more depth
  | some _ => do
    discard advance
    return .more depth

theorem synchronizeMember_eq : synchronizeMember =
    discard (repeated 0 fun depth => kind? >>= skipAt depth) := rfl

/-- The current token is skipped, unless it is the brace that closes the class. -/
theorem skipAt_ok (depth : Nat) {kind : TokenKind} (hclose : depth ≠ 0 ∨ kind ≠ .rBrace)
    (src : Source) (s : State) : ∃ r, skipAt depth (some kind) src s = .ok r s.advance := by
  generalize hkind : some kind = found
  fun_cases skipAt depth found with
  | case1 => cases hkind
  | case2 | case6 => exact ⟨_, rfl⟩
  | case3 hdepth =>
    obtain rfl := Option.some.inj hkind
    exact absurd rfl (hclose.resolve_left fun h => h hdepth)
  | case4 =>
    by_cases hone : depth = 1
    · exact ⟨.done 0, by simp only [if_pos hone]; rfl⟩
    · exact ⟨.more (depth - 1), by simp only [if_neg hone]; rfl⟩
  | case5 =>
    by_cases hdepth : depth = 0
    · exact ⟨.done depth, by simp only [if_pos hdepth]; rfl⟩
    · exact ⟨.more depth, by simp only [if_neg hdepth]; rfl⟩


theorem skipRound_ok (depth : Nat) (src : Source) (s : State) :
    (s.current.isSome = true ∧ ∃ r, (kind? >>= skipAt depth) src s = .ok r s.advance) ∨
      ∃ b, (kind? >>= skipAt depth) src s = .ok (.done b) s := by
  have hkind : kind? src s = .ok (s.current.map (·.kind)) s := rfl
  rw [bind_ok hkind]
  cases hcurrent : s.current with
  | none => exact .inr ⟨depth, rfl⟩
  | some t =>
    by_cases hclose : depth ≠ 0 ∨ t.kind ≠ .rBrace
    · exact .inl ⟨rfl, skipAt_ok depth hclose src s⟩
    · rw [not_or, not_not, not_not] at hclose
      refine .inr ⟨depth, ?_⟩
      rw [Option.map_some, hclose.1, hclose.2]
      rfl

/-- Skipping to the next member consumes a token unless the class ends there. -/
theorem synchronizeMember_ok (src : Source) (hs : s.Stands G) :
    ∃ s', synchronizeMember src s = .ok () s' ∧ Step G s s' ∧
      ∀ t, s.current = some t → t.kind ≠ .rBrace → s'.pending.length < s.pending.length := by
  obtain ⟨depth, s', hrun, hstep, hlt⟩ := repeated_skip 0 (skipRound_ok · src) hs
  refine ⟨s', by rw [synchronizeMember_eq, discard_ok hrun], hstep, fun t ht hkind => ?_⟩
  refine hlt.resolve_right fun hdone => ?_
  obtain ⟨r, hr⟩ := skipAt_ok 0 (.inr hkind) src s
  have hcurrent : kind? src s = .ok (some t.kind) s :=
    congrArg (EStateM.Result.ok · s) (by rw [ht]; rfl)
  rw [bind_ok hcurrent, hr] at hdone
  have hsame : s.advance = s := (EStateM.Result.ok.inj hdone).2
  have hadvance := advance_lt (s := s) (by rw [ht]; rfl)
  rw [hsame] at hadvance
  exact Nat.lt_irrefl _ hadvance

end

/-! ### Sequences of statements -/

section

variable {G : Ground} {below : Below} {atToken : Bool} {w : Nat} (hbelow : below.Reads G)

include hbelow

theorem statementsUntil_reads (terminators : List TokenKind) :
    Reads G atToken false w (statementsUntil below terminators) := by
  unfold statementsUntil
  refine .bind (repeated_reads fits_nil (Nat.le_refl _) fun done w hdone => ?_)
    fun statements hstatements => .pure (fits_reverse.2 hstatements) (by simp)
  have hend : ∀ {atToken : Bool}, Reads G atToken true (w + Result.errors done)
      (pure (Round.done done)) := .done hdone (Nat.le_add_left _ _)
  refine .kind hend fun kind => .ite (fun _ => hend) fun _ => .ite (fun _ => ?_) fun _ => ?_
  · exact .took (.discard advance_reads) fun _ _ => .more hdone (by simp)
  refine .here fun start hstart s hs htoken => ?_
  obtain ⟨t, ht⟩ := Option.isSome_iff_exists.1 (htoken rfl)
  refine fair_attempt ht (hbelow.statement s hs htoken)
    (fun node hnode => .more (fits_cons.2 ⟨hnode, hdone⟩) (by simp; omega))
    fun owed e s' he hfault hs' hcurrent => fair_note hs' hfault fun s'' hs'' heq => ?_
  obtain ⟨s₁, hrun, hstep, hlt⟩ := synchronize_ok G.src hs''
  have hskip : Fair G s'' owed 0 (synchronize G.src s'') := by
    rw [hrun]
    exact .ok hstep trivial (fun ho _ => hlt (by rw [heq, hcurrent ho]; rfl)) hstep.errors
  refine hskip.bind fun _ _ => ?_
  exact errorNode_reads hstart hdone (by simp)

theorem blockUntil_reads (terminators : List TokenKind) :
    Reads G atToken false w (blockUntil below terminators) := by
  unfold blockUntil
  refine .here fun start hstart => .bind (statementsUntil_reads hbelow _) fun nodes hnodes => ?_
  exact nodeFrom_reads nofun hstart hnodes (Nat.le_add_left _ _)

theorem braceBlock_reads : Reads G atToken true w (braceBlock below) := by
  unfold braceBlock
  refine .took expect_reads fun brace hbrace => ?_
  refine .bind (statementsUntil_reads hbelow _) fun nodes hnodes => ?_
  refine .bind (.discard expect_reads) fun _ _ => ?_
  exact nodeFrom_reads nofun (fits_start (fits_tokenSpan hbrace)) hnodes (by simp)

theorem statementAsBlock_reads : Reads G atToken true w (statementAsBlock below) := by
  unfold statementAsBlock
  refine .took hbelow.statement fun node hnode => .ite (fun _ => ?_) fun _ => ?_
  · exact .pure hnode (Nat.le_add_left _ _)
  · exact .pure (by simp [hnode, fits_span hnode]) (by simp)

theorem bodyUntil_reads (closing : TokenKind) :
    Reads G atToken true w (bodyUntil below closing) := by
  unfold bodyUntil
  refine .eats ?_ (statementAsBlock_reads hbelow)
  refine .bind (blockUntil_reads hbelow _) fun block hblock => ?_
  refine .bind (.discard expect_reads) fun _ _ => .bind expectSemicolon_reads fun _ _ => ?_
  exact .pure hblock (by simp)

theorem expressionsUntil_reads (terminators : List TokenKind) :
    Reads G atToken false w (expressionsUntil below terminators) := by
  unfold expressionsUntil
  exact commaList_reads (hbelow.expression _)

theorem parenthesized_reads : Reads G atToken true w (parenthesized below) := by
  unfold parenthesized
  refine .took (.discard expect_reads) fun _ _ => .bind (hbelow.expression _) fun value hvalue => ?_
  exact .bind (.discard expect_reads) fun _ _ => .pure hvalue (by simp)

/-! ### Functions, constants and properties -/

theorem parameter_reads : Reads G atToken true w (parameter below) := by
  unfold parameter
  refine .here fun start hstart => .bind modifiers_reads fun words hwords => ?_
  refine .look fun _ => .partUnless typeHint_reads fun type htype => ?_
  refine .bind eat_reads fun reference hreference => .bind eat_reads fun variadic hvariadic => ?_
  refine .took simpleVariable_reads fun name hname => .bind eats_reads fun _ _ => ?_
  refine .partIf (hbelow.expression _) fun default hdefault => ?_
  exact nodeFrom_reads nofun hstart (by simp [*]) (by simp; omega)

theorem parameterList_reads : Reads G atToken true w (parameterList below) := by
  unfold parameterList
  refine .took expect_reads fun paren hparen => ?_
  refine .bind (commaList_reads (parameter_reads hbelow)) fun nodes hnodes => ?_
  refine .bind (.discard expect_reads) fun _ _ => ?_
  exact nodeFrom_reads nofun (fits_start (fits_tokenSpan hparen)) hnodes (by simp)

omit hbelow in
theorem returnType_reads : Reads G atToken false w returnType := by
  unfold returnType
  refine .eats (.bind typeHint_reads fun type htype => ?_) (.pure fits_nil (Nat.zero_le _))
  exact .pure (by simp [htype]) (by simp)

theorem functionDefinition_reads : Reads G atToken true w (functionDefinition below) := by
  unfold functionDefinition
  refine .here fun start hstart => .takeDoc fun doc hdoc hdocErrors => ?_
  refine .took (.discard expect_reads) fun _ _ => .bind eat_reads fun reference hreference => ?_
  refine .bind memberName_reads fun name hname => .bind (parameterList_reads hbelow) fun ps hps =>
    ?_
  refine .bind returnType_reads fun result hresult =>
    .bind (braceBlock_reads hbelow) fun body hbody => ?_
  exact nodeFrom_reads nofun hstart (by simp [*]) (by simp; omega)

theorem constElement_reads : Reads G atToken true w (constElement below) := by
  unfold constElement
  refine .here fun start hstart => .took memberName_reads fun name hname => ?_
  refine .bind (.discard expect_reads) fun _ _ => .bind (hbelow.expression _) fun value hvalue => ?_
  exact nodeFrom_reads nofun hstart (by simp [*]) (by simp)

theorem constDeclaration_reads : Reads G atToken true w (constDeclaration below) := by
  unfold constDeclaration
  refine .here fun start hstart => .takeDoc fun doc hdoc hdocErrors => ?_
  refine .took (.discard expect_reads) fun _ _ => ?_
  refine .bind (separated_reads (constElement_reads hbelow)) fun elements helements => ?_
  refine .bind expectSemicolon_reads fun _ _ => ?_
  exact nodeFrom_reads nofun hstart (by simp [*]) (by simp; omega)

theorem initialized_reads {kind : NodeKind} (hkind : kind ≠ .error) :
    Reads G atToken true w (initialized below kind) := by
  unfold initialized
  refine .here fun start hstart => .took simpleVariable_reads fun name hname => ?_
  refine .bind eats_reads fun _ _ => .partIf (hbelow.expression _) fun default hdefault => ?_
  exact nodeFrom_reads hkind hstart (by simp [*]) (by simp)

/-! ### Classes -/

omit hbelow in
theorem traitAdaptation_reads : Reads G atToken true w traitAdaptation := by
  unfold traitAdaptation
  refine .here fun start hstart => .took qualifiedName_reads fun first hfirst => ?_
  refine .bind eats_reads fun _ _ => ?_
  extract_lets adaptation
  have hadaptation : ∀ {w : Nat} (found : Option Node × Node), Result.Fits G found →
      Result.errors found ≤ w → Reads G false false w (adaptation found) := by
    rintro w ⟨traitName, method⟩ hfound hw
    obtain ⟨htrait, hmethod⟩ := fits_pair.1 hfound
    rw [errors_pair] at hw
    refine .bind eats_reads fun _ _ => .ite (fun _ => ?_) fun _ => ?_
    · cases traitName with
      | none => exact .spanFrom hstart fun span hspan => .throw hspan (by nofun)
      | some trait =>
        refine .bind nameList_reads fun names hnames => .bind expectSemicolon_reads fun _ _ => ?_
        rw [errors_some] at hw
        exact nodeFrom_reads nofun hstart (by simp_all) (by simp; omega)
    · refine .bind (.discard expect_reads) fun _ _ => ?_
      extract_lets named
      have hnamed : ∀ {atToken : Bool} {w : Nat} (visibility : List Node),
          Result.Fits G visibility → Result.errors visibility + Result.errors traitName +
            Result.errors method ≤ w → Reads G atToken false w (named visibility) := by
        intro atToken w visibility hvisibility hw
        refine .look fun _ => .partUnless memberName_reads fun newName hnewName => ?_
        refine .bind expectSemicolon_reads fun _ _ => ?_
        exact nodeFrom_reads nofun hstart (by simp [*]) (by simp; omega)
      have hplain : ∀ {atToken : Bool} {w' : Nat}, w ≤ w' →
          Reads G atToken false w' (named []) := fun hle => hnamed [] fits_nil (by simp; omega)
      refine .current (fun s hs => ?_) fun s tok hs htok => ?_ <;> rw [hs]
      · exact .given (hplain (by simp))
      · refine .ite (fun _ => .took (.discard advance_reads) fun _ _ => .given ?_) fun _ =>
          .given (hplain (by simp))
        exact hnamed _ (by simp [fits_tokenSpan htok]) (by simp; omega)
  refine .ite (fun _ => .bind memberName_reads fun name hname => ?_) fun _ => .given ?_
  · exact .given (hadaptation (some first, name) (by simp [*]) (by simp))
  · exact hadaptation (none, first) (by simp [*]) (by simp)

omit hbelow in
theorem traitUse_reads : Reads G atToken true w traitUse := by
  unfold traitUse
  refine .took expect_reads fun word hword => .bind nameList_reads fun traits htraits => ?_
  refine .bind eats_reads fun _ _ => ?_
  extract_lets rest
  have hrest : ∀ {w : Nat} (nodes : List Node), Result.Fits G nodes →
      Result.errors nodes + Result.errors traits ≤ w → Reads G false false w (rest nodes) := by
    intro w nodes hnodes hw
    exact nodeFrom_reads nofun (fits_start (fits_tokenSpan hword)) (by simp [*]) (by simp; omega)
  refine .ite (fun _ => ?_) fun _ => ?_
  · refine .bind (repeated_reads fits_nil (Nat.le_refl _) fun found w hfound => ?_)
      fun found hfound => ?_
    · refine .look fun _ => .look fun _ =>
        .ite (fun _ => .done hfound (Nat.le_add_left _ _)) fun _ => ?_
      refine .took traitAdaptation_reads fun node hnode => .more ?_ ?_
      · simp [*]
      · simp; omega
    · refine .bind (.discard expect_reads) fun _ _ => .given (hrest _ (by simpa) (by simp; omega))
  · exact .bind expectSemicolon_reads fun _ _ => .given (hrest _ fits_nil (by simp))

theorem constMember_reads {start : Nat} {words : List Node} {doc : Option Node}
    (hstart : Result.Fits G start) (hwords : Result.Fits G words) (hdoc : Result.Fits G doc)
    (hw : Result.errors words + Result.errors doc ≤ w) :
    Reads G true true w (constMember below start words doc) := by
  unfold constMember
  refine .took (.discard advance_reads) fun _ _ => .look fun _ => ?_
  refine .partUnless typeHint_reads fun type htype => ?_
  refine .bind (separated_reads (constElement_reads hbelow)) fun elements helements => ?_
  refine .bind expectSemicolon_reads fun _ _ => ?_
  exact nodeFrom_reads nofun hstart (by simp [*]) (by simp; omega)

theorem methodMember_reads {start : Nat} {words : List Node} {doc : Option Node}
    (hstart : Result.Fits G start) (hwords : Result.Fits G words) (hdoc : Result.Fits G doc)
    (hw : Result.errors words + Result.errors doc ≤ w) :
    Reads G true true w (methodMember below start words doc) := by
  unfold methodMember
  refine .took (.discard advance_reads) fun _ _ => .bind eat_reads fun reference hreference => ?_
  refine .bind memberName_reads fun name hname => .bind (parameterList_reads hbelow) fun ps hps =>
    ?_
  refine .bind returnType_reads fun result hresult => .look fun _ => ?_
  refine .partOr (braceBlock_reads hbelow) expectSemicolon_reads fun body hbody => ?_
  exact nodeFrom_reads nofun hstart (by simp [*]) (by simp; omega)

theorem propertyMember_reads {start : Nat} {words : List Node} {doc : Option Node}
    (hstart : Result.Fits G start) (hwords : Result.Fits G words) (hdoc : Result.Fits G doc)
    (hw : Result.errors words + Result.errors doc ≤ w) :
    Reads G atToken true w (propertyMember below start words doc) := by
  unfold propertyMember
  refine .look fun _ => .partUnless typeHint_reads fun type htype => ?_
  refine .took (separated_reads (initialized_reads hbelow (by nofun))) fun elements helements => ?_
  refine .bind expectSemicolon_reads fun _ _ => ?_
  exact nodeFrom_reads nofun hstart (by simp [*]) (by simp; omega)

theorem classMember_reads : Reads G true true w (classMember below) := by
  unfold classMember
  refine .eats (.pure fits_none (Nat.zero_le _)) (.test (check_atToken _) ?_ ?_)
  · refine .took traitUse_reads fun node hnode => .pure (by simpa) (by simp)
  refine .here fun start hstart => .takeDoc fun doc hdoc hdocErrors => ?_
  refine .bind modifiers_reads fun words hwords => ?_
  have hproperty : ∀ {atToken : Bool}, Reads G atToken true (w + Result.errors words)
      (propertyMember below start words doc >>= fun node => pure (some node)) :=
    .wrap (propertyMember_reads hbelow hstart hwords hdoc (by omega)) (fun _ => fits_some.2)
      fun _ => Nat.le_refl _
  refine .kind (.ite (fun _ => .unexpected_bind) fun _ => hproperty) fun kind => ?_
  split
  · exact .wrap (constMember_reads hbelow hstart hwords hdoc (by omega)) (fun _ => fits_some.2)
      fun _ => Nat.le_refl _
  · exact .wrap (methodMember_reads hbelow hstart hwords hdoc (by omega)) (fun _ => fits_some.2)
      fun _ => Nat.le_refl _
  · exact .currentSpan fun span hspan => .throw hspan (by nofun)
  · exact .ite (fun _ => .unexpected_bind) fun _ => hproperty

/-- A member that failed is skipped, unless it ended at the brace that closes the class. -/
theorem classBody_reads : Reads G atToken true w (classBody below) := by
  unfold classBody
  refine .took expect_reads fun brace hbrace => ?_
  refine .bind (repeated_reads fits_nil (Nat.le_refl _) fun members w hmembers => ?_)
    fun members hmembers => .bind (.discard expect_reads) fun _ _ =>
      nodeFrom_reads nofun (fits_start (fits_tokenSpan hbrace)) (fits_reverse.2 hmembers) (by simp)
  intro s hs _
  have hend : atEnd G.src s = .ok s.current.isNone s := rfl
  have hclose : check .rBrace G.src s = .ok (s.current.map (·.kind) == some .rBrace) s := rfl
  have hhere : here G.src s = .ok ((s.current.map (·.span.start)).getD G.src.size) s := rfl
  have hdone : Reads G false true (w + Result.errors members) (pure (Round.done members)) :=
    .done hmembers (Nat.le_add_left _ _)
  rw [bind_ok hend, bind_ok hclose]
  cases hcurrent : s.current with
  | none => exact hdone s hs nofun
  | some t =>
    by_cases hkind : t.kind = .rBrace
    · rw [if_pos (by rw [Option.map_some, hkind]; rfl)]
      exact hdone s hs nofun
    rw [if_neg (by simp [hkind]), bind_ok hhere]
    refine fair_attempt hcurrent (classMember_reads hbelow s hs fun _ => hcurrent ▸ rfl)
      (fun member hmember => ?_) fun owed e s' he hfault hs' hsame =>
        fair_note hs' hfault fun s'' hs'' heq => ?_
    · cases member with
      | none => exact .more hmembers (by simp)
      | some member =>
        exact .more (fits_cons.2 ⟨fits_some.1 hmember, hmembers⟩) (by simp; omega)
    · obtain ⟨s₁, hrun, hstep, hlt⟩ := synchronizeMember_ok G.src hs''
      have hskip : Fair G s'' owed 0 (synchronizeMember G.src s'') := by
        rw [hrun]
        exact .ok hstep trivial (fun ho _ => hlt t (by rw [heq, hsame ho]) hkind) hstep.errors
      exact hskip.bind fun _ _ => errorNode_reads (fits_here hs) hmembers (by simp)

omit hbelow in
theorem heritage_reads : Reads G atToken false w heritage := by
  unfold heritage
  refine .bind eats_reads fun _ _ => .partIf qualifiedName_reads fun parent hparent => ?_
  refine .bind eats_reads fun _ _ => .partIf nameList_reads fun interfaces hinterfaces => ?_
  exact .pure (fits_append.2 ⟨hparent, hinterfaces⟩) (by simp)

theorem classDeclaration_reads : Reads G atToken true w (classDeclaration below) := by
  unfold classDeclaration
  refine .here fun start hstart => .takeDoc fun doc hdoc hdocErrors => ?_
  refine .bind modifiers_reads fun words hwords => .took (.discard expect_reads) fun _ _ => ?_
  refine .bind memberName_reads fun name hname => .bind heritage_reads fun parents hparents => ?_
  refine .bind (classBody_reads hbelow) fun body hbody => ?_
  exact nodeFrom_reads nofun hstart (by simp [*]) (by simp; omega)

theorem interfaceDeclaration_reads : Reads G atToken true w (interfaceDeclaration below) := by
  unfold interfaceDeclaration
  refine .here fun start hstart => .takeDoc fun doc hdoc hdocErrors => ?_
  refine .took (.discard expect_reads) fun _ _ => .bind memberName_reads fun name hname => ?_
  refine .bind eats_reads fun _ _ => .partIf nameList_reads fun parents hparents => ?_
  refine .bind (classBody_reads hbelow) fun body hbody => ?_
  exact nodeFrom_reads nofun hstart (by simp [*]) (by simp; omega)

theorem traitDeclaration_reads : Reads G atToken true w (traitDeclaration below) := by
  unfold traitDeclaration
  refine .here fun start hstart => .takeDoc fun doc hdoc hdocErrors => ?_
  refine .took (.discard expect_reads) fun _ _ => .bind memberName_reads fun name hname => ?_
  refine .bind (classBody_reads hbelow) fun body hbody => ?_
  exact nodeFrom_reads nofun hstart (by simp [*]) (by simp; omega)

end

end PhpCheck.Grammar
