import PhpCheck.Proofs.Grammar.InStep.Statements

/-!
Code embedded in quoted text, in step.

Such code is a text of its own, which ends where the code ends.  So the two texts share all that is
left of them, and the readings of it are in step to the end (`embeddedCode_inStep`).
-/

namespace PhpCheck

/-- The text cut off behind a part ends with that part, and a scan from the part on has all of it
before it. -/
theorem Source.HasAt.truncate {src : Source} {o : Nat} {text : List Char} (ht : src.HasAt o text) :
    (src.truncate (o + byteSize text)).HasAt o text ∧
      (src.truncate (o + byteSize text)).size = o + byteSize text ∧
      Scanner.inCode (src.truncate (o + byteSize text)) o =
        { mode := .code, cursor := { offset := o, rest := text } } := by
  obtain ⟨before, after, hchars, rfl⟩ := ht
  have htake : src.truncate (byteSize before + byteSize text) = .ofChars (before ++ text) := by
    rw [Source.truncate, hchars, ← byteSize_append, takeBytes_byteSize]
  have hsize : (Source.ofChars (before ++ text)).size = byteSize before + byteSize text :=
    byteSize_append _ _
  have hdrop : dropBytes (byteSize before) (Source.ofChars (before ++ text)).chars = text :=
    dropBytes_byteSize _ _
  rw [htake]
  refine ⟨⟨before, [], (List.append_nil _).symm, rfl⟩, hsize, ?_⟩
  rw [Scanner.inCode, hsize, hdrop, Nat.min_eq_left (Nat.le_add_right _ _)]

namespace Grammar

section

variable {B : Bond} {C : Option TokenKind → Prop}

theorem descend_eq_code (code : Nat → Nat → Parse Node) (depth start stop : Nat) :
    descend code depth (.code start stop) = code start stop := by cases depth <;> rfl

/-- The grammar of each nesting level is in step with one from which it may descend further. -/
theorem descend_inStep {code₁ code₂ : Nat → Nat → Parse Node} {depth₁ depth₂ : Nat}
    (hreads : ∀ depth, (descend code₁ depth).Reads (.unknown B.left))
    (hcode : ∀ {C o₁ o₂ e₁ e₂}, B.Place o₁ o₂ → B.Place e₁ e₂ → o₁ ≤ e₁ →
      InStep B .inside C (code₁ o₁ e₁) (code₂ o₂ e₂)) (hle : depth₁ ≤ depth₂) :
    (descend code₁ depth₁).InStep (descend code₂ depth₂) B := by
  have hembedded : ∀ {C depth₁ depth₂ o₁ o₂ e₁ e₂}, B.Place o₁ o₂ → B.Place e₁ e₂ → o₁ ≤ e₁ →
      InStep B .inside C (descend code₁ depth₁ (.code o₁ e₁))
        (descend code₂ depth₂ (.code o₂ e₂)) := by
    intro C depth₁ depth₂ o₁ o₂ e₁ e₂ ho he hle
    rw [descend_eq_code, descend_eq_code]
    exact hcode ho he hle
  induction depth₁ generalizing depth₂ with
  | zero =>
    refine ⟨hreads 0, fun min => .fails fun s _ => ?_, .fails fun s _ => ?_, hembedded⟩
    · obtain ⟨span, hspan⟩ := currentSpan_ok B.left s
      exact ⟨_, bind_ok hspan⟩
    · obtain ⟨span, hspan⟩ := currentSpan_ok B.left s
      exact ⟨_, bind_ok hspan⟩
  | succ depth₁ ih =>
    obtain ⟨depth₂, rfl⟩ := Nat.exists_eq_add_of_le' (Nat.le_trans (Nat.le_add_left 1 depth₁) hle)
    have hbelow := ih (Nat.le_of_succ_le_succ hle)
    exact ⟨hreads _, fun min => binary_inStep hbelow min, statement_inStep hbelow, hembedded⟩

theorem stands_ofLexemes {src : Source} (lexemes : List Lexeme) :
    (State.ofLexemes lexemes).Stands (.unknown src) :=
  have hunknown : ¬(Ground.unknown src).known := not_false
  stands_settle (absurd · hunknown) (absurd · hunknown) (absurd · hunknown) (absurd · hunknown)

/-- Where all tokens have been consumed and no fault was noted, none of them is a fault. -/
theorem exists_toks {G : Ground} {s s' : State} (hs : Step G s s') (hcurrent : s'.current = none)
    (herrors : s'.errors = []) {lexemes : List Lexeme} (hrest : s = State.ofLexemes lexemes) :
    ∃ toks : List Token, lexemes = toks.map .ok := by
  have hfaults : s.faults ≤ s'.errors.length + s'.rest.countP (·.toOption.isNone) := hs.faults
  rw [herrors, hs.stands.settled hcurrent, hrest, State.ofLexemes, faults_settle] at hfaults
  have hcount : lexemes.countP (·.toOption.isNone) = 0 := by simpa using hfaults
  refine ⟨lexemes.filterMap Except.toOption, eq_map_ok_of_all (List.all_eq_true.2 fun l hl => ?_)⟩
  have hl := List.countP_eq_zero.1 hcount l hl
  cases l with
  | ok t => rfl
  | error e => exact absurd rfl hl

theorem wholeExpression_ok {below : Below} {src : Source} {s s' : State} {n : Node} :
    wholeExpression below src s = .ok n s' ↔ below.expression src s = .ok n s' ∧
      s'.current = none := by
  rw [wholeExpression]
  cases hr : below.expression src s with
  | error e s'' =>
    rw [bind_error hr]
    exact ⟨nofun, nofun⟩
  | ok m s'' =>
    rw [bind_ok hr]
    have hget : (get : Parse State) src s'' = .ok s'' s'' := rfl
    rw [bind_ok hget]
    cases hcurrent : s''.current with
    | none =>
      constructor
      · intro h
        cases h
        exact ⟨rfl, hcurrent⟩
      · rintro ⟨h, -⟩
        cases h
        rfl
    | some t =>
      refine ⟨nofun, ?_⟩
      rintro ⟨h, hnone⟩
      cases h
      rw [hcurrent] at hnone
      cases hnone

theorem embedded_ok {below : Below} {src : Source} {s s' : State} {n : Node} {start stop : Nat}
    (hr : embedded below start stop src s = .ok n s') (herrors : s'.errors = []) :
    s' = s ∧ ∃ after, wholeExpression below (src.truncate stop)
        (State.ofLexemes (tokenizeCode (src.truncate stop) start)) = .ok n after ∧
          after.errors = [] := by
  have hread : (MonadReader.read : Parse Source) src s = .ok src s := rfl
  rw [embedded, bind_ok hread] at hr
  cases hwhole : wholeExpression below (src.truncate stop)
      (State.ofLexemes (tokenizeCode (src.truncate stop) start)) with
  | ok value after =>
    rw [hwhole] at hr
    cases hr
    obtain ⟨-, hafter⟩ := List.append_eq_nil_iff.1 herrors
    refine ⟨?_, after, rfl, hafter⟩
    show { s with errors := s.errors ++ after.errors } = s
    rw [hafter, List.append_nil]
  | error e after =>
    rw [hwhole] at hr
    cases hr
    exact absurd (List.append_eq_nil_iff.1 herrors).2 (List.cons_ne_nil _ _)

/-- Tokens of a text that are alike are the same for what follows. -/
theorem Bond.forall₂_same (B : Bond) {ts₁ ts₂ : List Token}
    (hts : List.Forall₂ (Token.Alike B.text B.lo₁ B.lo₂) ts₁ ts₂)
    (hplaced : ∀ t ∈ ts₁, ∃ lo, t.Placed B.left lo) : List.Forall₂ B.Same ts₁ ts₂ := by
  induction hts with
  | nil => exact .nil
  | cons ht _ ih =>
    obtain ⟨⟨lo, hplaced⟩, hothers⟩ := List.forall_mem_cons.1 hplaced
    exact .cons ⟨ht, hplaced.quoted⟩ (ih hothers)

/-- The part between two places of the shared part, as a text of its own in both texts. -/
theorem exists_inner {o₁ o₂ e₁ e₂ : Nat} (ho : B.Place o₁ o₂) (he : B.Place e₁ e₂) (hle : o₁ ≤ e₁)
    {toks₁ : List Token} (htoks : tokenizeCode (B.left.truncate e₁) o₁ = toks₁.map .ok) :
    ∃ B' : Bond, B'.left = B.left.truncate e₁ ∧ B'.right = B.right.truncate e₂ ∧ B'.tail₁ = [] ∧
      ∃ toks₂ : List Token, tokenizeCode (B.right.truncate e₂) o₂ = toks₂.map .ok ∧
        B'.Twin (State.ofLexemes (toks₁.map .ok)) (State.ofLexemes (toks₂.map .ok)) := by
  obtain ⟨front, middle, back, htext, hstart₁, hstart₂, -, -, hstop⟩ := ho.between he
  obtain ⟨rfl, rfl⟩ := hstop hle
  have hat : ∀ {src : Source} {lo : Nat}, src.HasAt lo B.text →
    src.HasAt (lo + byteSize front) middle := by
    rintro src lo ⟨before, after, hchars, rfl⟩
    refine ⟨before ++ front, back ++ after, ?_, byteSize_append _ _⟩
    rw [hchars, htext]
    simp only [List.append_assoc]
  obtain ⟨hat₁, hsize₁, hscan₁⟩ := (hstart₁ ▸ hat B.leftAt).truncate
  obtain ⟨hat₂, hsize₂, hscan₂⟩ := (hstart₂ ▸ hat B.rightAt).truncate
  rw [tokenizeCode, hscan₁] at htoks
  have habreast : Scanner.Abreast middle o₁ o₂ [] [] (.mk .code { offset := o₁, rest := middle })
      (.mk .code { offset := o₂, rest := middle }) :=
    ⟨rfl, [], middle, rfl, by simp, by simp⟩
  obtain ⟨toks₂, halike, htoks₂⟩ := habreast.all (B.right.truncate (o₂ + byteSize middle)) htoks
  let B' : Bond :=
    { left := _, right := _, text := middle, lo₁ := o₁, lo₂ := o₂, leftAt := hat₁, rightAt := hat₂
      tail₁ := [], tail₂ := [], length_le := Nat.le_refl _
      closed := fun _ => ⟨rfl, hsize₁, hsize₂⟩, head₁ := nofun, head₂ := nofun }
  refine ⟨B', rfl, rfl, rfl, toks₂, ?_, ?_⟩
  · rw [tokenizeCode, hscan₂, htoks₂]
  · have hsame : List.Forall₂ B'.Same toks₁ toks₂ := by
      refine B'.forall₂_same halike fun t ht => ⟨o₁, ?_⟩
      have hmem : Except.ok t ∈ tokenizeCode (B.left.truncate (o₁ + byteSize middle)) o₁ := by
        rw [tokenizeCode, hscan₁, htoks]
        exact List.mem_map_of_mem ht
      exact (placed_of_mem_tokenizeCode hat₁.isPlace_start hmem : Lexeme.Placed _ o₁ (.ok t))
    have htwin := twin_settle (B := B') hsame (.inr ⟨rfl, rfl⟩)
      (rfl : unplaced none = unplaced none)
    rwa [List.append_nil, List.append_nil] at htwin

theorem embeddedCode_moves (levels start stop : Nat) {s : State} (hs : s.Stands (.unknown B.left)) :
    Moves B.left s (embeddedCode levels start stop B.left s) :=
  (embeddedCode_reads (w := 0) (absurd · not_false) (absurd · not_false)).moves hs

/-- A whole text that is an expression is one in both texts. -/
theorem wholeExpression_inStep {below₁ below₂ : Below} (hbelow : below₁.InStep below₂ B)
    (htail : B.tail₁ = []) {s₁ s₂ s₁' : State} {n₁ : Node} (htwin : B.Twin s₁ s₂)
    (hr : wholeExpression below₁ B.left s₁ = .ok n₁ s₁') (herrors : s₁'.errors = []) :
    ∃ n₂ s₂', wholeExpression below₂ B.right s₂ = .ok n₂ s₂' ∧ unplaced n₁ = unplaced n₂ ∧
      s₂'.errors = [] := by
  obtain ⟨hvalue, hcurrent⟩ := wholeExpression_ok.1 hr
  obtain ⟨n₂, s₂', hvalue₂, hn, htwin'⟩ :=
    (hbelow.expression (C := Any) .lowest).run s₁ s₂ n₁ s₁' htwin
    trivial hvalue herrors (.inl htail)
  refine ⟨n₂, s₂', wholeExpression_ok.2 ⟨hvalue₂, ?_⟩, hn, htwin'.errors₂⟩
  rcases htwin'.current (.inl htail) with ⟨-, hnone⟩ | ⟨t₁, -, ht₁, -⟩
  · exact hnone
  · rw [hcurrent] at ht₁
    cases ht₁

/-- Embedded code is read in step, as often as code may be embedded in it again. -/
theorem embeddedCode_inStep {levels₁ levels₂ : Nat} (hlevels : levels₁ ≤ levels₂)
    {o₁ o₂ e₁ e₂ : Nat}
    (ho : B.Place o₁ o₂) (he : B.Place e₁ e₂) (hle : o₁ ≤ e₁) :
    InStep B .inside C (embeddedCode levels₁ o₁ e₁) (embeddedCode levels₂ o₂ e₂) := by
  induction levels₁ generalizing levels₂ B C o₁ o₂ e₁ e₂ with
  | zero =>
    refine ⟨fun s hs => embeddedCode_moves 0 o₁ e₁ hs, nofun,
      fun s₁ s₂ n₁ s₁' _ _ hr herrors _ => ?_⟩
    cases hr
    exact absurd (List.append_eq_nil_iff.1 herrors).2 (List.cons_ne_nil _ _)
  | succ levels₁ ih =>
    obtain ⟨levels₂, rfl⟩ :=
      Nat.exists_eq_add_of_le' (Nat.le_trans (Nat.le_add_left 1 levels₁) hlevels)
    refine ⟨fun s hs => embeddedCode_moves _ o₁ e₁ hs, nofun,
      fun s₁ s₂ n₁ s₁' htwin _ hr herrors _ => ?_⟩
    obtain ⟨rfl, after₁, hwhole, hafter⟩ := embedded_ok hr herrors
    -- All of the code has been consumed, so there is no fault in it.
    have hstep : Step (.unknown (B.left.truncate e₁))
      (State.ofLexemes (tokenizeCode (B.left.truncate e₁) o₁))
        after₁ := by
      have hreads : Reads (.unknown (B.left.truncate e₁)) false true 0 (wholeExpression
        (descend (embeddedCode levels₁) maxNesting)) := wholeExpression_reads
          (descend_unknown levels₁ _)
      have hmoves := hreads.moves (stands_ofLexemes (tokenizeCode (B.left.truncate e₁) o₁))
      rwa [hwhole] at hmoves
    obtain ⟨toks₁, htoks⟩ := exists_toks hstep (wholeExpression_ok.1 hwhole).2 hafter rfl
    obtain ⟨B', hleft, hright, htail, toks₂, htoks₂, htwin'⟩ := exists_inner ho he hle htoks
    have hbelow : (descend (embeddedCode levels₁) maxNesting).InStep
        (descend (embeddedCode levels₂) maxNesting) B' :=
      descend_inStep (hleft ▸ descend_unknown levels₁) (ih (Nat.le_of_succ_le_succ hlevels))
        (Nat.le_refl _)
    rw [htoks, ← hleft] at hwhole
    obtain ⟨n₂, after₂, hwhole₂, hn, hafter₂⟩ :=
      wholeExpression_inStep hbelow htail htwin' hwhole hafter
    refine ⟨n₂, s₂, ?_, hn, htwin⟩
    rw [hright, ← htoks₂] at hwhole₂
    have hread : (MonadReader.read : Parse Source) B.right s₂ = .ok B.right s₂ := rfl
    show embedded _ o₂ e₂ B.right s₂ = _
    rw [embedded, bind_ok hread, hwhole₂]
    show EStateM.Result.ok n₂ { s₂ with errors := s₂.errors ++ after₂.errors } = .ok n₂ s₂
    rw [hafter₂, List.append_nil]

end

end Grammar

end PhpCheck
