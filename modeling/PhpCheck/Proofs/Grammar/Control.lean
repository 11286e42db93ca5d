import PhpCheck.Proofs.Grammar.InStep.Blocks

/-!
Control structures with a form with a colon.

Each of them has a head up to its closing parenthesis (`Control.head`), behind which stands its body
(`Control.rest`), in braces or between a colon and a keyword.
-/

namespace PhpCheck.Grammar

/-- The control structures whose body may stand between a colon and a keyword. -/
inductive Control where
  | conditional
  | whileLoop
  | forLoop
  | foreachLoop
  | directive
deriving DecidableEq

namespace Control

/-- The word that the structure begins with. -/
def word : Control → String
  | conditional => "if"
  | whileLoop => "while"
  | forLoop => "for"
  | foreachLoop => "foreach"
  | directive => "declare"

def opening : Control → TokenKind
  | conditional => .kwIf
  | whileLoop => .kwWhile
  | forLoop => .kwFor
  | foreachLoop => .kwForeach
  | directive => .kwDeclare

/-- The keyword behind the body that begins with a colon. -/
def closing : Control → TokenKind
  | conditional => .kwEndif
  | whileLoop => .kwEndwhile
  | forLoop => .kwEndfor
  | foreachLoop => .kwEndforeach
  | directive => .kwEnddeclare

/-- What may end the statements of that body. -/
def stops : Control → List TokenKind
  | conditional => [.kwElseif, .kwElse, .kwEndif]
  | c => [c.closing]

def kind : Control → NodeKind
  | conditional => .ifStatement
  | whileLoop => .whileStatement
  | forLoop => .forStatement
  | foreachLoop => .foreachStatement
  | directive => .declareStatement

def production (below : Below) : Control → Parse Node
  | conditional => ifStatement below
  | whileLoop => whileStatement below
  | forLoop => forStatement below
  | foreachLoop => foreachStatement below
  | directive => declareStatement below

/-- The place where the structure begins, and what stands in its parentheses. -/
def head (below : Below) : Control → Parse (Nat × List Node)
  | conditional => do
    let start := (← expect .kwIf "'if'").span.start
    let condition ← parenthesized below
    return (start, [condition.inField "condition"])
  | whileLoop => do
    let start := (← expect .kwWhile "'while'").span.start
    let condition ← parenthesized below
    return (start, [condition.inField "condition"])
  | forLoop => do
    let start := (← expect .kwFor "'for'").span.start
    discard <| expect .lParen "'('"
    let init ← forClause below .semicolon
    discard <| expect .semicolon "';'"
    let condition ← forClause below .semicolon
    discard <| expect .semicolon "';'"
    let update ← forClause below .rParen
    discard <| expect .rParen "')'"
    return (start, [init.inField "init", condition.inField "condition", update.inField "update"])
  | foreachLoop => do
    let start := (← expect .kwForeach "'foreach'").span.start
    discard <| expect .lParen "'('"
    let subject ← below.expression
    discard <| expect .kwAs "'as'"
    let firstRef ← eat .amp
    let first ← below (.expression .coalesce)
    let (key, value, reference) ← if ← eats .fatArrow then do
        let reference ← eat .amp
        pure (some first, ← below (.expression .coalesce), reference)
      else pure (none, first, firstRef)
    discard <| expect .rParen "')'"
    return (start, subject.inField "subject" :: optField "key" key ++ [value.inField "value"]
      ++ flagField "reference" reference)
  | directive => do
    let start := (← expect .kwDeclare "'declare'").span.start
    discard <| expect .lParen "'('"
    let directives ← separated .comma (constElement below)
    discard <| expect .rParen "')'"
    return (start, directives.map (·.inField "directive"))

/-- What follows the head: the body, and the further branches of a conditional statement. -/
def rest (below : Below) (start : Nat) (parts : List Node) : Control → Parse Node
  | conditional => do
    if ← eats .colon then
      let body ← blockUntil below conditional.stops
      let clauses ← ifColonBranches below conditional.stops
      discard <| expect conditional.closing "'endif'"
      expectSemicolon
      nodeFrom .ifStatement start (parts ++ [body.inField "body"] ++ clauses)
    else
      let body ← statementAsBlock below
      let clauses ← ifBranches below
      nodeFrom .ifStatement start (parts ++ [body.inField "body"] ++ clauses)
  | directive => do
    let body ← if ← checkAny [.lBrace, .colon] then
        pure [(← bodyUntil below directive.closing).inField "body"]
      else do
        expectSemicolon
        pure []
    nodeFrom .declareStatement start (parts ++ body)
  | c => do
    let body ← bodyUntil below c.closing
    nodeFrom c.kind start (parts ++ [body.inField "body"])

theorem ite_bind {α β : Type} {b : Prop} [Decidable b] (p q : Parse α) (f : α → Parse β) :
    (if b then p else q) >>= f = if b then p >>= f else q >>= f := by split <;> rfl

/-- A control structure consists of its head and what follows it. -/
theorem production_eq (c : Control) (below : Below) :
    c.production below = c.head below >>= fun found => c.rest below found.1 found.2 := by
  cases c with
  | conditional => simp only [production, ifStatement, head, rest, bind_assoc, pure_bind]; rfl
  | whileLoop => simp only [production, whileStatement, head, rest, bind_assoc, pure_bind]; rfl
  | forLoop => simp only [production, forStatement, head, rest, bind_assoc, pure_bind]; rfl
  | foreachLoop =>
    simp only [production, foreachStatement, head, rest, bind_assoc, pure_bind, ite_bind]
    rfl
  | directive => simp only [production, declareStatement, head, rest, bind_assoc, pure_bind]; rfl

/-! ### Heads -/

section

variable {below below₁ below₂ : Below} {B : Bond} {C : Option TokenKind → Prop}

theorem head_reads {G : Ground} {atToken : Bool} {w : Nat} (hbelow : below.Reads G) (c : Control) :
    Reads G atToken true w (c.head below) := by
  cases c with
  | conditional | whileLoop =>
    refine .took expect_reads fun word hword =>
      .bind (parenthesized_reads hbelow) fun condition hcondition => ?_
    exact .pure (by simp [fits_start (fits_tokenSpan hword), hcondition]) (by simp)
  | forLoop =>
    refine .took expect_reads fun word hword => .bind (.discard expect_reads) fun _ _ => ?_
    refine .bind (forClause_reads hbelow _) fun init hinit =>
      .bind (.discard expect_reads) fun _ _ => ?_
    refine .bind (forClause_reads hbelow _) fun condition hcondition => ?_
    refine .bind (.discard expect_reads) fun _ _ => ?_
    refine .bind (forClause_reads hbelow _) fun update hupdate =>
      .bind (.discard expect_reads) fun _ _ => ?_
    exact .pure (by simp [fits_start (fits_tokenSpan hword), *]) (by simp; omega)
  | foreachLoop =>
    refine .took expect_reads fun word hword => .bind (.discard expect_reads) fun _ _ => ?_
    refine .bind (hbelow.expression _) fun subject hsubject =>
      .bind (.discard expect_reads) fun _ _ => ?_
    refine .bind eat_reads fun firstRef hfirstRef => .bind (hbelow.expression _) fun first hfirst =>
      ?_
    refine .bind eats_reads fun _ _ => .ite (fun _ => ?_) fun _ => .given ?_
    · refine .bind eat_reads fun reference hreference => ?_
      refine .bind (hbelow.expression _) fun value hvalue =>
        .given (.bind (.discard expect_reads) fun _ _ => ?_)
      exact .pure (by simp [fits_start (fits_tokenSpan hword), *]) (by simp; omega)
    · refine .bind (.discard expect_reads) fun _ _ => ?_
      exact .pure (by simp [fits_start (fits_tokenSpan hword), *]) (by simp)
  | directive =>
    refine .took expect_reads fun word hword => .bind (.discard expect_reads) fun _ _ => ?_
    refine .bind (separated_reads (constElement_reads hbelow)) fun directives hdirectives => ?_
    refine .bind (.discard expect_reads) fun _ _ => ?_
    exact .pure (by simp [fits_start (fits_tokenSpan hword), *]) (by simp)

theorem head_inStep (hbelow : below₁.InStep below₂ B) (c : Control) :
    InStep B .ends C (c.head below₁) (c.head below₂) := by
  cases c with
  | conditional | whileLoop =>
    refine .bind expect_inStep fun _ _ _ => ?_
    refine .close (parenthesized_inStep hbelow) fun condition condition' hcondition => ?_
    exact .pure (by simp [hcondition])
  | forLoop =>
    refine .bind expect_inStep fun _ _ _ => .bind (.discard expect_inStep) fun _ _ _ => ?_
    refine .bind (forClause_inStep hbelow _) fun init init' hinit => ?_
    refine .bind (.discard expect_inStep) fun _ _ _ => ?_
    refine .bind (forClause_inStep hbelow _) fun condition condition' hcondition => ?_
    refine .bind (.discard expect_inStep) fun _ _ _ => ?_
    refine .bind (forClause_inStep hbelow _) fun update update' hupdate => ?_
    exact .close (.discard (expect_ends (by decide))) fun _ _ _ => .pure (by simp [*])
  | foreachLoop =>
    refine .bind expect_inStep fun _ _ _ => .bind (.discard expect_inStep) fun _ _ _ => ?_
    refine .bind (hbelow.expression _) fun subject subject' hsubject => ?_
    refine .bind (.discard expect_inStep) fun _ _ _ => ?_
    refine .bind eat_inStep fun firstRef firstRef' hfirstRef => ?_
    refine .bind (hbelow.expression _) fun first first' hfirst => .ate fun _ =>
      .ite (fun _ => ?_) fun _ => ?_
    · refine .bind eat_inStep fun reference reference' hreference => ?_
      refine .bind (hbelow.expression _) fun value value' hvalue => .given ?_
      exact .close (.discard (expect_ends (by decide))) fun _ _ _ => .pure (by simp [*])
    · exact .given (.close (.discard (expect_ends (by decide))) fun _ _ _ => .pure (by simp [*]))
  | directive =>
    refine .bind expect_inStep fun _ _ _ => .bind (.discard expect_inStep) fun _ _ _ => ?_
    refine .bind (separated_inStep (constElement_inStep hbelow))
      fun directives directives' hdirectives => ?_
    exact .close (.discard (expect_ends (by decide))) fun _ _ _ => .pure (by simp [hdirectives])

/-- None of the parts in the head is a body. -/
theorem head_fields (c : Control) :
    Makes (fun found => ∀ part ∈ found.2, part.field ≠ some "body") (c.head below) := by
  cases c with
  | conditional | whileLoop => exact .bind fun _ => .bind fun _ => .pure (by simp [Node.inField])
  | forLoop =>
    refine .bind fun _ => .bind fun _ => .bind fun _ => .bind fun _ => .bind fun _ =>
      .bind fun _ => ?_
    exact .bind fun _ => .bind fun _ => .pure (by simp [Node.inField])
  | foreachLoop =>
    have hparts : ∀ (subject value : Node) (key : Option Node) (reference : Option Token),
        ∀ part ∈ subject.inField "subject" :: optField "key" key ++ [value.inField "value"] ++
          flagField "reference" reference, part.field ≠ some "body" := by
      intro subject value key reference
      cases key <;> cases reference <;> simp [optField, flagField, Node.inField]
    refine .bind fun _ => .bind fun _ => .bind fun _ => .bind fun _ => .bind fun _ =>
      .bind fun _ => ?_
    refine .bind fun _ =>
      .ite (.bind fun _ => .bind fun _ => .bind fun found => ?_) (.bind fun found => ?_)
    all_goals
      obtain ⟨key, value, reference⟩ := found
      exact .bind fun _ => .pure (hparts _ value key reference)
  | directive =>
      exact .bind fun _ => .bind fun _ => .bind fun _ => .bind fun _ =>
        .pure (by simp [Node.inField])

/-- The keyword decides what is read. -/
theorem statement_eq (c : Control) {src : Source} {s : State} {t : Token} (ht : s.current = some t)
    (hk : t.kind = c.opening) : statement below src s = c.production below src s := by
  rw [statement, bind_ok (kind?_eq src s), ht, Option.map_some, hk]
  cases c <;> rfl

end

/-! ### Bodies -/

section

variable {below : Below} {src : Source} {s s₁ s' : State} {t : Token} {n b body : Node}
  {start : Nat}
  {parts nodes : List Node}

theorem blockUntil_starts {terminators : List TokenKind} :
    Starts (blockUntil below terminators) := by
  unfold blockUntil
  exact .here fun _ => .bind fun _ => .nodeFrom

/-- No word for a further branch of a conditional statement stands here. -/
def Unbranched (s : State) : Prop := ∀ t ∈ s.current, t.kind ≠ .kwElseif ∧ t.kind ≠ .kwElse

/-- Where there is no further branch none is read. -/
theorem branches_none (hs : Unbranched s)
    (first second : List Node → Nat → Parse (Round (List Node))) :
    (repeated [] (fun clauses => here >>= fun start => eats .kwElseif >>= fun x =>
        if x = true then first clauses start else eats .kwElse >>= fun x =>
          if x = true then second clauses start else pure (.done clauses)) >>= fun clauses =>
      pure clauses.reverse : Parse (List Node)) src s = .ok [] s := by
  have hne : ∀ k ∈ [TokenKind.kwElseif, .kwElse], eats k src s = .ok false s := by
    intro k hk
    rw [eats_eq, if_neg]
    intro heq
    obtain ⟨t, ht, rfl⟩ := Option.map_eq_some_iff.1 (beq_iff_eq.1 heq)
    obtain ⟨helseif, helse⟩ := hs t ht
    simp only [List.mem_cons, List.not_mem_nil, or_false] at hk
    exact hk.elim helseif helse
  have hround : (here >>= fun start => eats .kwElseif >>= fun x =>
      if x = true then first [] start else eats .kwElse >>= fun x =>
        if x = true then second [] start else pure (.done [])) src s = .ok (.done []) s := by
    rw [bind_ok (here_eq src s), bind_ok (hne _ (by simp)), if_neg Bool.false_ne_true,
      bind_ok (hne _ (by simp)), if_neg Bool.false_ne_true]
    rfl
  rw [bind_ok (by rw [repeated_eq]; exact rounds_done hround)]
  rfl

theorem bodyUntil_ok {closing : TokenKind} (hr : bodyUntil below closing src s = .ok body s') :
    (∃ t, s.current = some t ∧ t.kind = .colon ∧ body.span.start = s.advance.start src) ∨
      statementAsBlock below src s = .ok body s' := by
  have heats := eats_eq .colon src s
  rw [bodyUntil] at hr
  split at heats
  · rename_i hcolon
    rw [bind_ok heats, if_pos rfl] at hr
    obtain ⟨block, s₁, hblock, hr⟩ := exists_of_bind hr
    obtain ⟨-, s₂, -, hr⟩ := exists_of_bind hr
    obtain ⟨-, s₃, -, hr⟩ := exists_of_bind hr
    obtain ⟨rfl, -⟩ := EStateM.Result.ok.inj hr
    obtain ⟨t, ht, hk⟩ := Option.map_eq_some_iff.1 (beq_iff_eq.1 hcolon)
    exact .inl ⟨t, ht, hk, blockUntil_starts _ _ _ _ hblock⟩
  · rw [bind_ok heats, if_neg Bool.false_ne_true] at hr
    exact .inr hr

theorem childBy?_body {kind : NodeKind} {span : Span} {more : List Node}
    (hparts : ∀ part ∈ parts, part.field ≠ some "body") :
    (Node.ofKind kind span (parts ++ body.inField "body" :: more)).childBy? "body" =
      some (body.inField "body") := by
  have hnone : parts.find? (·.field == some "body") = none :=
    List.find?_eq_none.2 fun part hpart => by simpa using hparts part hpart
  show (parts ++ body.inField "body" :: more).find? (·.field == some "body") = _
  rw [List.find?_append, hnone, Option.none_or, List.find?_cons_of_pos]
  exact beq_self_eq_true _

theorem nodeFrom_ok {kind : NodeKind} {children : List Node}
    (hr : nodeFrom kind start children src s = .ok n s') :
    n = Node.ofKind kind (src.span start (max s.prevEnd start)) children ∧ s' = s := by
  obtain ⟨rfl, rfl⟩ := EStateM.Result.ok.inj hr
  exact ⟨rfl, rfl⟩

/-- How the body `b` of the control structure `n` is read: behind a colon, or as a statement, with
which the structure ends where no further branch follows. -/
def Encloses (c : Control) (below : Below) (src : Source) (parts : List Node) (n b : Node)
    (s s' : State) : Prop :=
  (∃ t, s.current = some t ∧ t.kind = .colon ∧ b.span.start = s.advance.start src) ∨
    ∃ body s₁, statementAsBlock below src s = .ok body s₁ ∧ b = body.inField "body" ∧
      (Unbranched s₁ → s' = s₁ ∧
        unplaced n = Node.ofKind c.kind default (unplaced parts ++
          [(unplaced body).inField "body"]))

theorem encloses_of_bodyUntil {c : Control} {closing : TokenKind}
    (hbody : bodyUntil below closing src s = .ok body s₁)
    (hn : nodeFrom c.kind start (parts ++ [body.inField "body"]) src s₁ = .ok n s')
    (hparts : ∀ part ∈ parts, part.field ≠ some "body") (hb : n.childBy? "body" = some b) :
    c.Encloses below src parts n b s s' := by
  obtain ⟨rfl, rfl⟩ := nodeFrom_ok hn
  rw [childBy?_body hparts] at hb
  obtain rfl := Option.some.inj hb
  exact (bodyUntil_ok hbody).imp_right fun hbody => ⟨body, s', hbody, rfl, fun _ => ⟨rfl, by simp⟩⟩

theorem encloses_of_rest {c : Control} (hr : c.rest below start parts src s = .ok n s')
    (hparts : ∀ part ∈ parts, part.field ≠ some "body") (hb : n.childBy? "body" = some b) :
    c.Encloses below src parts n b s s' := by
  cases c with
  | whileLoop | forLoop | foreachLoop =>
    obtain ⟨body, s₁, hbody, hn⟩ := exists_of_bind hr
    exact encloses_of_bodyUntil hbody hn hparts hb
  | directive =>
    obtain ⟨test, s₁, htest, hr⟩ := exists_of_bind hr
    obtain ⟨-, rfl⟩ := EStateM.Result.ok.inj htest
    split at hr
    · obtain ⟨body, s₁, hbody, hr⟩ := exists_of_bind hr
      obtain ⟨part, s₂, hpart, hn⟩ := exists_of_bind hr
      obtain ⟨rfl, rfl⟩ := EStateM.Result.ok.inj hpart
      exact encloses_of_bodyUntil hbody hn hparts hb
    · obtain ⟨-, s₁, -, hr⟩ := exists_of_bind hr
      obtain ⟨part, s₂, hpart, hn⟩ := exists_of_bind hr
      obtain ⟨rfl, rfl⟩ := EStateM.Result.ok.inj hpart
      obtain ⟨rfl, -⟩ := nodeFrom_ok hn
      -- There is no body at all.
      rw [List.append_nil] at hb
      have hmem := List.mem_of_find?_eq_some hb
      have hfield := List.find?_some hb
      exact absurd (by simpa using hfield) (hparts b hmem)
  | conditional =>
    have heats := eats_eq .colon src s
    rw [rest] at hr
    split at heats
    · rename_i hcolon
      obtain ⟨t, ht, hk⟩ := Option.map_eq_some_iff.1 (beq_iff_eq.1 hcolon)
      rw [bind_ok heats, if_pos rfl] at hr
      obtain ⟨body, s₁, hbody, hr⟩ := exists_of_bind hr
      obtain ⟨clauses, s₂, -, hr⟩ := exists_of_bind hr
      obtain ⟨-, s₃, -, hr⟩ := exists_of_bind hr
      obtain ⟨-, s₄, -, hn⟩ := exists_of_bind hr
      obtain ⟨rfl, -⟩ := nodeFrom_ok hn
      rw [List.append_assoc, List.singleton_append, childBy?_body hparts] at hb
      obtain rfl := Option.some.inj hb
      have hstart := blockUntil_starts _ _ _ _ hbody
      exact .inl ⟨t, ht, hk, hstart⟩
    · rw [bind_ok heats, if_neg Bool.false_ne_true] at hr
      obtain ⟨body, s₁, hbody, hr⟩ := exists_of_bind hr
      obtain ⟨clauses, s₂, hclauses, hn⟩ := exists_of_bind hr
      obtain ⟨rfl, rfl⟩ := nodeFrom_ok hn
      rw [List.append_assoc, List.singleton_append, childBy?_body hparts] at hb
      obtain rfl := Option.some.inj hb
      refine .inr ⟨body, s₁, hbody, rfl, fun hs => ?_⟩
      have hnone : ifBranches below src s₁ = .ok [] s₁ := branches_none hs _ _
      obtain ⟨rfl, rfl⟩ := EStateM.Result.ok.inj (hclauses.symm.trans hnone)
      exact ⟨rfl, by simp [kind]⟩

/-- The form with a colon, where its statements, its keyword and a semicolon follow. -/
theorem rest_colon (c : Control) (start : Nat) (parts : List Node) {colon keyword semicolon : Token}
    (hcolon : s.current = some colon) (hk : colon.kind = .colon)
    (hnodes : statementsUntil below c.stops src s.advance = .ok nodes s₁)
    (hkeyword : s₁.current = some keyword) (hk' : keyword.kind = c.closing)
    (hsemicolon : s₁.advance.current = some semicolon) (hk'' : semicolon.kind = .semicolon) :
    ∃ n, c.rest below start parts src s = .ok n s₁.advance.advance ∧
      unplaced n = Node.ofKind c.kind default
        (unplaced parts ++ [(Node.ofKind .block default (unplaced nodes)).inField "body"]) := by
  obtain ⟨span, hblock⟩ : ∃ span, blockUntil below c.stops src s.advance =
      .ok (Node.ofKind .block span nodes) s₁ :=
    ⟨_, by rw [blockUntil, bind_ok (here_eq src s.advance), bind_ok hnodes]; rfl⟩
  have heats : eats .colon src s = .ok true s.advance := by
    rw [eats_eq, hcolon, Option.map_some, hk, if_pos (beq_self_eq_true _)]
  have hclose : ∀ what, discard (expect c.closing what) src s₁ = .ok () s₁.advance :=
    fun _ => discard_ok (expect_eq hkeyword hk')
  have hend : expectSemicolon src s₁.advance = .ok () s₁.advance.advance := by
    rw [expectSemicolon_eq, hsemicolon, Option.map_some, hk'', if_pos (beq_self_eq_true _)]
  have hbody : c.stops = [c.closing] → bodyUntil below c.closing src s =
      .ok (Node.ofKind .block span nodes) s₁.advance.advance := by
    intro hstops
    rw [hstops] at hblock
    rw [bodyUntil, bind_ok heats, if_pos rfl, bind_ok hblock, bind_ok (hclose _), bind_ok hend]
    rfl
  cases c with
  | whileLoop | forLoop | foreachLoop =>
    exact ⟨_, bind_ok (hbody rfl), by simp [kind]⟩
  | directive =>
    have htest : checkAny [.lBrace, .colon] src s = .ok true s := by
      show EStateM.Result.ok ((s.current.map (·.kind)).any _) s = _
      rw [hcolon, Option.map_some, hk]
      rfl
    have hrun : directive.rest below start parts src s =
        nodeFrom .declareStatement start (parts ++ [(Node.ofKind .block span nodes).inField "body"])
          src
          s₁.advance.advance := by
      rw [rest, bind_ok htest, if_pos rfl, bind_ok (hbody rfl)]
      rfl
    exact ⟨_, hrun, by simp [kind]⟩
  | conditional =>
    have hunbranched : Unbranched s₁ := by
      intro t ht
      obtain rfl := Option.some.inj (hkeyword.symm.trans ht)
      rw [hk']
      exact ⟨nofun, nofun⟩
    have hclauses : ifColonBranches below conditional.stops src s₁ = .ok [] s₁ :=
      branches_none hunbranched _ _
    have hrun : conditional.rest below start parts src s =
        nodeFrom .ifStatement start (parts ++ [(Node.ofKind .block span nodes).inField "body"] ++
          []) src
          s₁.advance.advance := by
      rw [rest, bind_ok heats, if_pos rfl, bind_ok hblock, bind_ok hclauses, bind_ok (hclose _),
        bind_ok hend]
    exact ⟨_, hrun, by simp [kind]⟩

end

end Control

end PhpCheck.Grammar
