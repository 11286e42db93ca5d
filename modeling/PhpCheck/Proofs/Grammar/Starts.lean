import PhpCheck.Proofs.Grammar.Reading.Statements

/-!
Where statements begin.

A production that makes a statement notes the place of its first token before it consumes anything,
and makes its node from that place on.  So the span of a statement begins where its first token does
(`statement_starts`).
-/

namespace PhpCheck.Grammar

/-- Where the current token begins; the end of the text where there is none. -/
def State.start (src : Source) (s : State) : Nat := (s.current.map (·.span.start)).getD src.size

/-- Whatever the production makes has a property. -/
def Makes {α : Type} (P : α → Prop) (p : Parse α) : Prop := ∀ src s a s', p src s = .ok a s' → P a

/-- What the production makes begins where its first token does. -/
def Starts (p : Parse Node) : Prop :=
  ∀ src s n s', p src s = .ok n s' → n.span.start = s.start src

section

variable {α β : Type} {P : β → Prop} {p : Parse α} {f : α → Parse β}

/-- What succeeds has succeeded step by step. -/
theorem exists_of_bind {src : Source} {s s' : State} {b : β} (hr : (p >>= f) src s = .ok b s') :
    ∃ a s₁, p src s = .ok a s₁ ∧ f a src s₁ = .ok b s' := by
  cases hp : p src s with
  | ok a s₁ => exact ⟨a, s₁, rfl, by rwa [bind_ok hp] at hr⟩
  | error e s₁ =>
    rw [bind_error hp] at hr
    cases hr

namespace Makes

theorem bind (hf : ∀ a, Makes P (f a)) : Makes P (p >>= f) := by
  intro src s b s' hr
  obtain ⟨a, s₁, -, hr⟩ := exists_of_bind hr
  exact hf a src s₁ b s' hr

theorem pure {b : β} (hb : P b) : Makes P (pure b) := by
  intro src s b' s' hr
  obtain ⟨rfl, -⟩ := EStateM.Result.ok.inj hr
  exact hb

theorem ite {c : Prop} [Decidable c] {q r : Parse β} (hq : Makes P q) (hr : Makes P r) :
    Makes P (if c then q else r) := by
  split
  · exact hq
  · exact hr

end Makes

end

/-- What the production makes begins at a place that is known. -/
abbrev From (start : Nat) (p : Parse Node) : Prop := Makes (·.span.start = start) p

section

variable {α : Type} {below : Below} {p : Parse α} {f : α → Parse Node} {start : Nat}

theorem Makes.nodeFrom {kind : NodeKind} {children : List Node} :
    From start (nodeFrom kind start children) := by
  intro src s n s' hr
  obtain ⟨rfl, -⟩ := EStateM.Result.ok.inj hr
  rfl

theorem unexpected_ne_ok {what : String} {src : Source} {s s' : State} {a : α} :
    (unexpected what : Parse α) src s ≠ .ok a s' := by
  obtain ⟨current, doc, prevEnd, rest, errors⟩ := s
  cases current <;> nofun

/-- The token that must stand here is the current one. -/
theorem expect_ok {kind : TokenKind} {what : String} {src : Source} {s s' : State} {t : Token}
    (hr : expect kind what src s = .ok t s') :
    s.current = some t ∧ t.kind = kind ∧ s' = s.advance := by
  have heat := eat_eq kind src s
  rw [expect] at hr
  split at heat
  · rename_i hk
    rw [bind_ok heat] at hr
    cases hs : s.current with
    | none =>
      rw [hs] at hk
      cases hk
    | some u =>
      rw [hs] at hr hk
      obtain ⟨rfl, rfl⟩ := EStateM.Result.ok.inj hr
      exact ⟨rfl, Option.some.inj (beq_iff_eq.1 hk), rfl⟩
  · rw [bind_ok heat] at hr
    exact absurd hr unexpected_ne_ok

namespace Starts

theorem here {f : Nat → Parse Node} (hf : ∀ start, From start (f start)) : Starts (here >>= f) := by
  intro src s n s' hr
  have hhere : Grammar.here src s = .ok (s.start src) s := rfl
  rw [bind_ok hhere] at hr
  exact hf _ src s n s' hr

theorem expect {kind : TokenKind} {what : String} {f : Token → Parse Node}
    (hf : ∀ t, From t.span.start (f t)) : Starts (expect kind what >>= f) := by
  intro src s n s' hr
  obtain ⟨t, s₁, ht, hr⟩ := exists_of_bind hr
  have hstart : s.start src = t.span.start := by
    rw [State.start, (expect_ok ht).1]
    rfl
  exact (hf t src s₁ n s' hr).trans hstart.symm

theorem look [Looks p] (hf : ∀ a, Starts (f a)) : Starts (p >>= f) := by
  intro src s n s' hr
  obtain ⟨a, ha⟩ := Looks.looks (p := p) src s
  rw [bind_ok ha] at hr
  exact hf a src s n s' hr

theorem ite {c : Prop} [Decidable c] {q r : Parse Node} (hq : Starts q) (hr : Starts r) :
    Starts (if c then q else r) := by
  split
  · exact hq
  · exact hr

end Starts

end

/-! ### Productions -/

section

variable {below : Below}

theorem braceBlock_starts : Starts (braceBlock below) := by
  unfold braceBlock
  exact .expect fun _ => .bind fun _ => .bind fun _ => .nodeFrom

theorem ifStatement_starts : Starts (ifStatement below) := by
  unfold ifStatement
  refine .expect fun _ => .bind fun _ => .bind fun _ => .ite ?_ ?_
  · exact .bind fun _ => .bind fun _ => .bind fun _ => .bind fun _ => .nodeFrom
  · exact .bind fun _ => .bind fun _ => .nodeFrom

theorem whileStatement_starts : Starts (whileStatement below) := by
  unfold whileStatement
  exact .expect fun _ => .bind fun _ => .bind fun _ => .nodeFrom

theorem doWhileStatement_starts : Starts (doWhileStatement below) := by
  unfold doWhileStatement
  exact .expect fun _ => .bind fun _ => .bind fun _ => .bind fun _ => .bind fun _ => .nodeFrom

theorem forStatement_starts : Starts (forStatement below) := by
  unfold forStatement
  refine .expect fun _ => .bind fun _ => .bind fun _ => .bind fun _ => .bind fun _ => ?_
  exact .bind fun _ => .bind fun _ => .bind fun _ => .bind fun _ => .nodeFrom

theorem foreachStatement_starts : Starts (foreachStatement below) := by
  unfold foreachStatement
  refine .expect fun _ => .bind fun _ => .bind fun _ => .bind fun _ => .bind fun _ => ?_
  refine .bind fun _ => .bind fun _ => .ite (.bind fun _ => .bind fun _ => ?_) ?_
  · exact .bind fun _ => .bind fun _ => .bind fun _ => .nodeFrom
  · exact .bind fun _ => .bind fun _ => .bind fun _ => .nodeFrom

theorem switchStatement_starts : Starts (switchStatement below) := by
  unfold switchStatement
  refine .expect fun _ => .bind fun _ => .bind fun _ => ?_
  extract_lets close rest
  have hrest : ∀ u, From _ (rest u) := fun u => .bind fun _ => .bind fun _ => .bind fun _ =>
    .ite (.bind fun _ => .nodeFrom) .nodeFrom
  exact .ite (.bind fun _ => hrest ()) (hrest ())

theorem tryStatement_starts : Starts (tryStatement below) := by
  unfold tryStatement
  refine .expect fun _ => .bind fun _ => .bind fun _ => .bind fun _ => .bind fun _ => .ite ?_ ?_
  · exact .bind fun _ => .bind fun _ => .bind fun _ => .nodeFrom
  · exact .bind fun _ => .nodeFrom

theorem declareStatement_starts : Starts (declareStatement below) := by
  unfold declareStatement
  refine .expect fun _ => .bind fun _ => .bind fun _ => .bind fun _ => .bind fun _ => .ite ?_ ?_
  · exact .bind fun _ => .bind fun _ => .nodeFrom
  · exact .bind fun _ => .bind fun _ => .nodeFrom

theorem returnStatement_starts : Starts (returnStatement below) := by
  unfold returnStatement
  exact .expect fun _ => .bind fun _ => .bind fun _ => .nodeFrom

theorem loopJump_starts {kind : NodeKind} : Starts (loopJump below kind) := by
  unfold loopJump
  exact .here fun _ => .bind fun _ => .bind fun _ => .bind fun _ => .nodeFrom

theorem gotoStatement_starts : Starts gotoStatement := by
  unfold gotoStatement
  exact .expect fun _ => .bind fun _ => .bind fun _ => .nodeFrom

theorem labelStatement_starts : Starts labelStatement := by
  unfold labelStatement
  exact .expect fun _ => .bind fun _ => .nodeFrom

theorem namespaceDefinition_starts : Starts (namespaceDefinition below) := by
  unfold namespaceDefinition
  have hrest : ∀ {start : Nat} {name : List Node}, From start (check .lBrace >>= fun x =>
      if x = true then braceBlock below >>= fun body => pure [body.inField "body"] >>= fun body =>
        nodeFrom .namespaceDefinition start (name ++ body)
      else expectSemicolon >>= fun _ => pure [] >>= fun body =>
        nodeFrom .namespaceDefinition start (name ++ body)) :=
    .bind fun _ => .ite (.bind fun _ => .bind fun _ => .nodeFrom)
      (.bind fun _ => .bind fun _ => .nodeFrom)
  exact .expect fun _ => .bind fun _ =>
    .ite (.bind fun _ => hrest) (.bind fun _ => .bind fun _ => hrest)

theorem useDeclaration_starts : Starts useDeclaration := by
  unfold useDeclaration
  exact .expect fun _ => .bind fun _ => .bind fun _ => .bind fun _ => .nodeFrom

theorem expressionStatement_starts : Starts (expressionStatement below) := by
  unfold expressionStatement
  exact .here fun _ => .bind fun _ => .bind fun _ => .bind fun _ => .nodeFrom

theorem echoStatement_starts {opening : TokenKind} {what : String} :
    Starts (echoStatement below opening what) := by
  unfold echoStatement
  exact .expect fun _ => .bind fun _ => .bind fun _ => .nodeFrom

theorem globalDeclaration_starts : Starts globalDeclaration := by
  unfold globalDeclaration
  exact .expect fun _ => .bind fun _ => .bind fun _ => .nodeFrom

theorem staticDeclaration_starts : Starts (staticDeclaration below) := by
  unfold staticDeclaration
  exact .expect fun _ => .bind fun _ => .bind fun _ => .nodeFrom

theorem unsetStatement_starts : Starts (unsetStatement below) := by
  unfold unsetStatement
  exact .expect fun _ => .bind fun _ => .bind fun _ => .bind fun _ => .bind fun _ => .nodeFrom

theorem functionDefinition_starts : Starts (functionDefinition below) := by
  unfold functionDefinition
  refine .here fun _ => .bind fun _ => .bind fun _ => .bind fun _ => .bind fun _ => ?_
  exact .bind fun _ => .bind fun _ => .bind fun _ => .nodeFrom

theorem constDeclaration_starts : Starts (constDeclaration below) := by
  unfold constDeclaration
  exact .here fun _ => .bind fun _ => .bind fun _ => .bind fun _ => .bind fun _ => .nodeFrom

theorem classDeclaration_starts : Starts (classDeclaration below) := by
  unfold classDeclaration
  refine .here fun _ => .bind fun _ => .bind fun _ => .bind fun _ => .bind fun _ => ?_
  exact .bind fun _ => .bind fun _ => .nodeFrom

theorem interfaceDeclaration_starts : Starts (interfaceDeclaration below) := by
  unfold interfaceDeclaration
  refine .here fun _ => .bind fun _ => .bind fun _ => .bind fun _ => .bind fun _ => .ite ?_ ?_
  · exact .bind fun _ => .bind fun _ => .bind fun _ => .nodeFrom
  · exact .bind fun _ => .bind fun _ => .nodeFrom

theorem traitDeclaration_starts : Starts (traitDeclaration below) := by
  unfold traitDeclaration
  exact .here fun _ => .bind fun _ => .bind fun _ => .bind fun _ => .bind fun _ => .nodeFrom

/-- The span of a statement begins where its first token does. -/
theorem statement_starts : Starts (statement below) := by
  unfold statement
  refine .look fun kind => ?_
  split
  · exact fun _ _ _ _ hr => absurd hr unexpected_ne_ok
  · exact braceBlock_starts
  · exact .expect fun _ => .pure rfl
  · exact .expect fun _ => .pure rfl
  · exact echoStatement_starts
  · exact ifStatement_starts
  · exact whileStatement_starts
  · exact doWhileStatement_starts
  · exact forStatement_starts
  · exact foreachStatement_starts
  · exact switchStatement_starts
  · exact tryStatement_starts
  · exact declareStatement_starts
  · exact returnStatement_starts
  · exact loopJump_starts
  · exact loopJump_starts
  · exact gotoStatement_starts
  · exact .look fun _ => .ite functionDefinition_starts expressionStatement_starts
  iterate 4 exact .look fun _ => .ite classDeclaration_starts expressionStatement_starts
  · exact interfaceDeclaration_starts
  · exact traitDeclaration_starts
  · exact constDeclaration_starts
  · exact .look fun _ => .ite expressionStatement_starts namespaceDefinition_starts
  · exact useDeclaration_starts
  · exact echoStatement_starts
  · exact globalDeclaration_starts
  · exact .look fun _ => .ite staticDeclaration_starts expressionStatement_starts
  · exact unsetStatement_starts
  · exact .look fun _ => .ite labelStatement_starts expressionStatement_starts
  · exact expressionStatement_starts

end

end PhpCheck.Grammar
