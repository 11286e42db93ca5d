import PhpCheck.Grammar.File
import PhpCheck.Proofs.Grammar.Infix

/-!
Running the grammar on the tokens of a tree.

A production is run from a state in front of some tokens (`Grammar.State.before`), and each
step of it is an equation between runs.  An operand ends in front of tokens that neither
belong to it nor bind more tightly (`Grammar.Stops`), and one round of the loop over binary
operators either ends there or reads an operator with its right operand.
-/

namespace PhpCheck

/-! ### The state between two tokens -/

/-- The kinds of the tokens of a tree, and the one that ends its statement. -/
def infixKinds : List TokenKind :=
  [.variableName, .lParen, .rParen, .semicolon] ++ (infixSymbols ++ infixKeywords).map (·.2)

theorem InfixOperator.kind_mem (op : InfixOperator) : op.kind ∈ infixKinds :=
  List.mem_append_right _ (List.mem_map_of_mem (f := Prod.snd) op.mem_infix)

namespace Grammar

/-- The tokens are those of trees. -/
def Plain (toks : List Token) : Prop := ∀ t ∈ toks, t.kind ∈ infixKinds

/-- The state in front of some tokens. -/
def State.before (errors : List SyntaxError) (prevEnd : Nat) (toks : List Token) : State :=
  { current := toks.head?, doc := none, prevEnd, rest := toks.tail.map .ok, errors }

theorem settle_plain {errors : List SyntaxError} {prevEnd : Nat} {toks : List Token}
    (htoks : Plain toks) :
    State.settle prevEnd none errors (toks.map .ok) = .before errors prevEnd toks := by
  cases toks with
  | nil => rfl
  | cons t toks =>
    have hcomment : ∀ kind ∈ infixKinds, kind ≠ .lineComment ∧ kind ≠ .docComment := by decide
    obtain ⟨hline, hdoc⟩ := hcomment t.kind (htoks t List.mem_cons_self)
    rw [List.map_cons, State.settle, if_neg hline, if_neg hdoc]
    rfl

/-! ### Running productions -/

section

variable {α β : Type} {src : Source} {s s' : State} {e : SyntaxError} {a b : α}

theorem bind_ok {p : Parse α} {f : α → Parse β} (hp : p src s = .ok a s') :
    (p >>= f) src s = f a src s' := by
  show EStateM.bind (p src) (fun a => f a src) s = _
  rw [EStateM.bind, hp]

theorem bind_error {p : Parse α} {f : α → Parse β} (hp : p src s = .error e s') :
    (p >>= f) src s = .error e s' := by
  show EStateM.bind (p src) (fun a => f a src) s = _
  rw [EStateM.bind, hp]

theorem bind_congr {p q : Parse α} {f : α → Parse β} (hp : p src s = q src s') :
    (p >>= f) src s = (q >>= f) src s' := by
  show EStateM.bind (p src) (fun a => f a src) s = EStateM.bind (q src) (fun a => f a src) s'
  rw [EStateM.bind, EStateM.bind, hp]

theorem bind_congr_right {p : Parse α} {f g : α → Parse β}
    (hfg : ∀ a s, f a src s = g a src s) : (p >>= f) src s = (p >>= g) src s := by
  show EStateM.bind (p src) (fun a => f a src) s = EStateM.bind (p src) (fun a => g a src) s
  rw [EStateM.bind, EStateM.bind]
  cases p src s with
  | ok a s => exact hfg a s
  | error e s => rfl

theorem discard_ok {p : Parse α} (hp : p src s = .ok a s') : discard p src s = .ok () s' := by
  show EStateM.map _ (p src) s = _
  rw [EStateM.map, hp]

variable {round : α → Parse (Round α)} {fuel : Nat}

theorem repeated_eq :
    repeated a round src s = rounds round (s.rest.length + 2) a src s := rfl

theorem rounds_more (hround : round a src s = .ok (.more b) s') :
    rounds round (fuel + 1) a src s = rounds round fuel b src s' := by
  rw [rounds, bind_ok hround]

theorem rounds_done (hround : round a src s = .ok (.done b) s') :
    rounds round (fuel + 1) a src s = .ok b s' := by
  rw [rounds, bind_ok hround]
  rfl

theorem rounds_error (hround : round a src s = .error e s') :
    rounds round (fuel + 1) a src s = .error e s' := by
  rw [rounds, bind_error hround]

end

section

variable {src : Source} {errors : List SyntaxError} {prevEnd : Nat} {t : Token} {toks : List Token}

theorem advance_before (htoks : Plain toks) :
    advance src (.before errors prevEnd (t :: toks)) =
      .ok (some t) (.before errors t.span.stop toks) := by
  rw [← settle_plain htoks]
  rfl

theorem kind?_before : kind? src (.before errors prevEnd (t :: toks)) =
    .ok (some t.kind) (.before errors prevEnd (t :: toks)) := rfl

theorem expect_before {kind : TokenKind} {what : String} (hk : t.kind = kind) (htoks : Plain toks) :
    expect kind what src (.before errors prevEnd (t :: toks)) =
      .ok t (.before errors t.span.stop toks) := by
  have heat : eat kind src (.before errors prevEnd (t :: toks)) =
      .ok (some t) (.before errors t.span.stop toks) := by
    have hcheck : check kind src (.before errors prevEnd (t :: toks)) =
        .ok true (.before errors prevEnd (t :: toks)) := by
      show EStateM.Result.ok (some t.kind == some kind) _ = _
      rw [hk, beq_self_eq_true]
    rw [eat, bind_ok hcheck]
    exact advance_before htoks
  rw [expect, bind_ok heat]
  rfl

end

/-! ### Where an operand ends -/

/-- In front of the tokens an operand ends that is read at some rank. -/
structure Stops (rank : Nat) (toks : List Token) : Prop where
  plain : Plain toks
  head : ∃ t more, toks = t :: more ∧ t.kind ≠ .variableName ∧ t.kind ≠ .lParen ∧
    ∀ level grouping, t.kind.binary? = some (level, grouping) → level.rank < rank

theorem Stops.mono {rank rank' : Nat} {toks : List Token} (hs : Stops rank toks)
    (hle : rank ≤ rank') : Stops rank' toks := by
  obtain ⟨t, more, rfl, hvariable, hopen, hlt⟩ := hs.head
  exact ⟨hs.plain, t, more, rfl, hvariable, hopen,
    fun level grouping hbinary => Nat.lt_of_lt_of_le (hlt level grouping hbinary) hle⟩

theorem stops_rParen {rank : Nat} {t : Token} {toks : List Token} (ht : t.kind = .rParen)
    (htoks : Plain toks) : Stops rank (t :: toks) := by
  refine ⟨List.forall_mem_cons.2 ⟨ht ▸ by decide, htoks⟩, t, toks, rfl, ?_⟩
  rw [ht]
  exact ⟨nofun, nofun, nofun⟩

theorem stops_semicolon (rank : Nat) {t : Token} (ht : t.kind = .semicolon) : Stops rank [t] := by
  refine ⟨List.forall_mem_cons.2 ⟨ht ▸ by decide, fun _ h => absurd h List.not_mem_nil⟩, t, [],
    rfl, ?_⟩
  rw [ht]
  exact ⟨nofun, nofun, nofun⟩

theorem stops_operator {rank : Nat} {op : InfixOperator} {t : Token} {toks : List Token}
    (ht : t.kind = op.kind) (hrank : op.level.rank < rank) (htoks : Plain toks) :
    Stops rank (t :: toks) := by
  have hkinds : ∀ kind ∈ (infixSymbols ++ infixKeywords).map (·.2),
      kind ≠ .variableName ∧ kind ≠ .lParen := by decide
  obtain ⟨hvariable, hopen⟩ := hkinds op.kind (List.mem_map_of_mem (f := Prod.snd) op.mem_infix)
  refine ⟨List.forall_mem_cons.2 ⟨ht ▸ op.kind_mem, htoks⟩, t, toks, rfl, ?_⟩
  rw [ht]
  refine ⟨hvariable, hopen, fun level grouping hbinary => ?_⟩
  rw [op.binary] at hbinary
  obtain ⟨rfl, rfl⟩ := Prod.mk.inj (Option.some.inj hbinary)
  exact hrank

section

variable {below : Below} {src : Source} {prevEnd rank : Nat} {toks : List Token} {n : Node}

/-- Nothing that belongs to an operand follows it. -/
theorem postfixChain_stops (hs : Stops rank toks) :
    postfixChain below n src (.before [] prevEnd toks) = .ok n (.before [] prevEnd toks) := by
  obtain ⟨t, more, rfl, -, hopen, -⟩ := hs.head
  have hkind := hs.plain t List.mem_cons_self
  rw [postfixChain, repeated_eq]
  refine rounds_done ?_
  rw [bind_ok kind?_before]
  generalize t.kind = kind at hkind hopen ⊢
  cases kind <;> first | rfl | exact absurd rfl hopen | exact absurd hkind (by decide)

/-- One round of the loop over binary operators. -/
def binaryRound (below : Below) (min : Precedence) (left : Node) : Parse (Round Node) := do
  match ← kind? with
  | none => return .done left
  | some kind =>
    if kind.isAssignment && left.kind.isAssignable then
      return .more (← assignment below left)
    else if kind == .question && min.rank ≤ Precedence.ternary.rank then
      return .more (← ternary below left)
    else match kind.binary? with
      | none => return .done left
      | some (prec, assoc) =>
        if prec.rank < min.rank then return .done left
        return .more (← binaryOperation below left prec assoc)

theorem binary_eq (below : Below) (min : Precedence) :
    binary below min = unary below >>= fun first => repeated first (binaryRound below min) := rfl

/-- No token of a tree is an assignment or the mark of a conditional expression. -/
theorem binaryRound_before {t : Token} {min : Precedence} (ht : t.kind ∈ infixKinds) :
    binaryRound below min n src (.before [] prevEnd (t :: toks)) =
      (match t.kind.binary? with
        | none => pure (.done n)
        | some (prec, assoc) =>
          if prec.rank < min.rank then pure (.done n)
          else binaryOperation below n prec assoc >>= fun n => pure (.more n) :
            Parse (Round Node)) src (.before [] prevEnd (t :: toks)) := by
  have hkinds : ∀ kind ∈ infixKinds, kind.isAssignment = false ∧ kind ≠ .question := by decide
  obtain ⟨hassignment, hquestion⟩ := hkinds t.kind ht
  rw [binaryRound, bind_ok kind?_before]
  dsimp only
  rw [hassignment, beq_false_of_ne hquestion]
  rfl

theorem binaryRound_stops {min : Precedence} (hs : Stops min.rank toks) :
    binaryRound below min n src (.before [] prevEnd toks) =
      .ok (.done n) (.before [] prevEnd toks) := by
  obtain ⟨t, more, rfl, -, -, hlt⟩ := hs.head
  rw [binaryRound_before (hs.plain t List.mem_cons_self)]
  cases hbinary : t.kind.binary? with
  | none => rfl
  | some found =>
    obtain ⟨prec, assoc⟩ := found
    dsimp only
    rw [if_pos (hlt prec assoc hbinary)]
    rfl

/-- An operator that binds tightly enough is read with its right operand. -/
theorem binaryRound_operator (below : Below) (src : Source) (prevEnd : Nat) (n : Node)
    {op : InfixOperator} {t : Token} {min : Precedence}
    (ht : t.word = (op.kind, op.text)) (hmin : min.rank ≤ op.level.rank) (htoks : Plain toks) :
    binaryRound below min n src (.before [] prevEnd (t :: toks)) =
      (below (.expression op.rightMin) >>= fun right =>
        pure (.more (Node.ofKind .binaryExpression (n.span.merge right.span)
          [n.inField "left", (Node.leaf .operator t.span op.text).inField "operator",
            right.inField "right"]))) src (.before [] t.span.stop toks) := by
  obtain ⟨hkind, htext⟩ := Prod.mk.inj ht
  have hinstanceof : (t.kind == .kwInstanceof) = false :=
    beq_false_of_ne (hkind ▸ op.ne_instanceof)
  have hoperation : binaryOperation below n op.level op.grouping src
        (.before [] prevEnd (t :: toks)) =
      (below (.expression op.rightMin) >>= fun right =>
        pure (Node.ofKind .binaryExpression (n.span.merge right.span)
          [n.inField "left", (Node.leaf .operator t.span op.text).inField "operator",
            right.inField "right"])) src (.before [] t.span.stop toks) := by
    rw [binaryOperation, bind_ok (advance_before htoks)]
    dsimp only
    rw [hinstanceof, htext, op.toLower_text]
    rfl
  rw [binaryRound_before (hkind ▸ op.kind_mem), hkind, op.binary]
  dsimp only
  rw [if_neg (Nat.not_lt_of_le hmin), bind_congr hoperation]
  simp only [bind_assoc, pure_bind]

end

end Grammar

/-- A file is read as its statements, to the end of the text. -/
theorem parse_eq (src : Source) : parse src =
    match Grammar.statementsUntil (Grammar.top src) [] src (.ofLexemes (tokenize src)) with
    | .ok statements s =>
      (Node.ofKind .sourceFile (src.span 0 src.size) statements, s.errors)
    | .error e s => (Node.ofKind .sourceFile (src.span 0 src.size) [], s.errors ++ [e]) := rfl

end PhpCheck
