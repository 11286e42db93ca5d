import PhpCheck.Proofs.Grammar.Running

/-!
Reading a tree of binary operators.

The parentheses of a tree are where the ranks of its operators ask for them
(`InfixTree.rank_left`, `InfixTree.rank_right`).  That a tree is read is an induction over
the tree with the loop in mind: what stands on the left of an operator is not read to its end
by a production of its own, but is the left end of what the loop goes on with
(`Grammar.Climbs`), and so is what stands on its left in turn.  What stands on the right, or
in parentheses, is read one nesting level further down.
-/

namespace PhpCheck

/-! ### Trees without places -/

namespace Node

mutual

/-- A tree whose places are forgotten. -/
def unplaced (n : Node) : Node :=
  match n with
  | ⟨kind, _, field, text, children⟩ => ⟨kind, default, field, text, unplacedAll children⟩

def unplacedAll : List Node → List Node
  | [] => []
  | n :: rest => n.unplaced :: unplacedAll rest

end

variable (kind : NodeKind) (span : Span)

@[simp] theorem unplaced_inField (n : Node) (field : String) :
    (n.inField field).unplaced = n.unplaced.inField field := by
  cases n
  simp [inField, unplaced]

@[simp] theorem unplaced_leaf (text : String) :
    (leaf kind span text).unplaced = leaf kind default text := by
  simp [leaf, unplaced, unplacedAll]

@[simp] theorem unplaced_ofKind (children : List Node) :
    (ofKind kind span children).unplaced = ofKind kind default (unplacedAll children) := by
  simp [ofKind, unplaced]

end Node

/-! ### Ranks -/

namespace Precedence

theorem rank_lt (p : Precedence) : p.rank < 22 := by cases p <;> decide

theorem rank_inj {p q : Precedence} (hpq : p.rank = q.rank) : p = q := by
  have hall : ∀ p : Precedence, ofRank? p.rank = some p := by rintro ⟨⟩ <;> rfl
  exact Option.some.inj ((hall p).symm.trans ((congrArg ofRank? hpq).trans (hall q)))

/-- Above every level but the tightest is the next one. -/
theorem rank_next {p : Precedence} (hp : p ≠ .pow) : p.next.rank = p.rank + 1 := by
  cases p <;> first | rfl | exact absurd rfl hp

end Precedence

namespace InfixOperator

variable (op child : InfixOperator)

/-- How operators group is a matter of their level. -/
theorem grouping_eq_right :
    (op.grouping == .right) = (op.level == .coalesce || op.level == .pow) := by
  have hall : ∀ entry ∈ infixSymbols ++ infixKeywords, ∀ found ∈ entry.2.binary?,
      (found.2 == .right) = (found.1 == .coalesce || found.1 == .pow) := by decide
  exact hall _ op.mem_infix _ op.binary

theorem rank_rightMin :
    op.rightMin.rank = op.level.rank + (op.grouping != .right).toNat := by
  have hright := op.grouping_eq_right
  rw [rightMin, bne]
  cases hg : op.grouping == .right with
  | true => rfl
  | false =>
    rw [hg, eq_comm, Bool.or_eq_false_iff] at hright
    exact Precedence.rank_next (beq_eq_false_iff_ne.1 hright.2)

/-- Operators of one level group alike. -/
theorem grouping_congr {op child : InfixOperator} (hlevel : child.level.rank = op.level.rank) :
    (child.grouping == .right) = (op.grouping == .right) := by
  rw [grouping_eq_right, grouping_eq_right, Precedence.rank_inj hlevel]

end InfixOperator

namespace InfixTree

/-- The rank of the operator of a tree that is not in parentheses.  Where there is none, it
is above all others. -/
def rank : (enclosed : Bool) → InfixTree → Nat
  | false, node _ op _ => op.level.rank
  | _, _ => 22

/-- The rank at which the right end of a tree is read. -/
def endRank : (enclosed : Bool) → InfixTree → Nat
  | false, node _ op _ => op.rightMin.rank
  | _, _ => 22

theorem rank_le_endRank (enclosed : Bool) (T : InfixTree) :
    T.rank enclosed ≤ T.endRank enclosed := by
  cases enclosed with
  | true => exact Nat.le_refl 22
  | false =>
    cases T with
    | leaf name => exact Nat.le_refl 22
    | node left op right =>
      show op.level.rank ≤ op.rightMin.rank
      rw [op.rank_rightMin]
      exact Nat.le_add_right _ _

theorem rank_of_enclosed {enclosed : Bool} (henclosed : enclosed = true) (T : InfixTree) :
    T.rank enclosed = 22 ∧ T.endRank enclosed = 22 := by
  subst henclosed
  exact ⟨rfl, rfl⟩

/-- What stands on the left of an operator binds as tightly, and ends before the operator. -/
theorem rank_left (left : InfixTree) (op : InfixOperator) :
    op.level.rank ≤ left.rank (left.enclosedLeft op) ∧
      op.level.rank < left.endRank (left.enclosedLeft op) := by
  have hop := op.level.rank_lt
  cases henclosed : left.enclosedLeft op with
  | true =>
    obtain ⟨hrank, hend⟩ := left.rank_of_enclosed rfl
    omega
  | false =>
    cases left with
    | leaf name => exact ⟨Nat.le_of_lt hop, hop⟩
    | node _ child _ =>
      show op.level.rank ≤ child.level.rank ∧ op.level.rank < child.rightMin.rank
      simp only [enclosedLeft, Bool.or_eq_false_iff, decide_eq_false_iff_not, Nat.not_lt]
        at henclosed
      obtain ⟨hle, hsame⟩ := henclosed
      rw [child.rank_rightMin]
      refine ⟨hle, ?_⟩
      rcases Nat.eq_or_lt_of_le hle with heq | hlt
      · rw [Precedence.rank_inj heq] at hsame ⊢
        rw [beq_self_eq_true, Bool.true_and] at hsame
        rw [bne, hsame]
        exact Nat.lt_succ_self _
      · omega

/-- What stands on the right of an operator binds as tightly as is asked for there. -/
theorem rank_right (op : InfixOperator) (right : InfixTree) :
    op.rightMin.rank ≤ right.rank (right.enclosedRight op) := by
  have hop := op.rightMin.rank_lt
  cases henclosed : right.enclosedRight op with
  | true =>
    obtain ⟨hrank, -⟩ := right.rank_of_enclosed rfl
    omega
  | false =>
    cases right with
    | leaf name => exact Nat.le_of_lt hop
    | node _ child _ =>
      show op.rightMin.rank ≤ child.level.rank
      simp only [enclosedRight, Bool.or_eq_false_iff, decide_eq_false_iff_not, Nat.not_lt]
        at henclosed
      obtain ⟨hle, hsame⟩ := henclosed
      rw [op.rank_rightMin, bne]
      rcases Nat.eq_or_lt_of_le hle with heq | hlt
      · rw [Precedence.rank_inj heq, beq_self_eq_true, Bool.true_and, bne, Bool.not_eq_false']
          at hsame
        rw [← InfixOperator.grouping_congr heq.symm, hsame]
        exact Nat.le_of_eq heq
      · have := (!op.grouping == .right).toNat_le
        omega

end InfixTree

namespace Grammar

/-! ### Reading a tree -/

/-- What is read is the node, and the rest is left. -/
def Yields (node : Node) (rest : List Token) (r : EStateM.Result SyntaxError State Node) : Prop :=
  ∃ n prevEnd, r = .ok n (.before [] prevEnd rest) ∧ n.unplaced = node

/-- Reading stops within some tokens because they are nested too deeply. -/
def TooDeep {α : Type} (toks : List Token) (r : EStateM.Result SyntaxError State α) : Prop :=
  ∃ e prevEnd more, r = .error e (.before [] prevEnd more) ∧ e.fault = .nestingTooDeep maxNesting ∧
    more <:+ toks

theorem TooDeep.mono {α : Type} {toks more : List Token} {r : EStateM.Result SyntaxError State α}
    (hr : TooDeep more r) (hmore : more <:+ toks) : TooDeep toks r := by
  obtain ⟨e, prevEnd, left, hr, he, hleft⟩ := hr
  exact ⟨e, prevEnd, left, hr, he, hleft.trans hmore⟩

theorem TooDeep.bind {α β : Type} {toks : List Token} {p : Parse α} {f : α → Parse β} {src : Source}
    {s : State} (hp : TooDeep toks (p src s)) : TooDeep toks ((p >>= f) src s) := by
  obtain ⟨e, prevEnd, more, hr, he, hmore⟩ := hp
  exact ⟨e, prevEnd, more, bind_error hr, he, hmore⟩

/-- With `levels` left, an operand is read that needs `depth` of them. -/
def YieldsWithin (levels depth : Nat) (node : Node) (toks rest : List Token)
    (r : EStateM.Result SyntaxError State Node) : Prop :=
  depth ≤ levels ∧ Yields node rest r ∨ levels < depth ∧ TooDeep toks r

/-- The operand is read as the left end of what the loop goes on with. -/
def Climbs (levels depth : Nat) (node : Node) (toks rest : List Token)
    (round : Node → Parse (Round Node)) (src : Source)
    (r : EStateM.Result SyntaxError State Node) : Prop :=
  depth ≤ levels ∧ (∃ n prevEnd fuel, r = rounds round fuel n src (.before [] prevEnd rest) ∧
      n.unplaced = node ∧ rest.length ≤ fuel) ∨
    levels < depth ∧ TooDeep toks r

section

variable (code : Nat → Nat → Parse Node) (src : Source)

/-- A tree, in parentheses or not, can be read as an operand wherever the operators around
it bind less tightly. -/
def Readable (enclosed : Bool) (T : InfixTree) : Prop :=
  ∀ (levels : Nat) (min : Precedence) (prevEnd : Nat) (toks rest : List Token),
    toks.map Token.word = InfixTree.enclose enclosed T.words → Plain toks →
    min.rank ≤ T.rank enclosed → Stops (T.endRank enclosed) rest →
      Climbs levels (T.nesting + enclosed.toNat) T.toNode (toks ++ rest) rest
        (binaryRound (descend code levels) min) src
        (binary (descend code levels) min src (.before [] prevEnd (toks ++ rest)))

variable {code src} {levels prevEnd : Nat} {min : Precedence} {toks rest : List Token}
  {enclosed : Bool} {T : InfixTree}

theorem Stops.length_pos {rank : Nat} (hs : Stops rank rest) : ∃ k, rest.length = k + 1 := by
  obtain ⟨t, more, rfl, -⟩ := hs.head
  exact ⟨more.length, rfl⟩

/-- Where the loop ends, the operand is all that is read. -/
theorem Readable.reads (hT : Readable code src enclosed T) (levels prevEnd : Nat)
    (htoks : toks.map Token.word = InfixTree.enclose enclosed T.words) (hplain : Plain toks)
    (hmin : min.rank ≤ T.rank enclosed) (hrest : Stops min.rank rest) :
    YieldsWithin levels (T.nesting + enclosed.toNat) T.toNode (toks ++ rest) rest
      (binary (descend code levels) min src (.before [] prevEnd (toks ++ rest))) := by
  have hend := hrest.mono (Nat.le_trans hmin (T.rank_le_endRank enclosed))
  rcases hT levels min prevEnd toks rest htoks hplain hmin hend with
    ⟨hdepth, n, stop, fuel, hr, hn, hfuel⟩ | hdeep
  · obtain ⟨k, hk⟩ := hrest.length_pos
    obtain ⟨fuel, rfl⟩ := Nat.exists_eq_add_of_le (hk ▸ hfuel)
    refine .inl ⟨hdepth, n, stop, ?_, hn⟩
    rw [hr, Nat.add_right_comm]
    exact rounds_done (binaryRound_stops hrest)
  · exact .inr hdeep

/-- One level further down, an operand needs one level more. -/
theorem Readable.reads_below (hT : Readable code src enclosed T) (levels prevEnd : Nat)
    (min : Precedence)
    (htoks : toks.map Token.word = InfixTree.enclose enclosed T.words) (hplain : Plain toks)
    (hmin : min.rank ≤ T.rank enclosed) (hrest : Stops min.rank rest) :
    YieldsWithin levels (T.nesting + enclosed.toNat + 1) T.toNode (toks ++ rest) rest
      (descend code levels (.expression min) src (.before [] prevEnd (toks ++ rest))) := by
  cases levels with
  | zero =>
    refine .inr ⟨Nat.succ_pos _, ?_⟩
    cases toks ++ rest <;> exact ⟨_, _, _, rfl, rfl, List.suffix_refl _⟩
  | succ levels =>
    rcases hT.reads levels prevEnd htoks hplain hmin hrest with ⟨hdepth, hr⟩ | ⟨hdepth, hr⟩
    · exact .inl ⟨Nat.succ_le_succ hdepth, hr⟩
    · exact .inr ⟨Nat.succ_lt_succ hdepth, hr⟩

/-- A variable is read as it stands. -/
theorem unary_leaf {below : Below} {name : VariableName} {t : Token} {rank : Nat}
    (ht : t.word = (.variableName, "$" ++ name.text)) (hrest : Stops rank rest) :
    Yields (InfixTree.leaf name).toNode rest
      (unary below src (.before [] prevEnd (t :: rest))) := by
  obtain ⟨hkind, htext⟩ := Prod.mk.inj ht
  have hname : String.ofList (t.text.toList.dropWhile (· == '$')) = name.text := by
    have hstart := name.isName
    cases hchars : name.text.toList with
    | nil =>
      rw [hchars] at hstart
      cases hstart
    | cons head tail =>
      rw [hchars, isName, Bool.and_eq_true] at hstart
      have hne : ¬(head == '$') = true := by
        intro hbeq
        rw [beq_iff_eq.1 hbeq] at hstart
        exact absurd hstart.1 (by decide)
      have hdrop : ('$' :: head :: tail).dropWhile (· == '$') = head :: tail :=
        List.dropWhile_cons_of_neg (p := (· == '$')) hne
      rw [htext, String.toList_append, hchars]
      exact (congrArg String.ofList hdrop).trans (by rw [← hchars, String.ofList_toList])
  have hvariable : simpleVariable src (.before [] prevEnd (t :: rest)) =
      .ok (Node.leaf .variableName t.span name.text) (.before [] t.span.stop rest) := by
    rw [simpleVariable, bind_ok (expect_before hkind hrest.plain), hname]
    rfl
  have hunary : unary below src (.before [] prevEnd (t :: rest)) =
      (simpleVariable >>= postfixChain below) src (.before [] prevEnd (t :: rest)) := by
    obtain ⟨kind, span, text⟩ := t
    obtain rfl := hkind
    rfl
  refine ⟨Node.leaf .variableName t.span name.text, t.span.stop, ?_, Node.unplaced_leaf _ _ _⟩
  rw [hunary, bind_ok hvariable]
  exact postfixChain_stops hrest

/-- At a parenthesis a cast is read, if it begins one. -/
theorem unary_paren {below : Below} {s : State} {opening : Token}
    (hs : s.current = some opening) (hopen : opening.kind = .lParen) :
    unary below src s = (castHead? >>= fun found => match found with
      | some type => castExpression below type
      | none => primary below >>= postfixChain below) src s := by
  obtain ⟨current, doc, prevEnd, rest, errors⟩ := s
  obtain ⟨kind, span, text⟩ := opening
  obtain rfl := hs
  obtain rfl := hopen
  rfl

/-- No parenthesis in a tree begins a cast. -/
theorem unary_lParen {below : Below} {opening t : Token} (hopen : opening.kind = .lParen)
    (ht : t.kind ∈ infixKinds) :
    unary below src (.before [] prevEnd (opening :: t :: toks)) =
      (parenthesized below >>= postfixChain below) src
        (.before [] prevEnd (opening :: t :: toks)) := by
  have hkinds : ∀ kind ∈ infixKinds, kind.isComment = false ∧ kind ≠ .identifier ∧
      kind ≠ .kwArray := by decide
  obtain ⟨hcomment, hidentifier, harray⟩ := hkinds t.kind ht
  have hpeek : peekNth 0 src (.before [] prevEnd (opening :: t :: toks)) =
      .ok (some t) (.before [] prevEnd (opening :: t :: toks)) := by
    show EStateM.Result.ok (State.nthToken? 0 (.ok t :: toks.map .ok)) _ = _
    rw [State.nthToken?, hcomment]
    rfl
  have hcast : castHead? src (.before [] prevEnd (opening :: t :: toks)) =
      .ok none (.before [] prevEnd (opening :: t :: toks)) := by
    rw [castHead?, bind_ok hpeek]
    dsimp only
    rw [beq_false_of_ne hidentifier, beq_false_of_ne harray]
    rfl
  rw [unary_paren rfl hopen, bind_ok hcast]
  obtain ⟨kind, span, text⟩ := opening
  obtain rfl := hopen
  rfl

/-- What stands in parentheses is read one level further down. -/
theorem unary_enclosed (hT : Readable code src false T) (levels prevEnd : Nat)
    {opening closing : Token} {rank : Nat}
    (hopening : opening.word = (.lParen, "(")) (hclosing : closing.word = (.rParen, ")"))
    (htoks : toks.map Token.word = T.words) (hplain : Plain toks) (hrest : Stops rank rest) :
    YieldsWithin levels (T.nesting + 1) T.toNode (opening :: (toks ++ closing :: rest)) rest
      (unary (descend code levels) src
        (.before [] prevEnd (opening :: (toks ++ closing :: rest)))) := by
  obtain ⟨hopen, -⟩ := Prod.mk.inj hopening
  obtain ⟨hclose, -⟩ := Prod.mk.inj hclosing
  have hstops : Stops Precedence.lowest.rank (closing :: rest) := stops_rParen hclose hrest.plain
  have hall : Plain (toks ++ closing :: rest) := fun t ht =>
    (List.mem_append.1 ht).elim (hplain t) (hstops.plain t)
  have hunary : unary (descend code levels) src
        (.before [] prevEnd (opening :: (toks ++ closing :: rest))) =
      (parenthesized (descend code levels) >>= postfixChain (descend code levels)) src
        (.before [] prevEnd (opening :: (toks ++ closing :: rest))) := by
    obtain ⟨t, more, hmore⟩ := List.exists_cons_of_ne_nil
      (List.append_ne_nil_of_right_ne_nil toks (List.cons_ne_nil closing rest))
    rw [hmore] at hall ⊢
    exact unary_lParen hopen (hall t List.mem_cons_self)
  have hparen : parenthesized (descend code levels) src
        (.before [] prevEnd (opening :: (toks ++ closing :: rest))) =
      (descend code levels (.expression .lowest) >>= fun value =>
        discard (expect .rParen "')'") >>= fun _ => pure value) src
          (.before [] opening.span.stop (toks ++ closing :: rest)) := by
    rw [parenthesized]
    exact bind_ok (discard_ok (expect_before hopen hall))
  rw [hunary]
  rcases hT.reads_below levels opening.span.stop .lowest htoks hplain
    (Nat.zero_le _) hstops with ⟨hdepth, n, stop, hr, hn⟩ | ⟨hdepth, hr⟩
  · refine .inl ⟨hdepth, n, closing.span.stop, ?_, hn⟩
    have hvalue : parenthesized (descend code levels) src
          (.before [] prevEnd (opening :: (toks ++ closing :: rest))) =
        .ok n (.before [] closing.span.stop rest) := by
      rw [hparen, bind_ok hr, bind_ok (discard_ok (expect_before hclose hrest.plain))]
      rfl
    rw [bind_ok hvalue]
    exact postfixChain_stops hrest
  · refine .inr ⟨hdepth, TooDeep.bind ?_⟩
    rw [hparen]
    exact (hr.bind).mono (List.suffix_cons _ _)

/-- What is read before the loop begins is its left end. -/
theorem YieldsWithin.climbs {depth rank : Nat} {node : Node} (min : Precedence)
    (hr : YieldsWithin levels depth node toks rest
      (unary (descend code levels) src (.before [] prevEnd toks))) (hrest : Stops rank rest) :
    Climbs levels depth node toks rest (binaryRound (descend code levels) min) src
      (binary (descend code levels) min src (.before [] prevEnd toks)) := by
  rw [binary_eq]
  rcases hr with ⟨hdepth, n, stop, hr, hn⟩ | ⟨hdepth, hr⟩
  · refine .inl ⟨hdepth, n, stop, _, (bind_ok hr).trans repeated_eq, hn, ?_⟩
    obtain ⟨t, more, rfl, -⟩ := hrest.head
    show (more.length + 1) ≤ (more.map Except.ok).length + 2
    rw [List.length_map]
    exact Nat.le_succ _
  · exact .inr ⟨hdepth, hr.bind⟩

theorem readable_leaf (name : VariableName) : Readable code src false (.leaf name) := by
  intro levels min prevEnd toks rest htoks _ _ hrest
  obtain ⟨t, rfl, ht⟩ := List.map_eq_singleton_iff.1 htoks
  exact YieldsWithin.climbs min (.inl ⟨Nat.zero_le _, unary_leaf ht hrest⟩) hrest

theorem Readable.inParens (hT : Readable code src false T) : Readable code src true T := by
  intro levels min prevEnd toks rest htoks hplain _ hrest
  obtain ⟨opening, inner, rfl, hopening, hinner⟩ := List.map_eq_cons_iff.1 htoks
  obtain ⟨body, closings, rfl, hbody, hclosings⟩ := List.map_eq_append_iff.1 hinner
  obtain ⟨closing, rfl, hclosing⟩ := List.map_eq_singleton_iff.1 hclosings
  have hread := unary_enclosed hT levels prevEnd hopening hclosing hbody
    (fun t ht => hplain t (by simp [ht])) hrest
  simpa using hread.climbs min hrest

theorem Readable.operand (hT : Readable code src false T) : Readable code src enclosed T := by
  cases enclosed with
  | false => exact hT
  | true => exact hT.inParens

/-- An operator is read with what stands on both sides of it. -/
theorem readable_node {left right : InfixTree} (op : InfixOperator)
    (hl : Readable code src (left.enclosedLeft op) left)
    (hr : Readable code src (right.enclosedRight op) right) :
    Readable code src false (.node left op right) := by
  intro levels min prevEnd toks rest htoks hplain hmin hrest
  obtain ⟨ltoks, others, rfl, hltoks, hothers⟩ := List.map_eq_append_iff.1 htoks
  obtain ⟨t, rtoks, rfl, ht, hrtoks⟩ := List.map_eq_cons_iff.1 hothers
  obtain ⟨hlrank, hlend⟩ := left.rank_left op
  have hrrank := right.rank_right op
  obtain ⟨hltoks', hplain⟩ := List.forall_mem_append.1 hplain
  obtain ⟨-, hrtoks'⟩ := List.forall_mem_cons.1 hplain
  have hall : Plain (rtoks ++ rest) := List.forall_mem_append.2 ⟨hrtoks', hrest.plain⟩
  have hstops : Stops (left.endRank (left.enclosedLeft op)) (t :: (rtoks ++ rest)) :=
    stops_operator (Prod.mk.inj ht).1 hlend hall
  have hassoc : ltoks ++ t :: rtoks ++ rest = ltoks ++ t :: (rtoks ++ rest) := by simp
  rw [hassoc]
  show Climbs levels (max _ _ + 0) _ _ _ _ _ _
  rcases hl levels min prevEnd ltoks (t :: (rtoks ++ rest)) hltoks hltoks'
    (Nat.le_trans hmin hlrank) hstops with
    ⟨hldepth, n, stop, fuel, hrun, hn, hfuel⟩ | ⟨hldepth, hrun⟩
  · rw [hrun]
    obtain ⟨fuel, rfl⟩ : ∃ k, fuel = k + 1 := Nat.exists_eq_succ_of_ne_zero (by
      rintro rfl
      cases hfuel)
    have hround := binaryRound_operator (descend code levels) src stop n ht hmin hall
    rcases hr.reads_below levels t.span.stop _ hrtoks hrtoks' hrrank hrest with
      ⟨hrdepth, m, stop', hread, hm⟩ | ⟨hrdepth, hread⟩
    · rw [bind_ok hread] at hround
      refine .inl ⟨by omega, _, stop', fuel, rounds_more hround, ?_, ?_⟩
      · simp [InfixTree.toNode, Node.unplacedAll, hn, hm]
      · rw [List.length_cons, List.length_append] at hfuel
        omega
    · obtain ⟨e, stop', more, hread, he, hmore⟩ := hread
      rw [bind_error hread] at hround
      exact .inr ⟨by omega, e, stop', more, rounds_error hround, he,
        hmore.trans ((List.suffix_cons _ _).trans (List.suffix_append _ _))⟩
  · exact .inr ⟨by omega, hrun⟩

/-- Every tree can be read. -/
theorem readable (T : InfixTree) : Readable code src false T := by
  induction T with
  | leaf name => exact readable_leaf name
  | node left op right ihl ihr => exact readable_node op ihl.operand ihr.operand

end

end Grammar

end PhpCheck
