import PhpCheck.Proofs.Grammar.Control
import PhpCheck.Proofs.Grammar.Words

/-!
Control structures with a body in braces.

Where the span of the body goes from a brace behind a parenthesis to the end of the text, the
structure is read up to that parenthesis, then the brace, and then statements up to the last brace
(`Control.exists_enclosed`).
-/

namespace PhpCheck.Grammar

/-! ### The order of the tokens -/

section

variable {src : Source} {toks l xs ys : List Token} {t x y : Token} {s : State}

theorem significant_sublist (toks : List Token) : (significant (toks.map .ok)).Sublist toks := by
  induction toks with
  | nil => exact .slnil
  | cons t toks ih =>
    rw [List.map_cons, significant]
    split
    · exact ih.cons t
    · exact ih.cons_cons t

/-- The tokens from one of them on. -/
theorem suffix_of_tokens (front : List Token) {back : List Token}
    (hall : tokenize src = (front ++ back).map .ok) :
    significant (back.map .ok) <:+ significant (tokenize src) := by
  rw [hall, List.map_append, significant_append]
  exact List.suffix_append _ _

theorem mem_of_pending (hall : tokenize src = toks.map .ok)
    (hs : s.pending <:+ significant (tokenize src))
    (ht : s.current = some t) : t ∈ toks := by
  rw [State.pending_of_current ht, hall] at hs
  exact (significant_sublist toks).subset (hs.subset List.mem_cons_self)

/-- The tokens stand one behind another within the text. -/
structure InOrder (src : Source) (l : List Token) : Prop where
  increasing : l.Pairwise fun t u => t.span.stop ≤ u.span.start
  stands : ∀ t ∈ l, t.span.start < t.span.stop ∧ t.span.stop ≤ src.size

theorem inOrder_of_tokenize {chars : List Char} (hall : tokenize (.ofChars chars) = toks.map .ok) :
    InOrder (.ofChars chars) toks := by
  have htiles : Tiles (.ofChars chars) .markup (Scanner.ofSource (.ofChars chars)).cursor toks :=
    Scanner.takeUpTo_tiles hall (Nat.le_refl _)
  refine ⟨htiles.increasing, fun t ht => ?_⟩
  have hstands := htiles.stands ⟨[], rfl, rfl⟩ t ht
  refine ⟨hstands.start_lt, ?_⟩
  rw [hstands.stop_eq]
  exact hstands.hasAt.isPlace_stop.le_size

theorem InOrder.significant (h : InOrder src toks) (hall : tokenize src = toks.map .ok) :
    InOrder src (significant (tokenize src)) := by
  rw [hall]
  have hsublist := significant_sublist toks
  exact ⟨h.increasing.sublist hsublist, fun t ht => h.stands t (hsublist.subset ht)⟩

/-- Where a token begins tells which one it is. -/
theorem InOrder.suffix_unique (hl : InOrder src l) (hx : x :: xs <:+ l) (hy : y :: ys <:+ l)
    (h : x.span.start = y.span.start) : x :: xs = y :: ys := by
  have hlater : ∀ {x y : Token} {xs ys : List Token}, y :: ys <:+ l → x.span.start = y.span.start →
      x :: xs <:+ y :: ys → x :: xs = y :: ys := by
    intro x y xs ys hy h hsuffix
    rcases List.suffix_cons_iff.1 hsuffix with heq | hsuffix
    · exact heq
    · have hmem : x ∈ ys := hsuffix.subset List.mem_cons_self
      have hle := (List.pairwise_cons.1 (hl.increasing.sublist hy.sublist)).1 x hmem
      have hlt := (hl.stands y (hy.subset List.mem_cons_self)).1
      omega
  rcases List.suffix_or_suffix_of_suffix hx hy with hsuffix | hsuffix
  · exact hlater hy h hsuffix
  · exact (hlater hx h.symm hsuffix).symm

theorem InOrder.eq_of_start (hl : InOrder src l) (hx : x ∈ l) (hy : y ∈ l)
    (h : x.span.start = y.span.start) : x = y := by
  obtain ⟨front, xs, hxs⟩ := List.append_of_mem hx
  obtain ⟨front', ys, hys⟩ := List.append_of_mem hy
  exact (List.cons.inj (hl.suffix_unique ⟨front, hxs.symm⟩ ⟨front', hys.symm⟩ h)).1

/-- Nothing stands behind a token with which the text ends. -/
theorem InOrder.nil_of_stop (hl : InOrder src l) (hx : x :: xs <:+ l) (h : x.span.stop = src.size) :
    xs = [] := by
  cases xs with
  | nil => rfl
  | cons y xs =>
    have hle := (List.pairwise_cons.1 (hl.increasing.sublist hx.sublist)).1 y List.mem_cons_self
    have hy := hl.stands y (hx.subset (by simp))
    omega

end

/-! ### Whole texts without faults -/

section

variable {src : Source} {s' : State} {nodes : List Node}

/-- Where no fault is found in a text, all of it is a sequence of statements. -/
theorem listed_of_parse (herrors : (parse src).2 = []) :
    ∃ (toks : List Token) (s' : State), tokenize src = toks.map .ok ∧ s'.errors = [] ∧
      Listed (top src) [] src (.ofLexemes (tokenize src)) (parse src).1.children s' := by
  have hstands : (State.ofLexemes (tokenize src)).Stands (.unknown src) := stands_ofLexemes _
  have hbelow : (top src).Reads (.unknown src) := descend_unknown _ _
  rw [parse] at herrors ⊢
  cases hr : statementsUntil (top src) [] src (.ofLexemes (tokenize src)) with
  | ok nodes s' =>
    rw [hr] at herrors
    have hlisted := listed_of_statementsUntil hbelow hstands hr herrors
    obtain ⟨toks, htoks⟩ :=
      exists_toks (hlisted.step hbelow hstands) hlisted.current_none herrors rfl
    exact ⟨toks, s', htoks, herrors, hlisted⟩
  | error e s' =>
    rw [hr] at herrors
    exact absurd (List.append_eq_nil_iff.1 herrors).2 (List.cons_ne_nil _ _)

theorem Listed.parse (h : Listed (top src) [] src (.ofLexemes (tokenize src)) nodes s')
    (herrors : s'.errors = []) :
    parse src = (Node.ofKind .sourceFile (src.span 0 src.size) nodes, []) := by
  have hstands : (State.ofLexemes (tokenize src)).Stands (.unknown src) := stands_ofLexemes _
  have hbelow : (top src).Reads (.unknown src) := descend_unknown _ _
  rw [PhpCheck.parse, h.statementsUntil hbelow hstands]
  exact congrArg (Prod.mk _) herrors

end

/-! ### Blocks -/

section

variable {below below' : Below} {src : Source} {s s₁ s' : State} {b : Node} {t : Token}

theorem statementAsBlock_starts (hbelow : Starts (below .statement)) :
    Starts (statementAsBlock below) := by
  intro src s n s' hr
  obtain ⟨body, s₁, hbody, hr⟩ := exists_of_bind hr
  rw [← hbelow _ _ _ _ hbody]
  split at hr
  all_goals
    obtain ⟨rfl, -⟩ := EStateM.Result.ok.inj hr
    rfl

theorem exists_of_discard {α : Type} {p : Parse α} (hr : discard p src s = .ok () s') :
    ∃ a, p src s = .ok a s' := by
  cases hp : p src s with
  | ok a s₁ =>
    rw [discard_ok hp] at hr
    obtain ⟨-, rfl⟩ := EStateM.Result.ok.inj hr
    exact ⟨a, rfl⟩
  | error e s₁ =>
    have herror : discard p src s = .error e s₁ := by
      show EStateM.map _ (p src) s = _
      rw [EStateM.map, hp]
    rw [herror] at hr
    cases hr

theorem prevEnd_settle {prevEnd : Nat} {doc : Option Token} {errors : List SyntaxError}
    {lexemes : List Lexeme} : (State.settle prevEnd doc errors lexemes).prevEnd = prevEnd := by
  fun_induction State.settle prevEnd doc errors lexemes <;> trivial

theorem current_settle {prevEnd : Nat} {doc : Option Token} {errors : List SyntaxError}
    {lexemes : List Lexeme} :
    (State.settle prevEnd doc errors lexemes).current = (significant lexemes).head? := by
  fun_induction State.settle prevEnd doc errors lexemes with
  | case1 => rfl
  | case2 doc errors e rest ih => exact ih
  | case3 doc errors tok rest hline ih => rw [ih, significant, TokenKind.isComment, hline]; rfl
  | case4 doc errors tok rest hline hdoc ih => rw [ih, significant, TokenKind.isComment, hdoc]; rfl
  | case5 doc errors tok rest hline hdoc =>
    rw [significant, TokenKind.isComment, beq_false_of_ne hline, beq_false_of_ne hdoc]
    rfl

/-- What is read of a block. -/
theorem braceBlock_ok (hr : braceBlock below src s = .ok b s') :
    ∃ nodes s₁ t, statementsUntil below [.rBrace] src s.advance = .ok nodes s₁ ∧
      s₁.current = some t ∧
      t.kind = .rBrace ∧ s' = s₁.advance ∧ b.kind = .block ∧
        b.span.stop = max t.span.stop (s.start src) ∧
      unplaced b = Node.ofKind .block default (unplaced nodes) := by
  obtain ⟨brace, s₁, hopen, hr⟩ := exists_of_bind hr
  obtain ⟨hbrace, -, rfl⟩ := expect_ok hopen
  obtain ⟨nodes, s₂, hnodes, hr⟩ := exists_of_bind hr
  obtain ⟨_, s₃, hclose, hn⟩ := exists_of_bind hr
  obtain ⟨last, hclose⟩ := exists_of_discard hclose
  obtain ⟨hlast, hk, rfl⟩ := expect_ok hclose
  obtain ⟨rfl, rfl⟩ := Control.nodeFrom_ok hn
  refine ⟨nodes, s₂, last, hnodes, hlast, hk, rfl, rfl, ?_, by simp⟩
  have hend : s₂.advance.prevEnd = last.span.stop := by
    rw [State.advance, prevEnd_settle, hlast]
    rfl
  have hstart : s.start src = brace.span.start := by
    rw [State.start, hbrace]
    rfl
  rw [hend, hstart]
  rfl

/-- A block is a body as it stands. -/
theorem braceBlock_of_statementAsBlock (hbelow : below .statement = statement below')
    (ht : s.current = some t) (hk : t.kind = .lBrace)
    (hr : statementAsBlock below src s = .ok b s') :
    braceBlock below' src s = .ok b s' := by
  obtain ⟨body, s₁, hbody, hr⟩ := exists_of_bind hr
  have heq : statement below' src s = braceBlock below' src s := by
    rw [statement, bind_ok (kind?_eq src s), ht, Option.map_some, hk]
  rw [hbelow, heq] at hbody
  obtain ⟨-, -, -, -, -, -, -, hkind, -, -⟩ := braceBlock_ok hbody
  rw [if_pos (beq_iff_eq.2 hkind)] at hr
  obtain ⟨rfl, rfl⟩ := EStateM.Result.ok.inj hr
  exact hbody

end

namespace Control

/-! ### The first tokens -/

section

variable (c : Control)

theorem lexes_opening (rest : List Char) : Lexes c.opening c.word.toList (' ' :: rest) :=
  lexes_keyword (by cases c <;> decide +kernel) rfl (by cases c <;> decide +kernel)
    (by cases c <;> nofun)

theorem opening_plain : c.opening.isComment = false ∧ c.opening ∉ tags := by cases c <;> decide

/-- A text that begins with a control structure. -/
theorem first_tokens (src : Source) (rest : List Char)
    (hsrc : src.chars = "<?php ".toList ++ (c.word.toList ++ ' ' :: rest)) :
    ∃ tag opening : Token, (State.ofLexemes (tokenize src)).current = some tag ∧ tag.kind ∈ tags ∧
      (State.ofLexemes (tokenize src)).advance.current = some opening ∧
        opening.kind = c.opening := by
  have hchars : src.chars = '<' :: '?' :: 'p' :: 'h' :: 'p' ::
    ([' '] ++ (c.word.toList ++ ' ' :: rest)) := hsrc
  obtain ⟨tag, ⟨o, _⟩, hnext, htag, rfl⟩ := Scanner.next_openTag hchars
  have hspace : ∀ x ∈ [' '], isBlank x = true := by simp [isBlank]
  have hblank := Scanner.all_of_blank src o (c.word.toList ++ ' ' :: rest) hspace
  obtain ⟨opening, hopening, -, -, -, hfirst⟩ := (c.lexes_opening rest).all src (o + byteSize [' '])
  have htagKind : tag.kind = .openTag := congrArg Prod.fst htag
  have hcode : tag.kind.isComment = false := by rw [htagKind]; rfl
  have hcode' : opening.kind.isComment = false := hopening ▸ c.opening_plain.1
  refine ⟨tag, opening, ?_, by rw [htagKind]; decide, ?_, hopening⟩
  all_goals rw [tokenize, Scanner.all_of_next_some hnext, hblank, hfirst, State.ofLexemes,
    settle_cons hcode]
  rw [State.advance, settle_cons hcode']

end

/-! ### A body in braces -/

/-- A text that ends with a parenthesis and a body in braces. -/
def bracedChars (before inner : List Char) : List Char :=
  before ++ ')' :: ' ' :: '\x7b' :: (inner ++ ['\n', '\x7d'])

section

variable {c : Control} {code : Nat → Nat → Parse Node} {depth : Nat} {src : Source}
  {before inner : List Char} {toks : List Token} {s s' : State} {n b : Node} {t : Token}

theorem size_bracedChars (hsrc : src = .ofChars (bracedChars before inner)) :
    src.size = byteSize before + byteSize inner + 5 := by
  have hwhole : src.size =
      byteSize before + (byteSize [')', ' ', '\x7b'] +
        (byteSize inner + byteSize ['\n', '\x7d'])) := by
    rw [← byteSize_append, ← byteSize_append, ← byteSize_append, hsrc]
    rfl
  have hparts : byteSize [')', ' ', '\x7b'] = 3 ∧ byteSize ['\n', '\x7d'] = 2 := ⟨rfl, rfl⟩
  omega

theorem inOrder_bracedChars (hsrc : src = .ofChars (bracedChars before inner))
    (hall : tokenize src = toks.map .ok) : InOrder src (significant (tokenize src)) := by
  subst hsrc
  exact (inOrder_of_tokenize hall).significant hall

/-- In front of a token that begins with the brace stands the parenthesis, and behind it stand the
tokens of the body. -/
theorem tokens_at_brace (hsrc : src = .ofChars (bracedChars before inner))
    (hall : tokenize src = toks.map .ok) (ht : t ∈ toks)
    (hstart : t.span.start = byteSize before + 2) :
    ∃ (paren : Token) (us : List Token), paren.kind = .rParen ∧ t.kind = .lBrace ∧
      (Scanner.mk .code { offset := byteSize before + 3, rest := inner ++ ['\n', '\x7d'] }).all
        src =
        us.map .ok ∧
      paren :: t :: significant (us.map .ok) <:+ significant (tokenize src) := by
  subst hsrc
  obtain ⟨ts, -, us, paren, -, brace, -, hparen, hbrace, hbraceStart, -, rfl, hus, -⟩ :=
    Scanner.split_head (.ofChars (before ++ [')'])) hall rfl rfl ht hstart
  obtain rfl : t = brace :=
    (inOrder_of_tokenize hall).eq_of_start ht (by simp) (hstart.trans hbraceStart.symm)
  have hcode : significant ((paren :: t :: us).map .ok) =
    paren :: t :: significant (us.map .ok) := by
    rw [significant_cons (by rw [hparen]; rfl), significant_cons (by rw [hbrace]; rfl)]
  refine ⟨paren, us, hparen, hbrace, hus, ?_⟩
  rw [← hcode]
  exact suffix_of_tokens ts (by rw [hall, List.append_assoc]; rfl)

/-- A state in front of the brace. -/
theorem current_brace (hsrc : src = .ofChars (bracedChars before inner))
    (hall : tokenize src = toks.map .ok) (hs : s.pending <:+ significant (tokenize src))
    (hstart : s.start src = byteSize before + 2) :
    ∃ brace ∈ toks, s.current = some brace ∧ brace.span.start = byteSize before + 2 := by
  cases ht : s.current with
  | none =>
    rw [State.start, ht, Option.map_none, Option.getD_none, size_bracedChars hsrc] at hstart
    omega
  | some t =>
    rw [State.start, ht] at hstart
    exact ⟨t, mem_of_pending hall hs ht, rfl, hstart⟩

/-- How a structure is read whose body stands in braces from a place on to the end of the text: its
head up to the state `middle`, then its body up to the state `final` in front of the last brace. -/
structure Enclosed (c : Control) (code : Nat → Nat → Parse Node) (depth : Nat) (src : Source)
    (start : Nat) (s : State) (n : Node) where
  found : Nat × List Node
  middle : State
  final : State
  brace : Token
  last : Token
  nodes : List Node
  head : c.head (descend code (depth + 2)) src s = .ok found middle
  body : Listed (descend code (depth + 1)) [.rBrace] src middle.advance nodes final
  middle_errors : middle.errors = []
  middle_pending : middle.pending <:+ significant (tokenize src)
  middle_current : middle.current = some brace
  brace_start : brace.span.start = start
  final_errors : final.errors = []
  final_pending : final.pending = [last]
  last_suffix : [last] <:+ significant (tokenize src)
  last_kind : last.kind = .rBrace
  last_stop : last.span.stop = src.size
  node : unplaced n = Node.ofKind c.kind default
    (unplaced found.2 ++ [(Node.ofKind .block default (unplaced nodes)).inField "body"])

/-- No body begins behind a colon and with the brace. -/
theorem not_behind_colon (hsrc : src = .ofChars (bracedChars before inner))
    (hall : tokenize src = toks.map .ok) (hs : s.pending <:+ significant (tokenize src))
    (ht : s.current = some t) (hk : t.kind = .colon) :
    s.advance.start src ≠ byteSize before + 2 := by
  intro hstart
  have hadvance : s.pending = t :: s.advance.pending := by
    rw [pending_advance, ht]
    rfl
  have hs' : s.advance.pending <:+ significant (tokenize src) :=
    (hadvance ▸ List.suffix_cons t _).trans hs
  obtain ⟨brace, hmem, hbrace, hbraceStart⟩ := current_brace hsrc hall hs' hstart
  obtain ⟨paren, us, hparen, -, -, hsuffix⟩ := tokens_at_brace hsrc hall hmem hbraceStart
  have hpending := State.pending_of_current hbrace
  -- The token in front of the brace is the parenthesis.
  have heq := (inOrder_bracedChars hsrc hall).suffix_unique (hpending ▸ hs')
    ((List.suffix_cons _ _).trans hsuffix) rfl
  rw [hadvance, hpending, heq] at hs
  have hsame := (List.suffix_of_suffix_length_le hs hsuffix (Nat.le_refl _)).eq_of_length rfl
  rw [(List.cons.inj hsame).1, hparen] at hk
  cases hk

/-- The structure whose body is the text from the brace on is read that way. -/
theorem exists_enclosed (hsrc : src = .ofChars (bracedChars before inner))
    (hall : tokenize src = toks.map .ok)
    (hreads : ∀ depth, (descend code depth).Reads (.unknown src))
    (hs : s.Stands (.unknown src)) (hpending : s.pending <:+ significant (tokenize src))
    (ht : s.current = some t) (hk : t.kind = c.opening)
    (hn : descend code (depth + 3) .statement src s = .ok n s') (herrors : s'.errors = [])
    (hb : n.childBy? "body" = some b) (hstart : b.span.start = byteSize before + 2)
    (hstop : b.span.stop = src.size) :
    Nonempty (c.Enclosed code depth src (byteSize before + 2) s n) := by
  have hstatement : statement (descend code (depth + 2)) src s = .ok n s' := hn
  rw [c.statement_eq ht hk, production_eq] at hstatement
  obtain ⟨found, middle, hhead, hrest⟩ := exists_of_bind hstatement
  have hmiddle : Step (.unknown src) s middle := by
    have hheadReads : Reads (.unknown src) false true 0 (c.head (descend code (depth + 2))) :=
      head_reads (hreads _) c
    have hmoves := hheadReads.moves hs
    rwa [hhead] at hmoves
  have hmiddlePending := hmiddle.pending.trans hpending
  rcases encloses_of_rest hrest (head_fields c _ _ _ _ hhead) hb with
    ⟨colon, hcolon, hcolonKind, hbStart⟩ | ⟨body, s₁, hbody, rfl, hends⟩
  · exact absurd (hbStart.symm.trans hstart)
      (not_behind_colon hsrc hall hmiddlePending hcolon hcolonKind)
  have hmiddleStart : middle.start src = byteSize before + 2 :=
    (statementAsBlock_starts statement_starts _ _ _ _ hbody).symm.trans hstart
  obtain ⟨brace, hmem, hcurrent, hbraceStart⟩ := current_brace hsrc hall hmiddlePending hmiddleStart
  obtain ⟨-, -, -, hbrace, -, -⟩ := tokens_at_brace hsrc hall hmem hbraceStart
  have hblock := braceBlock_of_statementAsBlock rfl hcurrent hbrace hbody
  obtain ⟨nodes, final, last, hnodes, hlast, hlastKind, rfl, -, hbodyStop, hbodyNode⟩ :=
    braceBlock_ok hblock
  have hadvance : Step (.unknown src) middle middle.advance := .advance hmiddle.stands
  have hfinal : Step (.unknown src) middle.advance final := by
    have hstatements : Reads (.unknown src) false false 0
        (statementsUntil (descend code (depth + 1)) [.rBrace]) := statementsUntil_reads (hreads _) _
    have hmoves := hstatements.moves hadvance.stands
    rwa [hnodes] at hmoves
  have hfinalPending := hfinal.pending.trans (hadvance.pending.trans hmiddlePending)
  have hlastStop : last.span.stop = src.size := by
    have hsize := size_bracedChars hsrc
    have hbodyStop' : src.size = max last.span.stop (middle.start src) := hstop.symm.trans hbodyStop
    rw [hmiddleStart] at hbodyStop'
    omega
  have hafter : significant final.rest = [] :=
    (inOrder_bracedChars hsrc hall).nil_of_stop (State.pending_of_current hlast ▸ hfinalPending)
      hlastStop
  have hunbranched : Unbranched final.advance := by
    intro u hu
    rw [State.advance, current_settle, hafter] at hu
    cases hu
  obtain ⟨rfl, hnode⟩ := hends hunbranched
  have hfinalErrors := (Step.advance hfinal.stands).errors_nil herrors
  have hlisted := listed_of_statementsUntil (hreads _) hadvance.stands hnodes hfinalErrors
  have hfinalEq : final.pending = [last] := by rw [State.pending_of_current hlast, hafter]
  rw [hfinalEq] at hfinalPending
  exact ⟨⟨found, middle, final, brace, last, nodes, hhead, hlisted,
    (hadvance.trans hfinal).errors_nil hfinalErrors, hmiddlePending, hcurrent, hbraceStart,
      hfinalErrors,
    hfinalEq, hfinalPending, hlastKind, hlastStop, hbodyNode ▸ hnode⟩⟩

theorem Enclosed.last_mem {start : Nat} (E : c.Enclosed code depth src start s n)
    (hall : tokenize src = toks.map .ok) : E.last ∈ toks := by
  have hsuffix := E.last_suffix
  rw [hall] at hsuffix
  exact (significant_sublist toks).subset (hsuffix.subset List.mem_cons_self)

/-- The body does not begin with a colon, for no statement does. -/
theorem Enclosed.head?_ne_colon (E : c.Enclosed code depth src (byteSize before + 2) s n)
    (hsrc : src = .ofChars (bracedChars before inner)) (hall : tokenize src = toks.map .ok) :
    inner.head? ≠ some ':' := by
  intro hhead
  obtain ⟨more, rfl⟩ : ∃ more, inner = ':' :: more := ⟨_, List.eq_cons_of_mem_head? hhead⟩
  obtain ⟨kind, text, rest, htext, hlexes, hkind⟩ : ∃ kind text rest,
      ':' :: (more ++ ['\n', '\x7d']) = text ++ rest ∧
      Lexes kind text rest ∧ kind ∈ unopened ∧ kind ∉ [TokenKind.rBrace] := by
    by_cases hcolon : (more ++ ['\n', '\x7d']).head? = some ':'
    · obtain ⟨rest, hrest⟩ : ∃ rest, more ++ ['\n', '\x7d'] = ':' :: rest :=
        ⟨_, List.eq_cons_of_mem_head? hcolon⟩
      exact ⟨.doubleColon, [':', ':'], rest,
        by rw [hrest]; rfl, lexes_symbol rfl rfl rfl rfl nofun, by decide, by decide⟩
    · exact ⟨.colon, [':'], _, rfl, lexes_colon hcolon, by decide, by decide⟩
  obtain ⟨_, us, -, -, hus, hsuffix⟩ :=
    tokens_at_brace hsrc hall (mem_of_pending hall E.middle_pending E.middle_current) E.brace_start
  obtain ⟨colon, rfl, -, -, -, hfirst⟩ := hlexes.all src (byteSize before + 3)
  rw [← htext] at hfirst
  obtain ⟨u, us, rfl, hu, -⟩ := List.map_eq_cons_iff.1 (hus.symm.trans hfirst)
  obtain rfl := Except.ok.inj hu
  have hcode : u.kind.isComment = false := by
    have hplain : ∀ k ∈ unopened, k.isComment = false := by decide
    exact hplain _ hkind.1
  have hpending := State.pending_of_current E.middle_current
  have heq := (inOrder_bracedChars hsrc hall).suffix_unique (hpending ▸ E.middle_pending)
    ((List.suffix_cons _ _).trans hsuffix) rfl
  have hcurrent : E.middle.advance.current = some u := by
    rw [State.advance, current_settle, (List.cons.inj heq).2, significant_cons hcode]
    rfl
  exact not_listed hcurrent hkind.1 hkind.2 E.body

end

end Control

end PhpCheck.Grammar
