import PhpCheck.Proofs.Grammar.Enclosed

/-!
Control structures in both forms.

A structure whose body stands in braces, and the same with the body between a colon and a
keyword, have the same tokens in their heads and in their bodies (`Control.Forms`).  So what is read
of the one is read of the other (`Control.parse_withColon`).
-/

namespace PhpCheck.Grammar.Control

/-! ### The tokens of both texts -/

/-- The text with the body between a colon and the keyword. -/
def colonChars (c : Control) (before inner : List Char) : List Char :=
  before ++ ')' :: ':' :: (inner ++ '\n' :: (("end" ++ c.word).toList ++ [';']))

/-- The tokens of both texts, which are the same up to the parenthesis and then in the body. -/
structure Forms (c : Control) (before inner : List Char) where
  (head₁ head₂ body₁ body₂ : List Token)
  (paren brace colon last keyword semicolon : Token)
  head_alike : List.Forall₂ (Token.Alike (before ++ [')']) 0 0) (head₁ ++ [paren]) head₂
  body_alike : List.Forall₂ (Token.Alike inner (byteSize before + 3) (byteSize before + 2))
    body₁ body₂
  paren_kind : paren.kind = .rParen
  brace_kind : brace.kind = .lBrace
  brace_start : brace.span.start = byteSize before + 2
  brace_stop : brace.span.stop = byteSize before + 3
  colon_kind : colon.kind = .colon
  colon_stop : colon.span.stop = byteSize before + 2
  last_kind : last.kind = .rBrace
  keyword_kind : keyword.kind = c.closing
  semicolon_kind : semicolon.kind = .semicolon
  all₁ : tokenize (.ofChars (bracedChars before inner)) =
    (head₁ ++ [paren] ++ brace :: (body₁ ++ [last])).map .ok
  all₂ : tokenize (.ofChars (c.colonChars before inner)) =
    (head₂ ++ colon :: (body₂ ++ [keyword, semicolon])).map .ok

section

variable {c : Control} {before inner : List Char} {toks : List Token} {brace last : Token}

theorem lexes_closing (c : Control) (rest : List Char) :
    Lexes c.closing ("end" ++ c.word).toList (';' :: rest) :=
  lexes_keyword (by cases c <;> decide +kernel) rfl (by cases c <;> decide +kernel)
    (by cases c <;> nofun)

theorem closing_plain (c : Control) :
    c.closing.isComment = false ∧ c.closing ≠ .closeTag ∧ c.closing ∉ continuing := by
  cases c <;> decide

/-- The keyword and the semicolon behind the body. -/
theorem tokens_closing (c : Control) (src : Source) (o : Nat) :
    ∃ keyword semicolon : Token, keyword.kind = c.closing ∧ semicolon.kind = .semicolon ∧
      (Scanner.mk .code { offset := o, rest := ("end" ++ c.word).toList ++ [';'] }).all src =
        [keyword, semicolon].map .ok := by
  obtain ⟨keyword, hkeyword, -, -, -, hkeywordAll⟩ := (c.lexes_closing []).all src o
  obtain ⟨semicolon, hsemicolon, -, -, -, hsemicolonAll⟩ :=
    (lexes_semicolon []).all src (o + byteSize ("end" ++ c.word).toList)
  exact ⟨keyword, semicolon, hkeyword, hsemicolon,
    hkeywordAll.trans (congrArg _ (hsemicolonAll.trans (congrArg _ (Scanner.all_of_rest_nil rfl))))⟩

/-- The last brace is the last character of the text. -/
theorem start_of_last (hall : tokenize (.ofChars (bracedChars before inner)) = toks.map .ok)
    (hlast : last ∈ toks) (hk : last.kind = .rBrace)
    (hstop : last.span.stop = (Source.ofChars (bracedChars before inner)).size) :
    last.span.start = byteSize before + 3 + byteSize inner + 1 := by
  have hplaced : Lexeme.Placed (.ofChars (bracedChars before inner)) 0 (.ok last) :=
    placed_of_mem_tokenize (hall ▸ List.mem_map_of_mem hlast)
  have hstop' := Token.Placed.stop hplaced
  rw [hstop, Scanner.text_of_rBrace hall hlast hk, size_bracedChars rfl] at hstop'
  have hone : byteSize ['\x7d'] = 1 := rfl
  omega

theorem exists_forms (c : Control)
    (hall : tokenize (.ofChars (bracedChars before inner)) = toks.map .ok)
    (hbrace : brace ∈ toks) (hstart : brace.span.start = byteSize before + 2)
    (hlast : last ∈ toks) (hk : last.kind = .rBrace)
    (hstop : last.span.stop = (Source.ofChars (bracedChars before inner)).size)
    (hcolon : inner.head? ≠ some ':') : Nonempty (Forms c before inner) := by
  let src₂ := Source.ofChars (c.colonChars before inner)
  have hlastStart := start_of_last hall hlast hk hstop
  obtain ⟨head₁, head₂, us, paren, paren₂, brace', hhead, hparen, hbraceKind, hbraceStart,
    hbraceStop, rfl,
    hus, hall₂⟩ := Scanner.split_head src₂ hall rfl rfl hbrace hstart
  -- The last brace is none of the tokens of the head.
  have hlast' : last ∈ us := by
    have horder := inOrder_of_tokenize hall
    have hbefore := (List.pairwise_append.1 horder.increasing).2.2
    rcases List.mem_append.1 hlast with hmem | hmem
    · have hle := hbefore last hmem brace' List.mem_cons_self
      have hlt := (horder.stands last hlast).1
      omega
    · refine (List.mem_cons.1 hmem).resolve_left fun heq => ?_
      rw [← heq] at hbraceStart
      omega
  obtain ⟨body₁, body₂, last', hbody, hlastKind, rfl, hbody₂⟩ :=
    Scanner.split_body src₂ (byteSize before + 2) (("end" ++ c.word).toList ++ [';']) hus hlast' hk
      hlastStart
  have hcolon' : (inner ++ '\n' :: (("end" ++ c.word).toList ++ [';'])).head? ≠ some ':' := by
    cases inner with
    | nil => nofun
    | cons => exact hcolon
  obtain ⟨colon, hcolonKind, -, -, hcolonStop, hcolonAll⟩ :=
    (lexes_colon hcolon').all src₂ (byteSize before + 1)
  obtain ⟨keyword, semicolon, hkeyword, hsemicolon, hclosing⟩ :=
    c.tokens_closing src₂ (byteSize before + 2 + byteSize inner + 1)
  have hrest : (Scanner.mk .code { offset := byteSize before + 1, rest := ':' :: (inner ++
      '\n' :: (("end" ++ c.word).toList ++ [';'])) }).all src₂ =
        (colon :: (body₂ ++ [keyword, semicolon])).map .ok := by
    rw [List.map_cons, List.map_append]
    exact hcolonAll.trans (congrArg _ (hbody₂.trans (congrArg _ hclosing)))
  refine ⟨⟨head₁, head₂ ++ [paren₂], body₁, body₂, paren, brace', colon, last', keyword, semicolon,
    hhead, hbody, hparen, hbraceKind, hbraceStart, hbraceStop, hcolonKind, hcolonStop, hlastKind,
    hkeyword, hsemicolon, hall, ?_⟩⟩
  rw [List.map_append, ← hrest]
  exact hall₂

end

/-! ### Both texts in step -/

namespace Forms

section

variable {c : Control} {before inner : List Char} (F : Forms c before inner)

/-- What both texts have in common up to the parenthesis. -/
def headBond : Bond where
  left := .ofChars (bracedChars before inner)
  right := .ofChars (c.colonChars before inner)
  text := before ++ [')']
  lo₁ := 0
  lo₂ := 0
  leftAt := ⟨[], _, by rw [List.nil_append, List.append_assoc]; rfl, rfl⟩
  rightAt := ⟨[], _, by rw [List.nil_append, List.append_assoc]; rfl, rfl⟩
  tail₁ := F.brace :: (F.body₁ ++ [F.last])
  tail₂ := F.colon :: (F.body₂ ++ [F.keyword, F.semicolon])
  length_le := by simp [F.body_alike.length_eq]
  closed := nofun
  head₁ := by
    rintro t ht
    obtain rfl := Option.some.inj ht
    rw [F.brace_kind]
    decide
  head₂ := by
    rintro t ht
    obtain rfl := Option.some.inj ht
    rw [F.colon_kind]
    decide

/-- What both texts have in common within the body. -/
def bodyBond : Bond where
  left := .ofChars (bracedChars before inner)
  right := .ofChars (c.colonChars before inner)
  text := inner
  lo₁ := byteSize before + 3
  lo₂ := byteSize before + 2
  leftAt := ⟨before ++ [')', ' ', '\x7b'], _, by rw [List.append_assoc, List.append_assoc]; rfl,
    byteSize_append _ _⟩
  rightAt := ⟨before ++ [')', ':'], _, by rw [List.append_assoc, List.append_assoc]; rfl,
    byteSize_append _ _⟩
  tail₁ := [F.last]
  tail₂ := [F.keyword, F.semicolon]
  length_le := by simp
  closed := nofun
  head₁ := by
    rintro t ht
    obtain rfl := Option.some.inj ht
    rw [F.last_kind]
    decide
  head₂ := by
    rintro t ht
    obtain rfl := Option.some.inj ht
    rw [F.keyword_kind]
    exact c.closing_plain

theorem size_le : F.headBond.left.size ≤ F.headBond.right.size := by
  have hleft : F.headBond.left.size = byteSize before + byteSize inner + 5 := size_bracedChars rfl
  have hright : F.headBond.right.size = byteSize before + (byteSize [')', ':'] + (byteSize inner +
      (byteSize ['\n'] + (byteSize ("end" ++ c.word).toList + byteSize [';'])))) := by
    rw [← byteSize_append, ← byteSize_append, ← byteSize_append, ← byteSize_append,
      ← byteSize_append]
    rfl
  have hparts : byteSize [')', ':'] = 2 ∧ byteSize ['\n'] = 1 ∧
    byteSize [';'] = 1 := ⟨rfl, rfl, rfl⟩
  have hpos : 0 < byteSize ("end" ++ c.word).toList := byteSize_pos (by cases c <;> decide +kernel)
  omega

theorem placed {t : Token} (ht : t ∈ F.head₁ ++ [F.paren] ++ F.brace :: (F.body₁ ++ [F.last])) :
    ∃ lo, t.Placed (.ofChars (bracedChars before inner)) lo :=
  ⟨0, (placed_of_mem_tokenize (F.all₁ ▸ List.mem_map_of_mem ht) : Lexeme.Placed _ 0 (.ok t))⟩

theorem headBond_suffix :
    F.paren :: F.headBond.after <:+ significant (tokenize F.headBond.left) := by
  have hcode : significant ((F.paren :: F.headBond.tail₁).map .ok) = F.paren :: F.headBond.after :=
    significant_cons (by rw [F.paren_kind]; rfl)
  rw [← hcode]
  refine suffix_of_tokens F.head₁ (F.all₁.trans ?_)
  rw [List.append_assoc]
  rfl

theorem headBond_after :
    F.headBond.after = F.brace :: significant ((F.body₁ ++ [F.last]).map .ok) :=
  significant_cons (by rw [F.brace_kind]; rfl)

theorem bodyBond_suffix : F.bodyBond.after <:+ significant (tokenize F.bodyBond.left) := by
  refine suffix_of_tokens (F.head₁ ++ [F.paren] ++ F.brace :: F.body₁) (F.all₁.trans ?_)
  simp [bodyBond]

theorem bodyBond_after : F.bodyBond.after = [F.last] := significant_cons (by rw [F.last_kind]; rfl)

/-- Both texts begin in step. -/
theorem headBond_twin : F.headBond.Twin (.ofLexemes (tokenize F.headBond.left))
    (.ofLexemes (tokenize F.headBond.right)) := by
  have hsame : List.Forall₂ F.headBond.Same (F.head₁ ++ [F.paren]) F.head₂ :=
    F.headBond.forall₂_same F.head_alike fun t ht => F.placed (List.mem_append_left _ ht)
  rw [show tokenize F.headBond.left = _ from F.all₁, show tokenize F.headBond.right = _ from F.all₂]
  exact twin_settle hsame (.inr ⟨rfl, rfl⟩) rfl

theorem headBond_free : F.headBond.Free (.ofLexemes (tokenize F.headBond.left)) := by
  refine .inr ⟨F.paren, [], by rw [F.paren_kind]; decide, ?_⟩
  rw [State.ofLexemes, pending_settle]
  exact F.headBond_suffix

/-- Behind the brace and the colon they are in step again. -/
theorem bodyBond_twin {s₁ s₂ : State} (htwin : F.headBond.Twin s₁ s₂)
    (hend : s₁.pending = F.headBond.after) : F.bodyBond.Twin s₁.advance s₂.advance := by
  obtain ⟨hfaces₁, hfaces₂⟩ := htwin.behind hend
  have hsame : List.Forall₂ F.bodyBond.Same F.body₁ F.body₂ :=
    F.bodyBond.forall₂_same F.body_alike fun t ht => F.placed (by simp [ht])
  rw [State.advance, State.advance, htwin.errors₁, htwin.errors₂, hfaces₁.current, hfaces₂.current,
    hfaces₁.rest, hfaces₂.rest]
  exact twin_settle hsame (.inl ⟨[], inner, rfl, F.brace_stop, F.colon_stop⟩) rfl

end

/-! ### The structure with a colon -/

section

variable {c : Control} {before inner : List Char} {code : Nat → Nat → Parse Node} {depth : Nat}
  {s₁ s₂ : State} {n : Node} {opening : Token} (F : Forms c before inner)

/-- Where the head of the structure has been read, the brace is next. -/
theorem middle_pending (E : c.Enclosed code depth F.headBond.left (byteSize before + 2) s₁ n) :
    E.middle.pending = F.headBond.after := by
  have hpending := State.pending_of_current E.middle_current
  rw [hpending, F.headBond_after]
  refine (inOrder_bracedChars rfl F.all₁).suffix_unique (hpending ▸ E.middle_pending) ?_
    (E.brace_start.trans F.brace_start.symm)
  rw [← F.headBond_after]
  exact (List.suffix_cons _ _).trans F.headBond_suffix

theorem final_pending (E : c.Enclosed code depth F.headBond.left (byteSize before + 2) s₁ n) :
    E.final.pending = F.bodyBond.after := by
  have hsuffix := F.bodyBond_suffix
  rw [F.bodyBond_after] at hsuffix
  rw [E.final_pending, F.bodyBond_after]
  exact (List.suffix_of_suffix_length_le E.last_suffix hsuffix (Nat.le_refl _)).eq_of_length rfl

theorem stops_unopened (c : Control) : ∀ k ∈ c.stops, k ∈ unopened ∧ k ∉ tags := by
  cases c <;> decide

theorem closing_mem_stops (c : Control) : c.closing ∈ c.stops := by cases c <;> decide

/-- The structure that is read of the one text is read of the other. -/
theorem statement_colon
    (E : c.Enclosed (embeddedCode F.headBond.left.size) depth F.headBond.left
      (byteSize before + 2) s₁ n)
    (htwin : F.headBond.Twin s₁ s₂) (ht : s₂.current = some opening)
    (hk : opening.kind = c.opening) :
    ∃ n' s', descend (embeddedCode F.headBond.right.size) (depth + 3) .statement
      F.headBond.right s₂ =
      .ok n' s' ∧ unplaced n = unplaced n' ∧ s'.current = none ∧ s'.errors = [] := by
  have hreads : ∀ depth, (descend (embeddedCode F.headBond.left.size) depth).Reads
      (.unknown F.headBond.left) := descend_unknown _
  have hbelow : ∀ {B : Bond} {depth₁ depth₂ : Nat}, B.left = F.headBond.left → depth₁ ≤ depth₂ →
      (descend (embeddedCode F.headBond.left.size) depth₁).InStep
        (descend (embeddedCode F.headBond.right.size) depth₂) B :=
    fun hleft hle => descend_inStep (hleft ▸ hreads) (embeddedCode_inStep F.size_le) hle
  -- The heads.
  have hend := F.middle_pending E
  have hhead := head_inStep (C := Any) (hbelow (B := F.headBond) rfl (Nat.le_refl (depth + 2))) c
  obtain ⟨⟨start, parts⟩, middle, hhead, hparts, hmiddle⟩ :=
    hhead.run s₁ s₂ E.found E.middle htwin trivial
    E.head E.middle_errors (by rw [Manner.Holds, Bond.Within, hend])
  have hmiddleFaces : middle.Faces F.headBond.tail₂ := (hmiddle.behind hend).2
  -- The bodies.
  have hend' := F.final_pending E
  have hkeyword : ∀ t ∈ F.bodyBond.tail₂.head?, t.kind ∈ c.stops := by
    rintro t ht
    obtain rfl := Option.some.inj ht
    rw [F.keyword_kind]
    exact closing_mem_stops c
  obtain ⟨nodes, final, hlisted, hnodes, hfinal⟩ :=
    Listed.inStep (B := F.bodyBond) (hreads (depth + 1))
    (hbelow rfl (Nat.le_succ (depth + 1))) (congrArg some F.last_kind) hkeyword
    (fun s t ht hk => statement_unopened ht (stops_unopened c _ hk).1)
      (fun k hk => (stops_unopened c k hk).2)
    E.body (F.bodyBond_twin hmiddle hend) E.final_errors hend'
  have hstatements := hlisted.statementsUntil (descend_unknown _ _)
    (Step.advance (hmiddleFaces.stands (unknown_not_known _))).stands
  -- The keyword and the semicolon.
  have hfaces : final.Faces [F.keyword, F.semicolon] := (hfinal.behind hend').2
  have hcode : ∀ t ∈ [F.semicolon].head?, t.kind.isComment = false := by
    rintro t ht
    obtain rfl := Option.some.inj ht
    rw [F.semicolon_kind]
    rfl
  have hsemicolon := hfaces.advance hcode
  have hnone : ∀ t ∈ ([] : List Token).head?, t.kind.isComment = false := by simp
  obtain ⟨n', hrest, hn'⟩ := rest_colon c start parts hmiddleFaces.current F.colon_kind
    hstatements hfaces.current F.keyword_kind hsemicolon.current F.semicolon_kind
  have hparts' : unplaced E.found.2 = unplaced parts := congrArg Prod.snd hparts
  refine ⟨n', final.advance.advance, ?_, ?_, (hsemicolon.advance hnone).current, ?_⟩
  · show statement (descend (embeddedCode F.headBond.right.size) (depth + 2)) F.headBond.right
      s₂ = _
    rw [c.statement_eq ht hk, production_eq, bind_ok hhead]
    exact hrest
  · rw [E.node, hn', hnodes, hparts']
  · rw [hsemicolon.errors_advance hnone, hfaces.errors_advance hcode, hfinal.errors₂]

end

end Forms

/-! ### Whole texts -/

section

variable {c : Control} {before inner rest : List Char} {n b : Node}

theorem parse_colonChars (c : Control) (hbefore : before = "<?php ".toList ++
    (c.word.toList ++ ' ' :: rest))
    (herrors : (parse (.ofChars (bracedChars before inner))).2 = [])
    (hn : (parse (.ofChars (bracedChars before inner))).1.children = [n])
    (hb : n.childBy? "body" = some b)
    (hstart : b.span.start = byteSize before + 2)
    (hstop : b.span.stop = (Source.ofChars (bracedChars before inner)).size) :
    (parse (.ofChars (c.colonChars before inner))).2 = [] ∧
      (parse (.ofChars (c.colonChars before inner))).1.unplaced =
        (parse (.ofChars (bracedChars before inner))).1.unplaced := by
  let src := Source.ofChars (bracedChars before inner)
  have hreads : ∀ depth, (descend (embeddedCode src.size) depth).Reads (.unknown src) :=
    descend_unknown _
  obtain ⟨toks, s', hall, hs', hlisted⟩ := listed_of_parse herrors
  rw [hn] at hlisted
  obtain ⟨tag, opening, htag, htagKind, hopening, hopeningKind⟩ := c.first_tokens src
    (rest ++ ')' :: ' ' :: '\x7b' :: (inner ++ ['\n', '\x7d']))
    (by simp [src, Source.ofChars, bracedChars, hbefore])
  have hnotTag : ∀ {t : Token}, t.kind = c.opening → t.kind ∉ tags := fun h => h ▸ c.opening_plain.2
  obtain ⟨s₁, hstatement, hrest⟩ := hlisted.single htag htagKind hopening (hnotTag hopeningKind)
  have hadvance : Step (.unknown src) (State.ofLexemes (tokenize src)) _ :=
    .advance (stands_ofLexemes _)
  replace hstatement : descend (embeddedCode src.size) (125 + 3) .statement src _ = .ok n s₁ :=
    hstatement
  have hmoves := ((hreads (125 + 3)).step hadvance.stands hopening).1
  rw [hstatement] at hmoves
  have hs₁ : s₁.errors = [] := (hrest.step (hreads _) (Step.stands hmoves)).errors_nil hs'
  have hpending := hadvance.pending
  rw [State.ofLexemes, pending_settle] at hpending
  obtain ⟨E⟩ := exists_enclosed rfl hall hreads hadvance.stands hpending hopening hopeningKind
    hstatement hs₁ hb hstart hstop
  obtain ⟨F⟩ := exists_forms c hall (mem_of_pending hall E.middle_pending E.middle_current)
    E.brace_start
    (E.last_mem hall) E.last_kind E.last_stop (E.head?_ne_colon rfl hall)
  obtain ⟨tag₂, opening₂, htag₂, htagKind₂, hopening₂, hopeningKind₂⟩ :=
    c.first_tokens F.headBond.right
    (rest ++ ')' :: ':' :: (inner ++ '\n' :: (("end" ++ c.word).toList ++ [';'])))
    (by simp [Forms.headBond, Source.ofChars, colonChars, hbefore])
  obtain ⟨n', s₂, hn', hnode, hcurrent, herrors₂⟩ :=
    F.statement_colon E (F.headBond_twin.advance F.headBond_free) hopening₂ hopeningKind₂
  have hdone : Listed (top F.headBond.right) [] F.headBond.right s₂ [] s₂ :=
    .done (by simp [hcurrent])
  have hlisted₂ : Listed (top F.headBond.right) [] F.headBond.right
    (.ofLexemes (tokenize F.headBond.right))
      [n'] s₂ := .tag htag₂ List.not_mem_nil htagKind₂
    (.statement hopening₂ List.not_mem_nil (hnotTag hopeningKind₂) hn' hdone)
  rw [show parse (.ofChars (c.colonChars before inner)) = _ from hlisted₂.parse herrors₂,
    hlisted.parse hs']
  refine ⟨rfl, ?_⟩
  show unplaced (Node.ofKind .sourceFile _ [n']) = unplaced (Node.ofKind .sourceFile _ [n])
  rw [unplaced_ofKind, unplaced_ofKind, unplaced_cons, unplaced_cons, hnode]

end

section

variable (c : Control) (head body : String)

/-- A file up to the end of what stands in the parentheses of a structure. -/
def header : String := "<?php " ++ c.word ++ " (" ++ head

/-- A file that consists of a structure with its body in braces. -/
def braced : String := c.header head ++ ") \x7b" ++ body ++ "\n\x7d"

/-- The file with the body between a colon and the keyword. -/
def withColon : String := c.header head ++ "):" ++ body ++ "\nend" ++ c.word ++ ";"

variable {c head body} {n b : Node}

/-- Where a file is read without faults as one control structure whose body is all of the text from
the brace behind its head on, the form with a colon is read without faults as the same tree. -/
theorem parse_withColon (herrors : (parse (.ofString (c.braced head body))).2 = [])
    (hn : (parse (.ofString (c.braced head body))).1.children = [n])
    (hb : n.childBy? "body" = some b)
    (hstart : b.span.start = (Source.ofString (c.header head ++ ") ")).size)
    (hstop : b.span.stop = (Source.ofString (c.braced head body)).size) :
    (parse (.ofString (c.withColon head body))).2 = [] ∧
      (parse (.ofString (c.withColon head body))).1.unplaced =
        (parse (.ofString (c.braced head body))).1.unplaced := by
  have hbraced : Source.ofString (c.braced head body) =
      .ofChars (bracedChars (c.header head).toList body.toList) := by
    simp [Source.ofString, braced, bracedChars]
  have hcolon : Source.ofString (c.withColon head body) =
      .ofChars (c.colonChars (c.header head).toList body.toList) := by
    simp [Source.ofString, withColon, colonChars]
  have hheader : (c.header head).toList = "<?php ".toList ++
    (c.word.toList ++ ' ' :: '(' :: head.toList) := by
    simp [header]
  have hsize : (Source.ofString (c.header head ++ ") ")).size =
    byteSize (c.header head).toList + 2 := by
    show byteSize (c.header head ++ ") ").toList = _
    rw [String.toList_append, byteSize_append]
    rfl
  rw [hbraced] at herrors hn hstop ⊢
  rw [hsize] at hstart
  rw [hcolon]
  exact c.parse_colonChars hheader herrors hn hb hstart hstop

/-- A body with a heredoc, text outside tags, the other form, and a comment behind its last
statement. -/
theorem parse_withColon_mixed :
    let head := "$a as $b"
    let body := "$s = <<<X\nu\nX; ?> é<?php if ($b): f(); endif; // c"
    ∃ n b, (parse (.ofString (foreachLoop.braced head body))).2 = [] ∧
      (parse (.ofString (foreachLoop.braced head body))).1.children = [n] ∧
        n.childBy? "body" = some b ∧
      b.span.start = (Source.ofString (foreachLoop.header head ++ ") ")).size ∧
      b.span.stop = (Source.ofString (foreachLoop.braced head body)).size ∧
      (parse (.ofString (foreachLoop.withColon head body))).2 = [] ∧
      (parse (.ofString (foreachLoop.withColon head body))).1.unplaced =
        (parse (.ofString (foreachLoop.braced head body))).1.unplaced := by
  intro head body
  have hread : ((parse (.ofString (foreachLoop.braced head body))).2.length,
      (parse (.ofString (foreachLoop.braced head body))).1.children.map fun n =>
        (n.childBy? "body").map fun b => (b.span.start, b.span.stop)) = (0, [some (25, 79)]) := by
    decide +kernel
  obtain ⟨hlength, hspans⟩ := Prod.mk.inj hread
  have herrors := List.length_eq_zero_iff.1 hlength
  obtain ⟨n, hn, hbody⟩ := List.map_eq_singleton_iff.1 hspans
  obtain ⟨b, hb, hspan⟩ := Option.map_eq_some_iff.1 hbody
  obtain ⟨hstart, hstop⟩ := Prod.mk.inj hspan
  have hstart' : b.span.start = (Source.ofString (foreachLoop.header head ++ ") ")).size :=
    hstart.trans (by decide +kernel)
  have hstop' : b.span.stop = (Source.ofString (foreachLoop.braced head body)).size :=
    hstop.trans (by decide +kernel)
  exact ⟨n, b, herrors, hn, hb, hstart', hstop', parse_withColon herrors hn hb hstart' hstop'⟩

/-- It is not enough that the braces with the body are a block by themselves: the parenthesis in
front of them need not be the one that ends the head. -/
theorem parse_withColon_of_block_fails :
    ¬ ∀ (c : Control) (head body : String),
      (parse (.ofString ("<?php \x7b" ++ body ++ "\n\x7d"))).2 = [] →
      (parse (.ofString ("<?php \x7b" ++ body ++ "\n\x7d"))).1.children.map (·.kind) = [.block] →
      (parse (.ofString (c.braced head body))).2 = [] →
      (parse (.ofString (c.braced head body))).1.children.length = 1 →
        (parse (.ofString (c.withColon head body))).2 = [] ∧
          (parse (.ofString (c.withColon head body))).1.unplaced =
            (parse (.ofString (c.braced head body))).1.unplaced := by
  intro h
  have hloop := h whileLoop "1) if (2" ";" (List.isEmpty_iff.1 (by decide +kernel))
    (by decide +kernel)
    (List.isEmpty_iff.1 (by decide +kernel)) (by decide +kernel)
  have hfaults : (parse (.ofString (whileLoop.withColon "1) if (2" ";"))).2.length =
    2 := by decide +kernel
  rw [hloop.1] at hfaults
  cases hfaults

end

end PhpCheck.Grammar.Control
