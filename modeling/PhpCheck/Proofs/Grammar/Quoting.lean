import PhpCheck.Proofs.Grammar.Interpolation
import PhpCheck.Proofs.Grammar.Roundtrip
import PhpCheck.Proofs.Token.Placed

/-!
A text that is written as a literal is read back.

What would end the literal, or begin something else in it, is written with a backslash in front
(`Quoting.escaped`).  The scan passes over what is written up to the closing quote
(`Quoting.lexes`), and the reading of the token takes the backslashes away again
(`Quoting.literal_written`); both are inductions along the writing.
-/

namespace PhpCheck

open Grammar

/-- How a text is written as a literal on its own. -/
inductive Quoting where
  | plain | template
deriving DecidableEq

namespace Quoting

/-- The kind of the token of the literal. -/
def kind : Quoting → TokenKind
  | plain => .stringLiteral
  | template => .templateString

/-- The character at both ends. -/
def quote : Quoting → Char
  | plain => '\''
  | template => '"'

/-- What does not stand for itself. -/
def special : Quoting → List Char
  | plain => ['\\', '\'']
  | template => ['\\', '"', '$']

/-- A text as it is written between the quotes. -/
def escaped (q : Quoting) : List Char → List Char
  | [] => []
  | c :: text =>
    if c ∈ q.special then '\\' :: c :: q.escaped text else c :: q.escaped text

/-- A text as it is written, with the quotes. -/
def written (q : Quoting) (text : String) : List Char :=
  q.quote :: (q.escaped text.toList ++ [q.quote])

/-- A file with one statement, which consists of a literal. -/
def file (q : Quoting) (text : String) : String :=
  "<?php " ++ String.ofList (q.written text) ++ ";"

/-! ### The scan -/

section

variable (text rest : List Char)

theorem close_plain_escaped (offset since : Nat) :
    (Enclosure.plain since).close [] offset (plain.escaped text ++ '\'' :: rest) =
      .ok { offset := offset + byteSize (plain.escaped text) + 1, rest } := by
  fun_induction escaped plain text generalizing offset with
  | case1 => exact Enclosure.close_plain_end
  | case2 c text _ ih =>
    rw [List.cons_append, List.cons_append, Enclosure.close_plain_hidden, ih, byteSize_cons,
      byteSize_cons, ← Nat.add_assoc, ← Nat.add_assoc]
    rfl
  | case3 c text hc ih =>
    simp only [special, List.mem_cons, List.not_mem_nil, or_false, not_or] at hc
    rw [List.cons_append, Enclosure.close_plain hc.1 hc.2, ih, byteSize_cons, ← Nat.add_assoc]

/-- No region begins where a text goes on as it is written. -/
theorem opens_escaped (c : Char) (hc : c ∉ template.special) :
    Enclosure.opens c (template.escaped text) = false := by
  have hdollar : c ≠ '$' := fun h => hc (h ▸ by decide)
  have hhead : (template.escaped text).head? ≠ some '$' := by
    fun_cases escaped template text with
    | case1 => nofun
    | case2 c text _ => nofun
    | case3 c text hc => exact fun h => hc (Option.some.inj h ▸ by decide)
  simp [Enclosure.opens, hdollar, hhead]

/-- There are no regions in what is written. -/
theorem clear_escaped (offset : Nat) : Clear '"' offset (template.escaped text) [] := by
  fun_induction escaped template text generalizing offset with
  | case1 => exact .nil offset
  | case2 c text hc ih =>
    have hdecode : decodeEscape? (some '"') (c :: ([] ++ template.escaped text)) =
        some (c, template.escaped text) := by
      simp only [special, List.mem_cons, List.not_mem_nil, or_false] at hc
      rcases hc with rfl | rfl | rfl <;> rfl
    exact .escape hdecode rfl (ih _)
  | case3 c text hc ih =>
    have hopens := opens_escaped text c hc
    simp only [special, List.mem_cons, List.not_mem_nil, or_false, not_or] at hc
    exact .other hc.1 hc.2.1 (fun h => absurd h hc.2.2) hopens (ih _)

theorem headToken_single {src : Source} {c : Cursor} {rest : List Char} :
    Scanner.headToken src c '\'' rest =
      match (Enclosure.plain c.offset).close [] (c.offset + 1) (c.rest.drop 1) with
      | .ok last => (.ok (Scanner.token src .stringLiteral c last), last)
      | .error since =>
        (.error { fault := .unterminatedString, span := src.span since src.size },
          Scanner.atEnd src) := rfl

/-- What is written is a token, which ends with the quote that was written last. -/
theorem lexes (q : Quoting) (text : String) (rest : List Char) :
    Lexes q.kind (q.written text) rest where
  head := ⟨_, _, rfl, by cases q <;> rfl⟩
  kind_ne := by cases q <;> nofun
  cut := by
    intro src c head tail hc hwritten
    have hsize : byteSize (q.written text) = 1 + (byteSize (q.escaped text.toList) + 1) := by
      rw [written, byteSize_cons, byteSize_append, byteSize_cons]
      cases q <;> rfl
    have hupTo : c.upTo rest =
        { offset := c.offset + 1 + byteSize (q.escaped text.toList) + 1, rest } := by
      have hpasses := c.passes_upTo (q.written text) (hc.trans hwritten)
      refine congrArg (Cursor.mk · rest) (hpasses.offset.trans ?_)
      rw [hsize, Nat.add_assoc, Nat.add_assoc]
    have hcons : head :: tail = q.quote :: (q.escaped text.toList ++ q.quote :: rest) := by
      rw [hwritten, written, List.cons_append, List.append_assoc]
      rfl
    cases hcons
    have hdrop : c.rest.drop 1 = q.escaped text.toList ++ q.quote :: rest := by
      rw [hc, List.drop_one, List.tail_cons]
    rw [hupTo]
    cases q with
    | plain =>
      have hclose := close_plain_escaped text.toList rest (c.offset + 1) c.offset
      change (Enclosure.plain c.offset).close [] _ (_ ++ plain.quote :: rest) = _ at hclose
      rw [← hdrop] at hclose
      show Scanner.headToken src c '\'' _ = _
      rw [headToken_single, hclose]
      rfl
    | template =>
      have hsteps : Enclosure.Steps '"' (c.offset + 1)
          (template.escaped text.toList ++ '"' :: rest) [] _ :=
        (clear_escaped text.toList (c.offset + 1)).steps (by decide) rfl
      have hclose : (Enclosure.template '"' c.offset).close [] (c.offset + 1)
          (template.escaped text.toList ++ template.quote :: rest) = _ := hsteps.close (by decide)
      rw [← hdrop] at hclose
      show Scanner.headToken src c '"' _ = _
      rw [headToken_double, hclose]
      rfl

end

/-- The tokens of a file with a literal. -/
theorem tokenize_file (q : Quoting) (text : String) :
    ∃ toks : List Token, tokenize (.ofString (q.file text)) = toks.map .ok ∧
      toks.map Token.word =
        [openWord, (q.kind, String.ofList (q.written text)), (.semicolon, ";")] := by
  have hspace : ∀ x ∈ [' '], isBlank x = true := List.forall_mem_singleton.2 rfl
  refine tokenize_openTag ?_ (((q.lexes text [';']).splits hspace).append
    (lexes_semicolon []).splits_self)
  rw [file, String.toList_append, String.toList_append, String.toList_ofList]
  simp

/-! ### The reading -/

theorem decodePlain_escaped (text : List Char) : decodePlain (plain.escaped text) = text := by
  fun_induction escaped plain text with
  | case1 => rfl
  | case2 c text hc ih =>
    simp only [special, List.mem_cons, List.not_mem_nil, or_false] at hc
    rcases hc with rfl | rfl <;> exact congrArg _ ih
  | case3 c text hc ih =>
    simp only [special, List.mem_cons, List.not_mem_nil, or_false, not_or] at hc
    rw [decodePlain, ih]
    · exact fun _ h _ => hc.1 h
    · exact fun _ h _ => hc.1 h

section

variable (src : Source) (below : Below) (stop : Nat) (s : State) {p : Pieces}

/-- One step reads one character, with the backslash in front if there is one. -/
theorem step_escaped (c : Char) (text : List Char) (hmargin : p.margin = 0) :
    ∃ d after, template.escaped (c :: text) = d :: after ∧
      (template.escaped text).length ≤ after.length ∧
      p.step below 0 (some '"') stop d after src s = .ok (p.keep c (template.escaped text)) s := by
  by_cases hc : c ∈ template.special
  · refine ⟨'\\', c :: template.escaped text, if_pos hc, Nat.le_succ _, ?_⟩
    refine Pieces.step_escape hmargin ?_
    simp only [special, List.mem_cons, List.not_mem_nil, or_false] at hc
    rcases hc with rfl | rfl | rfl <;> rfl
  · have hopens := opens_escaped text c hc
    refine ⟨c, template.escaped text, if_neg hc, Nat.le_refl _, ?_⟩
    simp only [special, List.mem_cons, List.not_mem_nil, or_false, not_or] at hc
    cases hmore : template.escaped text with
    | nil => exact Pieces.step_last hmargin
    | cons x more =>
      rw [hmore] at hopens
      exact Pieces.step_other hmargin hc.1 (fun h => absurd h hc.2.2) hopens

/-- Reading what is written of a text adds the text to the literal and finds no parts. -/
theorem run_escaped {text : List Char} {fuel : Nat} (hrest : p.rest = template.escaped text)
    (hmargin : p.margin = 0) (hfuel : (template.escaped text).length ≤ fuel) :
    ∃ p', Pieces.run below 0 (some '"') stop fuel p src s = .ok p' s ∧
      p'.parts = p.parts ∧ p'.literal = text.reverse ++ p.literal := by
  induction text generalizing fuel p with
  | nil =>
    refine ⟨p, ?_, rfl, rfl⟩
    cases fuel <;>
    · rw [Pieces.run, hrest]
      rfl
  | cons c text ih =>
    obtain ⟨d, after, hwritten, hlength, hstep⟩ :=
      step_escaped src below stop s c text hmargin
    rw [hwritten] at hrest hfuel
    obtain ⟨fuel, rfl⟩ := Nat.exists_eq_add_of_le' (Nat.lt_of_lt_of_le (Nat.succ_pos _) hfuel)
    obtain ⟨p', hrun, hparts, hliteral⟩ := ih (p := p.keep c (template.escaped text)) rfl rfl
      (Nat.le_trans hlength (Nat.le_of_succ_le_succ hfuel))
    refine ⟨p', ?_, hparts, ?_⟩
    · rw [Pieces.run_cons hrest, bind_ok hstep, hrun]
    · rw [hliteral, List.reverse_cons, List.append_assoc]
      rfl

end

/-- Text without parts is a literal. -/
theorem quotedNode_flush (span : Span) (stop : Nat) {p : Pieces} (hparts : p.parts = []) :
    quotedNode span (p.flush src stop).parts.reverse =
      Node.leaf .stringLiteral span (String.ofList p.literal.reverse) := by
  rw [Pieces.flush]
  split
  · rename_i hempty
    rw [hparts, List.isEmpty_iff.1 hempty]
    rfl
  · rw [hparts, quotedNode]
    simp only [List.reverse_cons, List.reverse_nil, List.nil_append, List.all_cons, List.all_nil]
    simp [Node.leaf, Node.textD]

/-- The reading of a literal's token. -/
def literal (q : Quoting) (below : Below) : Parse Node :=
  match q with
  | plain => plainString
  | template => templateString below

/-- Where the token of a text in double quotes stands. -/
theorem exists_cursor {text : String} {src : Source} {tok : Token} (hplaced : tok.Placed src 0)
    (hword : tok.word = (.templateString, String.ofList (template.written text))) :
    ∃ (c : Cursor) (rest : List Char), c.Within src ∧
      c.rest = '"' :: (template.escaped text.toList ++ '"' :: rest) ∧
      tok = Scanner.token src .templateString c
        { offset := c.offset + 1 + byteSize (template.escaped text.toList) + 1, rest } := by
  obtain ⟨kind, span, spelled⟩ := tok
  obtain ⟨rfl, rfl⟩ := Prod.mk.inj hword
  obtain ⟨before, rest, hchars, hstart⟩ := hplaced.hasAt
  have hspan := hplaced.span
  dsimp only at hchars hstart hspan
  rw [String.toList_ofList] at hchars hspan
  have hshape : template.written text ++ rest =
      '"' :: (template.escaped text.toList ++ '"' :: rest) := by
    rw [written, List.cons_append, List.append_assoc]
    rfl
  have hstop : span.start + 1 + byteSize (template.escaped text.toList) + 1 =
      span.start + byteSize (template.written text) := by
    rw [written, byteSize_cons, byteSize_append, byteSize_cons, byteSize_nil,
      show template.quote.utf8Size = 1 from rfl]
    omega
  refine ⟨{ offset := span.start, rest := template.written text ++ rest }, rest,
    ⟨before, by rw [hchars, List.append_assoc], hstart⟩, hshape, ?_⟩
  rw [Scanner.token]
  dsimp only
  rw [hstop, ← hspan, List.length_append, Nat.add_sub_cancel, List.take_left]

/-- Reading the token of a text that was written gives the text. -/
theorem literal_written (q : Quoting) (text : String) {src : Source} (below : Below) {tok : Token}
    {toks : List Token} (prevEnd : Nat) (hplaced : tok.Placed src 0) (htoks : Plain toks)
    (hword : tok.word = (q.kind, String.ofList (q.written text))) :
    q.literal below src (.before [] prevEnd (tok :: toks)) =
      .ok (Node.leaf .stringLiteral tok.span text) (.before [] tok.span.stop toks) := by
  cases q with
  | plain =>
    obtain ⟨hkind, htext⟩ := Prod.mk.inj hword
    have hinner : (tok.text.toList.drop 1).dropLast = plain.escaped text.toList := by
      rw [htext, String.toList_ofList]
      exact List.dropLast_concat
    have hexpect : expect .stringLiteral "string" src (.before [] prevEnd (tok :: toks)) =
        .ok tok (.before [] tok.span.stop toks) := expect_before hkind htoks
    rw [literal, plainString, bind_ok hexpect, hinner, decodePlain_escaped,
      String.ofList_toList]
    rfl
  | template =>
    obtain ⟨c, rest, hwithin, hc, htok⟩ := exists_cursor hplaced hword
    have hadvance : State.advance (.before [] prevEnd (tok :: toks)) =
        .before [] tok.span.stop toks := settle_plain htoks
    obtain ⟨p, hrun, hparts, hliteral⟩ := run_escaped src below
      (c.offset + 1 + byteSize (template.escaped text.toList)) (.before [] tok.span.stop toks)
      (p := Pieces.start (c.offset + 1) (template.escaped text.toList)) rfl rfl (Nat.le_refl _)
    have hread := templateString_run (s := .before [] prevEnd (tok :: toks)) rfl hwithin hc
      rfl htok rfl below
    rw [hadvance, bind_ok hrun] at hread
    refine hread.trans ?_
    rw [quotedNode_flush _ _ hparts, hliteral]
    simp [Pieces.start]
    rfl

end Quoting

/-! ### The file -/

namespace Grammar

/-- The kinds of the tokens that are literal text on their own. -/
def literalKinds : List TokenKind := [.stringLiteral, .templateString, .heredoc, .nowdoc]

section

variable {src : Source} {opening tok semicolon : Token} {n : Node}

/-- A literal in front of a semicolon is an expression. -/
theorem binary_primary (below : Below) (prevEnd : Nat) (hkind : tok.kind ∈ literalKinds)
    (hsemicolon : semicolon.kind = .semicolon)
    (hread : primary below src (.before [] prevEnd [tok, semicolon]) =
      .ok n (.before [] tok.span.stop [semicolon])) :
    binary below .lowest src (.before [] prevEnd [tok, semicolon]) =
      .ok n (.before [] tok.span.stop [semicolon]) := by
  have hstops := stops_semicolon Precedence.lowest.rank hsemicolon
  have hunary : unary below src (.before [] prevEnd [tok, semicolon]) =
      (primary below >>= postfixChain below) src (.before [] prevEnd [tok, semicolon]) := by
    obtain ⟨kind, span, spelled⟩ := tok
    simp only [literalKinds, List.mem_cons, List.not_mem_nil, or_false] at hkind
    rcases hkind with rfl | rfl | rfl | rfl <;> rfl
  have hchain : (primary below >>= postfixChain below) src (.before [] prevEnd [tok, semicolon]) =
      .ok _ _ := (bind_ok hread).trans (postfixChain_stops hstops)
  rw [binary_eq, bind_congr hunary, bind_ok hchain, repeated_eq]
  exact rounds_done (binaryRound_stops hstops)

/-- A literal and a semicolon are a statement. -/
theorem statement_primary (code : Nat → Nat → Parse Node) (levels prevEnd : Nat)
    (hkind : tok.kind ∈ literalKinds) (hsemicolon : semicolon.kind = .semicolon)
    (hread : primary (descend code levels) src (.before [] prevEnd [tok, semicolon]) =
      .ok n (.before [] tok.span.stop [semicolon])) :
    ∃ span, statement (descend code (levels + 1)) src (.before [] prevEnd [tok, semicolon]) =
      .ok (Node.ofKind .expressionStatement span [n.inField "expression"])
        (.before [] semicolon.span.stop []) := by
  have hbinary := binary_primary (descend code levels) prevEnd hkind hsemicolon hread
  have hstatement : statement (descend code (levels + 1)) src
        (.before [] prevEnd [tok, semicolon]) =
      (binary (descend code levels) .lowest >>= fun value =>
        expectSemicolon >>= fun _ =>
          nodeFrom .expressionStatement tok.span.start [value.inField "expression"]) src
            (.before [] prevEnd [tok, semicolon]) := by
    obtain ⟨kind, span, spelled⟩ := tok
    simp only [literalKinds, List.mem_cons, List.not_mem_nil, or_false] at hkind
    rcases hkind with rfl | rfl | rfl | rfl <;> rfl
  rw [hstatement, bind_ok hbinary, bind_ok (expectSemicolon_before hsemicolon)]
  exact ⟨_, rfl⟩

/-- A file with a literal is read as one statement. -/
theorem statementsUntil_primary (code : Nat → Nat → Parse Node) (levels : Nat)
    (hopening : opening.kind = .openTag) (hkind : tok.kind ∈ literalKinds)
    (hsemicolon : semicolon.kind = .semicolon)
    (hread : primary (descend code levels) src (.before [] opening.span.stop [tok, semicolon]) =
      .ok n (.before [] tok.span.stop [semicolon])) :
    ∃ span, statementsUntil (descend code (levels + 2)) [] src
        (.ofLexemes [.ok opening, .ok tok, .ok semicolon]) =
      .ok [Node.ofKind .expressionStatement span [n.inField "expression"]]
        (.before [] semicolon.span.stop []) := by
  obtain ⟨span, hstatement⟩ :=
    statement_primary code levels opening.span.stop hkind hsemicolon hread
  refine ⟨span, ?_⟩
  have hstart : State.ofLexemes [.ok opening, .ok tok, .ok semicolon] =
      .before [] 0 [opening, tok, semicolon] := by
    obtain ⟨kind, place, spelled⟩ := opening
    obtain rfl := hopening
    rfl
  let below := descend code (levels + 2)
  have hopen : statementRound below [] src (.before [] 0 [opening, tok, semicolon]) =
        .ok (.more []) (.before [] opening.span.stop [tok, semicolon]) := by
    obtain ⟨kind, place, spelled⟩ := opening
    obtain ⟨kind', place', spelled'⟩ := tok
    obtain rfl := hopening
    simp only [literalKinds, List.mem_cons, List.not_mem_nil, or_false] at hkind
    rcases hkind with rfl | rfl | rfl | rfl <;> rfl
  have htag : tok.kind ≠ .openTag ∧ tok.kind ≠ .closeTag := by
    have hkinds : ∀ kind ∈ literalKinds, kind ≠ .openTag ∧ kind ≠ .closeTag := by decide
    exact hkinds tok.kind hkind
  have hround : statementRound below [] src (.before [] opening.span.stop [tok, semicolon]) = _ :=
    statementRound_ok htag hstatement
  have hrounds : rounds (statementRound below) 4 [] src (.before [] 0 [opening, tok, semicolon]) =
      .ok _ _ := (rounds_more hopen).trans ((rounds_more hround).trans (rounds_done rfl))
  rw [hstart, statementsUntil_eq, bind_ok (repeated_eq.trans hrounds)]
  rfl

end

end Grammar

namespace Quoting

/-- A file with a text that was written is read as one statement. -/
theorem statementsUntil_literal {q : Quoting} {text : String} {src : Source}
    {opening tok semicolon : Token} (code : Nat → Nat → Parse Node) (levels : Nat)
    (hopening : opening.kind = .openTag) (hplaced : tok.Placed src 0)
    (hword : tok.word = (q.kind, String.ofList (q.written text)))
    (hsemicolon : semicolon.kind = .semicolon) :
    ∃ span, statementsUntil (descend code (levels + 2)) [] src
        (.ofLexemes [.ok opening, .ok tok, .ok semicolon]) =
      .ok [Node.ofKind .expressionStatement span
          [(Node.leaf .stringLiteral tok.span text).inField "expression"]]
        (.before [] semicolon.span.stop []) := by
  have hkind : tok.kind = q.kind := congrArg Prod.fst hword
  have hread := literal_written q text (descend code levels) opening.span.stop hplaced
    (stops_semicolon 0 hsemicolon).plain hword
  refine statementsUntil_primary code levels hopening ?_ hsemicolon (Eq.trans ?_ hread)
  · rw [hkind]
    cases q <;> decide
  · obtain ⟨kind, span, spelled⟩ := tok
    obtain rfl := hkind
    cases q <;> rfl

/-- The tree of a file with a literal, without places. -/
def fileNode (text : String) : Node :=
  Node.ofKind .sourceFile default
    [Node.ofKind .expressionStatement default
      [(Node.leaf .stringLiteral default text).inField "expression"]]

end Quoting

/-- A file that consists of a text written as a literal is read without faults, as one
statement, whose expression is a literal with that text. -/
theorem parse_written (q : Quoting) (text : String) :
    (parse (.ofString (q.file text))).1.unplaced = Quoting.fileNode text ∧
      (parse (.ofString (q.file text))).2 = [] := by
  obtain ⟨toks, htoks, hwords⟩ := q.tokenize_file text
  obtain ⟨opening, others, rfl, hopening, hothers⟩ := List.map_eq_cons_iff.1 hwords
  obtain ⟨tok, ends, rfl, hword, hends⟩ := List.map_eq_cons_iff.1 hothers
  obtain ⟨semicolon, rfl, hsemicolon⟩ := List.map_eq_singleton_iff.1 hends
  let src : Source := .ofString (q.file text)
  have hmem : .ok tok ∈ tokenize src := by simp [src, htoks]
  have hplaced : tok.Placed src 0 := placed_of_mem_tokenize hmem
  obtain ⟨span, hfile⟩ := Quoting.statementsUntil_literal (embeddedCode src.size) 126
    (congrArg Prod.fst hopening) hplaced hword (congrArg Prod.fst hsemicolon)
  have hread : tokenize src = [.ok opening, .ok tok, .ok semicolon] := htoks
  have htop : statementsUntil (top src) [] src
      (.ofLexemes [.ok opening, .ok tok, .ok semicolon]) = _ := hfile
  rw [parse_eq src, hread, htop]
  exact ⟨by simp [Quoting.fileNode, Node.unplacedAll], rfl⟩

end PhpCheck
