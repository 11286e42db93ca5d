import PhpCheck.Proofs.Grammar.Infix
import PhpCheck.Proofs.Token.Abreast

/-!
Tokens at known places of a text.

Some words and symbols are tokens of their own whatever stands behind them.  Where two texts are the
same up to a parenthesis or to a line end, with a brace behind it in the one text, their tokens are
the same up to there (`Scanner.split_head`, `Scanner.split_body`).
-/

namespace PhpCheck

/-! ### Words at hand -/

/-- A token that stands at the head of code is the next one. -/
theorem Lexes.all {kind : TokenKind} {text rest : List Char} (ht : Lexes kind text rest)
    (src : Source)
    (o : Nat) : ∃ t : Token, t.kind = kind ∧ t.text.toList = text ∧ t.span.start = o ∧
      t.span.stop = o + byteSize text ∧
      (Scanner.mk .code { offset := o, rest := text ++ rest }).all src =
        .ok t :: (Scanner.mk .code { offset := o + byteSize text, rest }).all src := by
  obtain ⟨x, more, rfl, hx⟩ := ht.head
  let c : Cursor := { offset := o, rest := x :: more ++ rest }
  let d : Cursor := { offset := o + byteSize (x :: more), rest }
  have hpasses : c.Passes (x :: more) d := ⟨rfl, rfl⟩
  have hc : c.upTo (x :: (more ++ rest)) = c := (Cursor.Passes.refl c).eq_upTo.symm
  have hcut : (Scanner.token src kind c d).Cut src c d := Scanner.cut_token kind hpasses
  have hhead := ht.cut src c x (more ++ rest) rfl rfl
  rw [← hpasses.eq_upTo] at hhead
  have hdrop : c.rest.dropWhile isBlank = x :: (more ++ rest) :=
    List.dropWhile_cons_of_neg (by rw [hx]; nofun)
  have hfinds : Scanner.Finds src (.mk .code c) (Scanner.token src kind c d) (.mk .code d) :=
    .code hdrop (hc.symm ▸ hhead) ht.kind_ne
  refine ⟨Scanner.token src kind c d, rfl, ?_, hcut.start_eq, hcut.stop_eq, ?_⟩
  · rw [Scanner.token, hpasses.take_eq, String.toList_ofList]
  · exact Scanner.all_of_next_some (Scanner.next_eq_some.2 hfinds)

theorem lexes_lBrace (rest : List Char) : Lexes .lBrace ['\x7b'] rest :=
  lexes_symbol rfl rfl rfl rfl nofun

theorem lexes_rBrace (rest : List Char) : Lexes .rBrace ['\x7d'] rest :=
  lexes_symbol rfl rfl rfl rfl nofun

/-- One colon is a token of its own unless another one follows. -/
theorem lexes_colon {rest : List Char} (hrest : rest.head? ≠ some ':') :
    Lexes .colon [':'] rest := by
  have hprefix : ∀ entry ∈ symbols, entry.1.toList.isPrefixOf (':' :: rest) = (entry.1 == ":") := by
    intro entry hentry
    have hall : ∀ entry ∈ symbols, entry.1 = ":" ∨ entry.1 = "::" ∨
        entry.1.toList ≠ [] ∧ entry.1.toList.head? ≠ some ':' := by decide +kernel
    rcases hall entry hentry with h | h | ⟨hne, hhead⟩
    · rw [h]
      rfl
    · rw [h]
      cases rest with
      | nil => rfl
      | cons x rest =>
        have hx : (':' == x) = false := beq_false_of_ne fun h => hrest (congrArg some h.symm)
        show (':' == ':' && (':' == x && [].isPrefixOf rest)) = _
        rw [hx]
        rfl
    · obtain ⟨x, word, hword⟩ := List.exists_cons_of_ne_nil hne
      have hx : x ≠ ':' := fun h => hhead (by rw [hword, h]; rfl)
      rw [hword]
      show (x == ':' && word.isPrefixOf rest) = _
      rw [beq_false_of_ne hx, beq_false_of_ne (fun h => hx ?_)]
      · rfl
      · rw [h] at hword
        exact (List.cons.inj hword).1.symm
  have hsymbol : symbol? (':' :: rest) = some (.colon, rest) := by
    rw [symbol?, List.find?_congr hprefix]
    rfl
  exact lexes_symbol rfl rfl hsymbol rfl (by decide)

/-- What a name begins with is none of the characters that other tokens begin with. -/
theorem isNameStart_ne {head : Char} (hhead : isNameStart head = true) (x : Char)
    (hx : isNameStart x = false) : (head == x) = false := by
  refine beq_false_of_ne ?_
  rintro rfl
  rw [hhead] at hx
  cases hx

theorem isDigit_name {head : Char} (hhead : isNameStart head = true) : head.isDigit = false := by
  simp only [isNameStart, Char.isAlpha, Char.isUpper, Char.isLower, Char.isDigit, Bool.or_eq_true,
    Bool.and_eq_true, decide_eq_true_eq, beq_iff_eq, Bool.and_eq_false_iff, decide_eq_false_iff_not,
    ge_iff_le, UInt32.le_iff_toNat_le, Char.toNat] at hhead ⊢
  rcases hhead with (h | rfl) | h
  · simp at h ⊢
    omega
  · decide
  · simp at h ⊢
    omega

/-- No number begins with the first letter of a name. -/
theorem Number.scan?_name {head : Char} (hhead : isNameStart head = true) (text : List Char) :
    Number.scan? (head :: text) = none := by
  have hzero : head ≠ '0' := beq_eq_false_iff_ne.1 (isNameStart_ne hhead '0' rfl)
  have hdot : head ≠ '.' := beq_eq_false_iff_ne.1 (isNameStart_ne hhead '.' rfl)
  have hbased : Number.based? (head :: text) = none :=
    Number.based?.eq_2 _ fun mark rest heq => hzero (List.cons.inj heq).1
  have hrun : Number.run? Char.isDigit (head :: text) = none :=
    if_neg (by rw [isDigit_name hhead]; exact Bool.false_ne_true)
  rw [Number.scan?.eq_def, hbased]
  dsimp only
  split
  · rename_i heq
    exact absurd (List.cons.inj heq).1 hdot
  · rw [hrun]

/-- A keyword ends where no character of a name follows. -/
theorem lexes_keyword {kind : TokenKind} {word : String} {rest : List Char}
    (hname : isName word.toList = true) (hrest : rest.head?.any isNameChar = false)
    (hkeyword : TokenKind.keyword? word = some kind) (hk : kind ≠ .closeTag) :
    Lexes kind word.toList rest := by
  obtain ⟨head, name, hword⟩ : ∃ head name, word.toList = head :: name := by
    cases hword : word.toList with
    | nil =>
      rw [hword] at hname
      cases hname
    | cons head name => exact ⟨head, name, rfl⟩
  rw [← String.ofList_toList (s := word), hword] at hkeyword
  rw [hword] at hname ⊢
  obtain ⟨hhead, hname⟩ := Bool.and_eq_true_iff.1 hname
  refine ⟨⟨_, _, rfl, ?_⟩, hk, ?_⟩
  · refine Bool.eq_false_iff.2 fun hblank => ?_
    simp only [isBlank, Bool.or_eq_true, beq_iff_eq] at hblank
    rcases hblank with (((rfl | rfl) | rfl) | rfl) | rfl <;> exact absurd hhead (by decide)
  rintro src c _ _ hc ⟨⟩
  obtain ⟨htake, hdrop⟩ := takeWhile_name (List.all_eq_true.1 hname) hrest
  have hother : ∀ x, isNameStart x = false → (head == x) = false := isNameStart_ne hhead
  have hlabel : (((head :: (name ++ rest)).take 3) == "<<<".toList) = false := by
    refine beq_false_of_ne fun heq => ?_
    obtain ⟨hlt, -⟩ := List.cons.inj
      (show head :: (name ++ rest).take 2 = '<' :: ['<', '<'] from heq)
    exact beq_eq_false_iff_ne.1 (hother '<' rfl) hlt
  rw [Scanner.headToken]
  simp only [hc, List.append_eq, hother '\'' rfl, hother '"' rfl, hother '\x60' rfl, hother '#' rfl,
    hother '/' rfl, hlabel, Number.scan?_name hhead, hhead, htake, hdrop, hkeyword, Bool.false_and,
    Bool.false_eq_true, if_false, if_true, Option.getD_some]

/-! ### The same tokens in two texts -/

theorem Token.Alike.append {whole : List Char} {lo₁ lo₂ : Nat} {t₁ t₂ : Token}
    (h : t₁.Alike whole lo₁ lo₂ t₂) (more : List Char) : t₁.Alike (whole ++ more) lo₁ lo₂ t₂ := by
  obtain ⟨front, back, rfl, hstart⟩ := h.stands
  exact ⟨h.kind, h.text, ⟨front, back ++ more, by simp, hstart⟩, h.stop₁, h.stop₂⟩

namespace Scanner

/-- A brace that closes is one character. -/
theorem text_of_rBrace {src : Source} {s : Scanner} {toks : List Token} {e : Token}
    (hall : s.all src = toks.map .ok) (he : e ∈ toks) (hk : e.kind = .rBrace) :
    e.text.toList = ['\x7d'] := by
  induction toks generalizing s with
  | nil => cases he
  | cons t toks ih =>
    obtain ⟨s', hnext, hrest, -⟩ := next_of_all hall
    have hfinds := next_eq_some.1 hnext
    rcases List.mem_cons.1 he with rfl | he
    · cases hmode : s.mode with
      | markup => exact absurd hk (hfinds.of_markup hmode).2
      | code =>
        cases hfinds with
        | html | opening => cases hmode
        | code hc ht | closing hc ht => exact headToken_rBrace rfl ht hk
    · exact ih hrest he

variable {src₁ : Source} {toks : List Token} {e : Token} {before inner more more₂ : List Char}
  {lo₁ : Nat}

/-- Up to a parenthesis behind which stands a brace in the one text, the tokens are the same. -/
theorem split_head (src₂ : Source) (hall : tokenize src₁ = toks.map .ok)
    (hsrc₁ : src₁.chars = before ++ ')' :: ' ' :: '\x7b' :: more)
    (hsrc₂ : src₂.chars = before ++ ')' :: more₂) (he : e ∈ toks)
    (hstart : e.span.start = byteSize before + 2) :
    ∃ (ts₁ ts₂ us₁ : List Token) (t₁ t₂ brace : Token),
      List.Forall₂ (Token.Alike (before ++ [')']) 0 0) (ts₁ ++ [t₁]) (ts₂ ++ [t₂]) ∧
      t₁.kind = .rParen ∧ brace.kind = .lBrace ∧ brace.span.start = byteSize before + 2 ∧
      brace.span.stop = byteSize before + 3 ∧ toks = ts₁ ++ [t₁] ++ brace :: us₁ ∧
      (Scanner.mk .code { offset := byteSize before + 3, rest := more }).all src₁ = us₁.map .ok ∧
      tokenize src₂ = (ts₂ ++ [t₂]).map .ok ++
        (Scanner.mk .code { offset := byteSize before + 1, rest := more₂ }).all src₂ := by
  have hseam : Seam ')' [' '] '\x7b' := ⟨.inl rfl, by simp, .inl rfl, nofun⟩
  have habreast : Abreast before 0 0 (')' :: ([' '] ++ '\x7b' :: more)) (')' :: more₂)
    (ofSource src₁)
      (ofSource src₂) := by
    refine ⟨rfl, [], before, rfl, ?_, ?_⟩
    · rw [ofSource, hsrc₁]
      rfl
    · rw [ofSource, hsrc₂]
      rfl
  have hone : byteSize [')'] = 1 ∧ byteSize [' '] = 1 ∧ byteSize ['\x7b'] = 1 ∧
    byteSize [')', ' '] = 2 :=
    ⟨rfl, rfl, rfl, rfl⟩
  obtain ⟨ts₁, ts₂, hts, hall₁, hall₂⟩ := habreast.split src₂ hseam hall he
    (by rw [hstart, hone.2.2.2, Nat.zero_add]) nofun
  obtain ⟨t₁, hk₁, htext₁, hstart₁, hstop₁, hnext₁⟩ :=
    (lexes_rParen (' ' :: '\x7b' :: more)).all src₁ (0 + byteSize before)
  obtain ⟨t₂, hk₂, htext₂, hstart₂, hstop₂, hnext₂⟩ :=
    (lexes_rParen more₂).all src₂ (0 + byteSize before)
  obtain ⟨brace, hk, htext, hstart', hstop, hnext⟩ :=
    (lexes_lBrace more).all src₁ (byteSize before + 2)
  have hspace : ∀ x ∈ [' '], isBlank x = true := by simp [isBlank]
  have hblank := all_of_blank src₁ (byteSize before + 1) ('\x7b' :: more) hspace
  rw [Nat.zero_add] at hall₁ hall₂ hnext₁ hnext₂
  have hrest₁ : (Scanner.mk .code
      { offset := byteSize before, rest := ')' :: ([' '] ++ '\x7b' :: more) }).all src₁ =
      .ok t₁ :: .ok brace :: (Scanner.mk .code { offset := byteSize before + 3, rest := more }).all
        src₁ :=
    hnext₁.trans (congrArg _ (hblank.trans hnext))
  have hsplit : toks.map .ok = (ts₁ ++ [t₁]).map .ok ++ .ok brace ::
      (Scanner.mk .code { offset := byteSize before + 3, rest := more }).all src₁ := by
    rw [← hall, tokenize, hall₁, hrest₁, List.map_append, List.append_assoc]
    rfl
  obtain ⟨front, back, rfl, hfront, hback⟩ := List.map_eq_append_iff.1 hsplit
  obtain ⟨brace', us₁, rfl, hbrace, hus₁⟩ := List.map_eq_cons_iff.1 hback
  obtain rfl := Except.ok.inj hbrace
  obtain rfl := List.map_injective_iff.2 (fun _ _ h => Except.ok.inj h) hfront
  refine ⟨ts₁, ts₂, us₁, t₁, t₂, brace', ?_, hk₁, hk, hstart', hstop, rfl, hus₁.symm, ?_⟩
  · have hparen : t₁.Alike (before ++ [')']) 0 0 t₂ := by
      refine ⟨hk₁.trans hk₂.symm, ?_, ⟨before, [], by simp [htext₁], hstart₁, hstart₂⟩, ?_, ?_⟩
      · exact String.toList_inj.1 (htext₁.trans htext₂.symm)
      · rw [hstop₁, hstart₁, htext₁]
      · rw [hstop₂, hstart₂, htext₂]
    exact List.rel_append (hts.imp fun _ _ h => h.append _) (.cons hparen .nil)
  · rw [tokenize, hall₂, List.map_append, List.append_assoc]
    exact congrArg _ hnext₂

/-- Up to a line end behind which stands a brace that closes a block in the one text, the tokens are
the same. -/
theorem split_body (src₂ : Source) (lo₂ : Nat) (more₂ : List Char)
    (hall : (Scanner.mk .code { offset := lo₁, rest := inner ++ ['\n', '\x7d'] }).all src₁ =
      toks.map .ok)
    (he : e ∈ toks) (hk : e.kind = .rBrace) (hstart : e.span.start = lo₁ + byteSize inner + 1) :
    ∃ (ts₁ ts₂ : List Token) (brace : Token), List.Forall₂ (Token.Alike inner lo₁ lo₂) ts₁ ts₂ ∧
      brace.kind = .rBrace ∧ toks = ts₁ ++ [brace] ∧
      (Scanner.mk .code { offset := lo₂, rest := inner ++ '\n' :: more₂ }).all src₂ = ts₂.map .ok ++
        (Scanner.mk .code { offset := lo₂ + byteSize inner + 1, rest := more₂ }).all src₂ := by
  have hseam : Seam '\n' [] '\x7d' := ⟨.inr rfl, nofun, .inr rfl, fun _ => rfl⟩
  have habreast : Abreast inner lo₁ lo₂ ('\n' :: ([] ++ '\x7d' :: [])) ('\n' :: more₂)
      (.mk .code { offset := lo₁, rest := inner ++ ['\n', '\x7d'] })
      (.mk .code { offset := lo₂, rest := inner ++ '\n' :: more₂ }) :=
        ⟨rfl, [], inner, rfl, rfl, rfl⟩
  obtain ⟨ts₁, ts₂, hts, hall₁, hall₂⟩ := habreast.split src₂ hseam hall he hstart fun _ => hk
  obtain ⟨brace, hk', -, -, -, hnext⟩ := (lexes_rBrace []).all src₁ (lo₁ + byteSize inner + 1)
  have hline : ∀ x ∈ ['\n'], isBlank x = true := by simp [isBlank]
  have hblank₁ := all_of_blank src₁ (lo₁ + byteSize inner) ['\x7d'] hline
  have hblank₂ := all_of_blank src₂ (lo₂ + byteSize inner) more₂ hline
  refine ⟨ts₁, ts₂, brace, hts, hk', ?_, hall₂.trans (congrArg _ hblank₂)⟩
  have hend := hblank₁.trans (hnext.trans (congrArg _ (all_of_rest_nil rfl)))
  have hmap : toks.map Except.ok = (ts₁ ++ [brace]).map (Except.ok (ε := SyntaxError)) := by
    rw [← hall, hall₁, List.map_append]
    exact congrArg _ hend
  exact List.map_injective_iff.2 (fun _ _ h => Except.ok.inj h) hmap

end Scanner

end PhpCheck
