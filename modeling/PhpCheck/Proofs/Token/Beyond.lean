import PhpCheck.Proofs.Grammar.Heredocs
import PhpCheck.Proofs.Token.Context

/-!
One token, whatever stands behind it.

Where a token ends does not depend on what stands behind it, as long as the first character there
stays the same and is one that ends names, numbers and symbols (`Beyond`).  So the same token is
cut off where the same text stands in front of such a character (`Scanner.headToken_beyond`).
-/

namespace PhpCheck

/-! ### Heredocs -/

section

variable {src src' : Source} {start start' : Nat} {c c' : Cursor} {kind : TokenKind}
  {text rest : List Char}

/-- A text begins with a quote in front of a label, or with none. -/
theorem exists_form (text : List Char) : let quote := text.head?.filter fun q =>
  q == '\'' || q == '"'
    ∃ form : HeredocForm, quote = form.quote? ∧
      text = quote.toList ++ (if quote.isSome then text.drop 1 else text) := by
  cases text with
  | nil => exact ⟨.bare, rfl, rfl⟩
  | cons y ys =>
    by_cases hsingle : y = '\''
    · exact ⟨.single, by rw [hsingle]; rfl, by rw [hsingle]; rfl⟩
    by_cases hdouble : y = '"'
    · exact ⟨.double, by rw [hdouble]; rfl, by rw [hdouble]; rfl⟩
    · exact ⟨.bare, by simp [hsingle, hdouble, HeredocForm.quote?], by simp [hsingle, hdouble]⟩

theorem lineEnd_of_body {line body : List Char} (hbody : (match line with
      | '\r' :: '\n' :: rest => some rest
      | '\n' :: rest => some rest
      | _ => none) = some body) : ∃ lineEnd, IsLineEnd lineEnd ∧ line = lineEnd ++ body := by
  split at hbody
  · obtain rfl := Option.some.inj hbody
    exact ⟨['\r', '\n'], .inr rfl, rfl⟩
  · obtain rfl := Option.some.inj hbody
    exact ⟨['\n'], .inl rfl, rfl⟩
  · cases hbody

/-- What a heredoc consists of: its label as it is written, the end of that line, and the text up
to the label that closes it. -/
theorem heredoc_parts (hr : heredoc src start c = .ok (kind, rest)) :
    ∃ (form : HeredocForm) (label lineEnd body : List Char),
      c.rest.dropWhile isIndent = form.enclose label ++ (lineEnd ++ body) ∧ label ≠ [] ∧
        (∀ x ∈ label, isNameChar x = true) ∧ IsLineEnd lineEnd ∧
          heredocEnd? label true body = some rest ∧ kind = form.kind := by
  unfold heredoc at hr
  obtain ⟨form, hquote, htext⟩ := exists_form (c.rest.dropWhile isIndent)
  extract_lets fail text quote afterQuote label afterLabel line body? at hr
  replace hquote : quote = form.quote? := hquote
  replace htext : text = quote.toList ++ afterQuote := htext
  have hsplit : afterQuote = label ++ afterLabel := List.takeWhile_append_dropWhile.symm
  split at hr
  · cases hr
  rename_i hlabel
  split at hr
  · cases hr
  rename_i hclosed
  have hclose : afterLabel = quote.toList ++ line := by
    show afterLabel = quote.toList ++ (if quote.isSome then afterLabel.drop 1 else afterLabel)
    cases hq : quote with
    | none => rfl
    | some q =>
      have hhead : afterLabel.head? = some q := by simpa [hq] using hclosed
      obtain ⟨more, hmore⟩ := List.head?_eq_some_iff.1 hhead
      rw [hmore]
      rfl
  have hbody : ∀ body, body? = some body → ∃ lineEnd, IsLineEnd lineEnd ∧ line = lineEnd ++ body :=
    fun body => lineEnd_of_body
  clear_value body? line
  cases body? with
  | none => cases hr
  | some body =>
  dsimp only at hr
  split at hr
  · rename_i after hend
    obtain ⟨rfl, rfl⟩ := Prod.mk.inj (Except.ok.inj hr)
    obtain ⟨lineEnd, hlineEnd, rfl⟩ := hbody body rfl
    refine ⟨form, label, lineEnd, body, ?_, ?_, fun x hx => ?_, hlineEnd, hend, ?_⟩
    · show text = _
      rw [htext, hsplit, hclose, hquote, HeredocForm.enclose]
      simp only [List.append_assoc]
    · rintro hnil
      exact hlabel (by rw [hnil]; rfl)
    · exact List.mem_takeWhile_imp hx
    · rw [hquote]
      cases form <;> rfl
  · cases hr

end

/-! ### One token -/

/-- What stands behind a text in two places is the same, or begins with the same character of those
that a token in front of it does not go on with. -/
def Beyond (after after' : List Char) : Prop :=
  after = after' ∨ ∃ g more more', (g = ')' ∨ g = '\n') ∧ after = g :: more ∧ after' = g :: more'

section

variable {text rest after after' : List Char} (hbeyond : Beyond after after')

theorem halts_of_end {g : Char} (hg : g = ')' ∨ g = '\n') : halts g = true := by
  rcases hg with rfl | rfl <;> rfl

theorem isIndent_of_end {g : Char} (hg : g = ')' ∨ g = '\n') : isIndent g = false := by
  rcases hg with rfl | rfl <;> rfl

include hbeyond

theorem lineCommentEnd_beyond (hrest : lineCommentEnd (text ++ after) = rest ++ after) :
    lineCommentEnd (text ++ after') = rest ++ after' := by
  obtain rfl | ⟨g, more, more', hg, rfl, rfl⟩ := hbeyond
  · exact hrest
  · exact lineCommentEnd_halt (halts_of_end hg) hrest

theorem scan?_beyond {kind : TokenKind}
    (hscan : Number.scan? (text ++ after) = some (kind, rest ++ after)) :
    Number.scan? (text ++ after') = some (kind, rest ++ after') := by
  obtain rfl | ⟨g, more, more', hg, rfl, rfl⟩ := hbeyond
  · exact hscan
  · rw [Number.scan?_halt (halts_of_end hg)] at hscan ⊢
    obtain ⟨found, hfound, heq⟩ := Option.map_eq_some_iff.1 hscan
    obtain ⟨rfl, hrest⟩ := Prod.mk.inj heq
    rw [hfound, Option.map_some, List.append_cancel_right hrest]

theorem isSome_scan?_beyond :
    (Number.scan? (text ++ after')).isSome = (Number.scan? (text ++ after)).isSome := by
  obtain rfl | ⟨g, more, more', hg, rfl, rfl⟩ := hbeyond
  · rfl
  · rw [Number.scan?_halt (halts_of_end hg), Number.scan?_halt (halts_of_end hg), Option.isSome_map,
      Option.isSome_map]

theorem symbol?_beyond {x : Char} {kind : TokenKind}
    (hsymbol : symbol? (x :: (text ++ after)) = some (kind, rest ++ after)) :
    symbol? (x :: (text ++ after')) = some (kind, rest ++ after') := by
  obtain rfl | ⟨g, more, more', hg, rfl, rfl⟩ := hbeyond
  · exact hsymbol
  · rw [symbol?_halt (halts_of_end hg)] at hsymbol ⊢
    obtain ⟨found, hfound, heq⟩ := Option.map_eq_some_iff.1 hsymbol
    obtain ⟨rfl, hrest⟩ := Prod.mk.inj heq
    rw [hfound, Option.map_some, List.append_cancel_right hrest]

theorem takeWhile_beyond : (text ++ after').takeWhile isNameChar =
    (text ++ after).takeWhile isNameChar := by
  obtain rfl | ⟨g, more, more', hg, rfl, rfl⟩ := hbeyond
  · rfl
  · have hname := isNameChar_halt (halts_of_end hg)
    rw [takeWhile_halt _ _ hname, takeWhile_halt _ _ hname]

theorem dropWhile_beyond (hrest : (text ++ after).dropWhile isNameChar = rest ++ after) :
    (text ++ after').dropWhile isNameChar = rest ++ after' := by
  obtain rfl | ⟨g, more, more', hg, rfl, rfl⟩ := hbeyond
  · exact hrest
  · have hname := isNameChar_halt (halts_of_end hg)
    rw [dropWhile_halt _ _ hname] at hrest ⊢
    rw [List.append_cancel_right hrest]

theorem heredoc_beyond {src src' : Source} {start start' : Nat} {c c' : Cursor} {kind : TokenKind}
    (hc : c.rest = text ++ after) (hc' : c'.rest = text ++ after')
    (hd : heredoc src start c = .ok (kind, rest ++ after)) :
    heredoc src' start' c' = .ok (kind, rest ++ after') := by
  obtain ⟨form, label, lineEnd, body, hparts, hne, hlabel, hlineEnd, hend, rfl⟩ := heredoc_parts hd
  obtain ⟨inner, rfl⟩ := heredocEnd?_suffix hend
  have hwhole : text ++ after = c.rest.takeWhile isIndent ++
      (form.enclose label ++ (lineEnd ++ (inner ++ rest))) ++ after := by
    rw [← hc]
    refine (List.takeWhile_append_dropWhile (p := isIndent)).symm.trans ?_
    rw [hparts]
    simp only [List.append_assoc]
  obtain rfl := List.append_cancel_right hwhole
  have hend' : heredocEnd? label true (inner ++ rest ++ after') = some (rest ++ after') := by
    obtain rfl | ⟨g, more, more', hg, rfl, rfl⟩ := hbeyond
    · simpa using hend
    · have hend' : heredocEnd? label true (inner ++ rest ++ g :: more) =
        some (rest ++ g :: more) := by
        simpa using hend
      exact heredocEnd?_halt (halts_of_end hg) (isIndent_of_end hg) hlabel hend'
  refine heredoc_eq form hne hlabel hlineEnd hend' ?_
  obtain ⟨x, more, hhead, hindent, -⟩ :=
    form.head_enclose (lineEnd ++ (inner ++ rest ++ after')) hne hlabel
  rw [hc', List.append_assoc, List.dropWhile_append_of_pos fun _ hx => List.mem_takeWhile_imp hx]
  have happend : form.enclose label ++ (lineEnd ++ (inner ++ rest)) ++ after' = x :: more := by
    rw [← hhead]
    simp
  rw [happend, hhead]
  exact List.dropWhile_cons_of_neg (by rw [hindent]; nofun)

end

theorem Cursor.Passes.eq_upTo {c d : Cursor} {text : List Char} (hd : c.Passes text d) :
    d = c.upTo d.rest := by
  obtain ⟨offset, rest⟩ := d
  have hoffset : offset = c.offset + byteSize text := hd.offset
  rw [Cursor.upTo, hd.take_eq, hoffset]

theorem head?_beyond (hbeyond : Beyond after after') (text : List Char) :
    (text ++ after').head? = (text ++ after).head? := by
  obtain rfl | ⟨g, more, more', -, rfl, rfl⟩ := hbeyond
  · rfl
  · cases text <;> rfl

theorem take_beyond (hbeyond : Beyond after after') (text word : List Char)
    (hword : ∀ c ∈ word, halts c = false) :
    ((text ++ after').take word.length == word) = ((text ++ after).take word.length == word) := by
  obtain rfl | ⟨g, more, more', hg, rfl, rfl⟩ := hbeyond
  · rfl
  have hmem : g ∉ word := fun h => by
    have hno := hword g h
    rw [halts_of_end hg] at hno
    cases hno
  have hprefix : ∀ more, ((text ++ g :: more).take word.length == word) = true ↔ word <+: text := by
    intro more
    rw [beq_iff_eq, ← prefix_halt text more hmem, List.prefix_iff_eq_take, eq_comm]
  rw [Bool.eq_iff_iff, hprefix, hprefix]

namespace Scanner

section

variable {src src' : Source} {c c' last : Cursor} {head : Char} {tail rest after after' : List Char}
  {tok : Token}

theorem beginning_beyond (hbeyond : Beyond after after') (head : Char) (tail : List Char) :
    beginning head (tail ++ after') = beginning head (tail ++ after) := by
  have htake : ((head :: (tail ++ after')).take 3 == "<<<".toList) =
      ((head :: (tail ++ after)).take 3 == "<<<".toList) :=
    take_beyond hbeyond (head :: tail) ['<', '<', '<'] (by simp [halts])
  have hscan : (Number.scan? (head :: tail ++ after')).isSome =
      (Number.scan? (head :: tail ++ after)).isSome := isSome_scan?_beyond hbeyond
  rw [List.cons_append, List.cons_append] at hscan
  rw [beginning, beginning, head?_beyond hbeyond, htake, hscan]

section

variable {b : Beginning} {kind : TokenKind} (hlast : last.rest = rest ++ after)

include hlast

theorem Extent.quote_beyond {q : Quote} (hc' : c'.rest = head :: (tail ++ after'))
    (hopening : q.opening <+: head :: (tail ++ after))
    (hclose : (q.inside c.offset).close [] (c.offset + q.opening.length)
      ((head :: (tail ++ after)).drop q.opening.length) = .ok last) :
    Extent src' c' head (tail ++ after') (.quote q) q.kind (c'.upTo (rest ++ after')) := by
  obtain ⟨others, hothers⟩ := hopening
  rw [← hothers, List.drop_left] at hclose
  obtain ⟨inner, hinner, rfl⟩ : ∃ inner, head :: tail = q.opening ++ inner ∧
    inner ++ after = others := by
    obtain ⟨m, -, hafter⟩ | ⟨m, hm, hrest⟩ := List.append_eq_append_iff.1
      (show head :: tail ++ after = q.opening ++ others from hothers.symm)
    · have hlt := Enclosure.close_length_lt hclose
      have hlength := congrArg List.length hafter
      rw [hlast, List.length_append] at hlt
      rw [List.length_append] at hlength
      omega
    · exact ⟨m, hm, hrest.symm⟩
  have hwhole : head :: (tail ++ after') = q.opening ++ (inner ++ after') := by
    rw [← List.append_assoc, ← hinner]
    rfl
  have hinside : (q.inside c'.offset).unplaced = (q.inside c.offset).unplaced := by cases q <;> rfl
  obtain ⟨e, he, hrest⟩ : ∃ e, (q.inside c'.offset).close [] (c'.offset + q.opening.length)
      (inner ++ after') = .ok e ∧ e.rest = rest ++ after' :=
    Enclosure.close_before hinside rfl hclose hlast
  obtain ⟨x, text, hpass⟩ := Enclosure.close_passes he
  have hmark : c'.Passes q.opening
      { offset := c'.offset + q.opening.length, rest := inner ++ after' } :=
    ⟨hc'.trans hwhole, by rw [q.byteSize_opening]⟩
  rw [← hrest, ← (hmark.trans hpass).eq_upTo]
  refine .quote ?_
  rw [hwhole, List.drop_left]
  exact he

theorem Extent.slashComment_beyond (hbeyond : Beyond after after')
    (hopening : ['/', '/'] <+: head :: (tail ++ after))
    (hend : lineCommentEnd ((tail ++ after).drop 1) = last.rest) :
    lineCommentEnd ((tail ++ after').drop 1) = rest ++ after' := by
  obtain ⟨others, hothers⟩ := (List.cons_prefix_cons.1 hopening).2
  rw [← hothers, hlast] at hend
  have hend' : lineCommentEnd others = rest ++ after := hend
  have hle := (lineCommentEnd_suffix others).length_le
  rw [hend', List.length_append] at hle
  obtain ⟨more, rfl, rfl⟩ := cons_of_append_eq hothers.symm (Nat.le_trans (Nat.le_add_left _ _) hle)
  exact lineCommentEnd_beyond hbeyond hend'

theorem Extent.blockComment_beyond (hopening : ['/', '*'] <+: head :: (tail ++ after))
    (hend : blockCommentEnd? ((tail ++ after).drop 1) = some last.rest) :
    Extent src' c' head (tail ++ after') .blockComment
      (commentKind ((head :: (tail ++ after)).take
        ((head :: (tail ++ after)).length - last.rest.length)))
      (c'.upTo (rest ++ after')) := by
  obtain ⟨others, hothers⟩ := (List.cons_prefix_cons.1 hopening).2
  rw [hlast] at hend ⊢
  rw [← hothers] at hend
  replace hend : blockCommentEnd? others = some (rest ++ after) := hend
  have hle := (blockCommentEnd?_suffix hend).length_le
  rw [List.length_append] at hle
  obtain ⟨more, rfl, rfl⟩ := cons_of_append_eq hothers.symm (Nat.le_trans (Nat.le_add_left _ _) hle)
  obtain ⟨inner, hinner⟩ := blockCommentEnd?_suffix hend
  obtain rfl : inner ++ rest = more :=
    List.append_cancel_right ((List.append_assoc ..).trans hinner)
  have htaken : ∀ after, (head :: ('*' :: (inner ++ rest) ++ after)).take
      ((head :: ('*' :: (inner ++ rest) ++ after)).length - (rest ++ after).length) =
        head :: '*' :: inner := by
    intro after
    have hwhole : head :: ('*' :: (inner ++ rest) ++ after) =
        head :: '*' :: inner ++ (rest ++ after) := by simp
    rw [hwhole, List.length_append, Nat.add_sub_cancel, List.take_left]
  have hextent : Extent src' c' head ('*' :: (inner ++ rest) ++ after') .blockComment _ _ :=
    .blockComment (blockCommentEnd?_before hend)
  rw [htaken] at hextent ⊢
  exact hextent

theorem Extent.heredoc_beyond (hbeyond : Beyond after after')
    (hc : c.rest = head :: (tail ++ after))
    (hc' : c'.rest = head :: (tail ++ after'))
    (hopening : ['<', '<', '<'] <+: head :: (tail ++ after))
    (hread : PhpCheck.heredoc src c.offset (c.skip 3) = .ok (kind, last.rest)) :
    Extent src' c' head (tail ++ after') .heredoc kind (c'.upTo (rest ++ after')) := by
  have hle := (heredoc_suffix hread).1.length_le
  rw [hlast] at hread hle
  rw [Cursor.skip, hc, List.length_append] at hle
  obtain ⟨inner, rfl⟩ : ∃ inner, tail = ['<', '<'] ++ inner := by
    obtain ⟨others, hothers⟩ := (List.cons_prefix_cons.1 hopening).2
    rw [List.drop_succ_cons, ← hothers] at hle
    have hle' : after.length ≤ others.length := Nat.le_trans (Nat.le_add_left _ _) hle
    obtain ⟨more, rfl, hmore⟩ := cons_of_append_eq hothers.symm (Nat.le_succ_of_le hle')
    obtain ⟨inner, rfl, -⟩ := cons_of_append_eq hmore hle'
    exact ⟨inner, rfl⟩
  have hskip : ∀ {c : Cursor} {after : List Char}, c.rest = head :: (['<', '<'] ++ inner ++ after) →
      (c.skip 3).rest = inner ++ after := by
    rintro c after hrest
    rw [Cursor.skip, hrest]
    rfl
  exact .heredoc (PhpCheck.heredoc_beyond hbeyond (hskip hc) (hskip hc') hread)

theorem Extent.beyond (hbeyond : Beyond after after') (hc : c.rest = head :: (tail ++ after))
    (hc' : c'.rest = head :: (tail ++ after')) (hopening : b.opening <+: head :: (tail ++ after))
    (h : Extent src c head (tail ++ after) b kind last) :
    Extent src' c' head (tail ++ after') b kind (c'.upTo (rest ++ after')) := by
  cases h with
  | quote hclose => exact Extent.quote_beyond hlast hc' hopening hclose
  | hashComment =>
    rw [← lineCommentEnd_beyond hbeyond hlast]
    exact .hashComment
  | slashComment =>
    rw [← Extent.slashComment_beyond hlast hbeyond hopening rfl]
    exact .slashComment
  | blockComment hend => exact Extent.blockComment_beyond hlast hopening hend
  | heredoc hread => exact Extent.heredoc_beyond hlast hbeyond hc hc' hopening hread
  | number hscan =>
    obtain rfl := hlast
    have hscan' : Number.scan? (head :: tail ++ after') = some (kind, rest ++ after') :=
      scan?_beyond hbeyond hscan
    exact .number hscan'
  | name =>
    rw [← takeWhile_beyond hbeyond, ← dropWhile_beyond hbeyond hlast]
    exact .name
  | variableName =>
    rw [← dropWhile_beyond hbeyond hlast]
    exact .variableName
  | symbol hsymbol =>
    obtain rfl := hlast
    exact .symbol (symbol?_beyond hbeyond hsymbol)

end

/-- A token is the same whatever stands behind it, up to the first character there. -/
theorem headToken_beyond (hbeyond : Beyond after after') (hc : c.rest = head :: (tail ++ after))
    (hc' : c'.rest = head :: (tail ++ after'))
    (ht : headToken src c head (tail ++ after) = (.ok tok, last))
    (hlast : last.rest = rest ++ after) :
    headToken src' c' head (tail ++ after') =
      (.ok (token src' tok.kind c' (c'.upTo (rest ++ after'))), c'.upTo (rest ++ after')) := by
  obtain ⟨kind, hextent, rfl⟩ := (headToken_iff hc).1 ht
  have hextent' : Extent src' c' head (tail ++ after') _ kind _ :=
    hextent.beyond hlast hbeyond hc hc' (opening_stands _ _)
  rw [← beginning_beyond hbeyond] at hextent'
  exact (headToken_iff hc').2 ⟨kind, hextent', rfl⟩

end

/-! ### Text outside tags -/

section

variable {rest after after' : List Char}

theorem markupLength_cons (x : Char) (rest : List Char) : markupLength (x :: rest) =
    if x = '<' ∧ rest.head? = some '?' then 0 else markupLength rest + 1 := by
  split
  · rename_i h
    obtain ⟨more, rfl⟩ := List.head?_eq_some_iff.1 h.2
    rw [h.1]
    rfl
  · rename_i h
    rw [markupLength.eq_3]
    rintro more rfl rfl
    exact h ⟨rfl, rfl⟩

/-- Text outside tags ends in front of an opening tag, or with the whole text. -/
theorem markupLength_spec (text : List Char) : ∃ html more, text = html ++ more ∧
    markupLength text = html.length ∧ (more = [] ∨ ∃ others, more = '<' :: '?' :: others) := by
  induction text with
  | nil => exact ⟨[], [], rfl, rfl, .inl rfl⟩
  | cons x rest ih =>
    rw [markupLength_cons]
    split
    · rename_i h
      obtain ⟨others, rfl⟩ := List.head?_eq_some_iff.1 h.2
      exact ⟨[], _, rfl, rfl, .inr ⟨others, by rw [h.1]⟩⟩
    · obtain ⟨html, more, rfl, hlength, hmore⟩ := ih
      exact ⟨x :: html, more, rfl, by rw [hlength]; rfl, hmore⟩

theorem markupLength_beyond (hbeyond : Beyond after after') (text : List Char)
    (hle : markupLength (text ++ after) ≤ text.length) :
    markupLength (text ++ after') = markupLength (text ++ after) := by
  induction text with
  | nil =>
    obtain rfl | ⟨g, more, more', hg, rfl, rfl⟩ := hbeyond
    · rfl
    · have hne : g ≠ '<' := by rcases hg with rfl | rfl <;> decide
      rw [List.nil_append, markupLength_cons, if_neg fun h => hne h.1] at hle
      exact absurd hle (Nat.not_succ_le_zero _)
  | cons x text ih =>
    rw [List.cons_append, markupLength_cons, List.length_cons] at hle
    rw [List.cons_append, List.cons_append, markupLength_cons, markupLength_cons,
      head?_beyond hbeyond]
    split
    · rfl
    · rename_i h
      rw [if_neg h] at hle
      rw [ih (Nat.le_of_succ_le_succ hle)]

theorem toLower_beyond (hbeyond : Beyond after after') :
    Beyond (after.map Char.toLower) (after'.map Char.toLower) := by
  obtain rfl | ⟨g, more, more', hg, rfl, rfl⟩ := hbeyond
  · exact .inl rfl
  · have hlower : g.toLower = g := by rcases hg with rfl | rfl <;> rfl
    exact .inr ⟨g, _, _, hg, by rw [List.map_cons, hlower], by rw [List.map_cons, hlower]⟩

theorem openingTag_beyond (hbeyond : Beyond after after') (text : List Char) :
    openingTag (text ++ after') = openingTag (text ++ after) := by
  have htake : ∀ text : List Char, (text.take 5).map Char.toLower =
    (text.map Char.toLower).take 5 :=
    fun text => List.map_take
  have hecho := take_beyond hbeyond text ['<', '?', '='] (by simp [halts])
  have hphp := take_beyond (toLower_beyond hbeyond) (text.map Char.toLower)
    ['<', '?', 'p', 'h', 'p']
    (by simp [halts])
  rw [← List.map_append, ← List.map_append] at hphp
  rw [openingTag, openingTag, htake, htake]
  show (if (List.take 3 _ == ['<', '?', '=']) = true then _ else
    if (List.take 5 _ == ['<', '?', 'p', 'h', 'p']) = true then _ else _) = _
  rw [show List.length ['<', '?', '='] = 3 from rfl] at hecho
  rw [show List.length ['<', '?', 'p', 'h', 'p'] = 5 from rfl] at hphp
  rw [hecho, hphp]
  rfl

end

/-! ### One step -/

/-- How a step finds a token: outside tags the text up to the next opening tag, or that tag; in
code the token at the head of what follows the blanks. -/
inductive Finds (src : Source) : Scanner → Token → Scanner → Prop
  | html {c : Cursor} (hc : markupLength c.rest ≠ 0) :
    Finds src { mode := .markup, cursor := c }
      (token src .inlineHtml c (c.skip (markupLength c.rest)))
      { mode := .markup, cursor := c.skip (markupLength c.rest) }
  | opening {c : Cursor} (hne : c.rest ≠ []) (hc : markupLength c.rest = 0) :
    Finds src { mode := .markup, cursor := c }
      (token src (openingTag c.rest).1 c (c.skip (openingTag c.rest).2))
      { mode := .code, cursor := c.skip (openingTag c.rest).2 }
  | code {c last : Cursor} {head : Char} {tail : List Char} {t : Token}
    (hc : c.rest.dropWhile isBlank = head :: tail)
    (ht : headToken src (c.upTo (head :: tail)) head tail = (.ok t, last))
    (hk : t.kind ≠ .closeTag) :
    Finds src { mode := .code, cursor := c } t { mode := .code, cursor := last }
  | closing {c last : Cursor} {head : Char} {tail : List Char} {t : Token}
    (hc : c.rest.dropWhile isBlank = head :: tail)
    (ht : headToken src (c.upTo (head :: tail)) head tail = (.ok t, last))
    (hk : t.kind = .closeTag) :
    Finds src { mode := .code, cursor := c } t { mode := .markup, cursor := afterClosingTag last }

theorem next_eq_some {src : Source} {s s' : Scanner} {t : Token} :
    s.next src = (some (.ok t), s') ↔ Finds src s t s' := by
  constructor
  · intro hs
    obtain ⟨mode, c⟩ := s
    unfold next at hs
    cases mode with
    | markup =>
      dsimp only at hs
      split at hs
      · cases hs
      rename_i hne
      split at hs
      · rename_i hc
        obtain ⟨ht, rfl⟩ := Prod.mk.inj hs
        obtain rfl := Except.ok.inj (Option.some.inj ht)
        exact .opening hne hc
      · rename_i hc
        obtain ⟨ht, rfl⟩ := Prod.mk.inj hs
        obtain rfl := Except.ok.inj (Option.some.inj ht)
        exact .html hc
    | code =>
      dsimp only at hs
      split at hs
      · cases hs
      rename_i head tail hrest
      cases hhead : headToken src (c.upTo (c.rest.dropWhile isBlank)) head tail with
      | mk lexeme last =>
        have hc : c.rest.dropWhile isBlank = head :: tail := hrest
        rw [hhead] at hs
        rw [hc] at hhead
        dsimp only at hs
        split at hs
        · split at hs
          · rename_i hk
            obtain ⟨ht, rfl⟩ := Prod.mk.inj hs
            obtain rfl := Except.ok.inj (Option.some.inj ht)
            exact .closing hc hhead hk
          · rename_i hk
            obtain ⟨ht, rfl⟩ := Prod.mk.inj hs
            obtain rfl := Except.ok.inj (Option.some.inj ht)
            exact .code hc hhead hk
        · obtain ⟨ht, -⟩ := Prod.mk.inj hs
          cases Option.some.inj ht
  · intro hs
    cases hs with
    | @html c hc =>
      obtain ⟨offset, rest⟩ := c
      cases rest with
      | nil => exact absurd rfl hc
      | cons x rest => exact if_neg hc
    | @opening c hne hc =>
      obtain ⟨offset, rest⟩ := c
      cases rest with
      | nil => exact absurd rfl hne
      | cons x rest => exact if_pos hc
    | code hc ht hk =>
      rw [next]
      dsimp only
      rw [hc]
      dsimp only [Cursor.upTo] at ht ⊢
      rw [ht]
      exact if_neg hk
    | closing hc ht hk =>
      rw [next]
      dsimp only
      rw [hc]
      dsimp only [Cursor.upTo] at ht ⊢
      rw [ht]
      exact if_pos hk

end Scanner

end PhpCheck
