import PhpCheck.Proofs.Token.Beyond

/-!
The last character of a token.
-/

namespace PhpCheck

theorem append_singleton_inj {α : Type} {front others : List α} {x y : α}
    (h : front ++ [x] = others ++ [y]) : x = y := (List.append_inj' h rfl).2 |> List.singleton_inj.1

/-! ### The last character -/

section

variable {text rest front taken : List Char} {x : Char}

theorem lineCommentEnd_spec (text : List Char) : ∃ taken, text = taken ++ lineCommentEnd text ∧
    '\n' ∉ taken ∧ (lineCommentEnd text).head? ∈ [none, some '\n', some '?'] := by
  fun_induction lineCommentEnd text with
  | case1 => exact ⟨[], rfl, List.not_mem_nil, List.mem_cons_self⟩
  | case2 rest => exact ⟨[], rfl, List.not_mem_nil, by simp⟩
  | case3 c rest _ hc => exact ⟨[], rfl, List.not_mem_nil, by simp [beq_iff_eq.1 hc]⟩
  | case4 c rest _ hc ih =>
    obtain ⟨taken, htext, hnot, hhead⟩ := ih
    refine ⟨c :: taken, congrArg (c :: ·) htext, ?_, hhead⟩
    rw [List.mem_cons, not_or]
    exact ⟨fun h => hc (beq_iff_eq.2 h.symm), hnot⟩

theorem blockCommentEnd?_last (hr : blockCommentEnd? text = some rest) :
    ∃ inner, text = inner ++ '/' :: rest := by
  fun_induction blockCommentEnd? text with
  | case1 => cases hr
  | case2 more =>
    obtain rfl := Option.some.inj hr
    exact ⟨['*'], rfl⟩
  | case3 c more _ ih =>
    obtain ⟨inner, rfl⟩ := ih hr
    exact ⟨c :: inner, rfl⟩

theorem heredocEnd?_last {label : List Char} (hne : label ≠ [])
    (hlabel : ∀ c ∈ label, isNameChar c = true)
    {lineStart : Bool} (hr : heredocEnd? label lineStart text = some rest) :
    ∃ inner y, text = inner ++ y :: rest ∧ isNameChar y = true := by
  induction text generalizing lineStart with
  | nil =>
    rw [heredocEnd?_eq] at hr
    split at hr
    · rename_i hfound
      have hprefix := (Bool.and_eq_true_iff.1 (Bool.and_eq_true_iff.1 hfound).2).1
      exact absurd (List.prefix_nil.1 (List.isPrefixOf_iff_prefix.1 hprefix)) hne
    · cases hr
  | cons c text ih =>
    rw [heredocEnd?_eq] at hr
    split at hr
    · rename_i hfound
      have hprefix := (Bool.and_eq_true_iff.1 (Bool.and_eq_true_iff.1 hfound).2).1
      obtain ⟨after, hafter⟩ := List.isPrefixOf_iff_prefix.1 hprefix
      rw [← hafter, List.drop_left] at hr
      obtain rfl := Option.some.inj hr
      refine ⟨(c :: text).takeWhile isIndent ++ label.dropLast, label.getLast hne, ?_,
        hlabel _ (List.getLast_mem hne)⟩
      have hlast : label.dropLast ++ label.getLast hne :: after = label ++ after := by
        rw [List.append_cons, List.dropLast_append_getLast]
      rw [List.append_assoc, hlast, hafter, List.takeWhile_append_dropWhile]
    · obtain ⟨inner, y, rfl, hy⟩ := ih hr
      exact ⟨c :: inner, y, rfl, hy⟩

/-- A number holds none of these characters. -/
theorem scan?_not_halts {kind : TokenKind}
    (hscan : Number.scan? (taken ++ rest) = some (kind, rest))
    (hx : x ∈ taken) : halts x = false := by
  rw [Bool.eq_false_iff]
  intro hhalts
  obtain ⟨before, between, rfl⟩ := List.append_of_mem hx
  rw [List.append_assoc, List.cons_append, Number.scan?_halt hhalts] at hscan
  obtain ⟨found, -, hfound⟩ := Option.map_eq_some_iff.1 hscan
  have hlength := congrArg List.length (Prod.mk.inj hfound).2
  simp only [List.length_append, List.length_cons] at hlength
  omega

end

theorem keyword?_ne_rBrace (word : String) : (TokenKind.keyword? word).getD .identifier ≠ .rBrace :=
  TokenKind.keyword?_cases (motive := (· ≠ .rBrace)) word (by decide) (by decide)

/-- A text with `rest` behind it ends with none of these characters, unless it consists of it alone
or its line ends behind it or the closing tag stands there. -/
def EndsSharply (text rest : List Char) : Prop :=
  ∀ front x, text = front ++ [x] → halts x = true →
    front = [] ∨ x ≠ '\n' ∧ rest.head? ∈ [none, some '\n', some '?']

theorem endsSharply_of_mark (inner : List Char) {y : Char} (rest : List Char)
    (hy : halts y = false) :
    EndsSharply (inner ++ [y]) rest := by
  intro front x hfront hx
  rw [← append_singleton_inj hfront, hy] at hx
  cases hx

theorem endsSharply_of_forall (head : Char) {taken rest : List Char}
    (htaken : ∀ x ∈ taken, halts x = true → x ≠ '\n' ∧ rest.head? ∈ [none, some '\n', some '?']) :
    EndsSharply (head :: taken) rest := by
  intro front x hfront hx
  cases front with
  | nil => exact .inl rfl
  | cons y front => exact .inr (htaken x (by rw [(List.cons.inj hfront).2]; simp) hx)

theorem endsSharply_comment (head : Char) {skipped text rest : List Char}
    (hskipped : '\n' ∉ skipped)
    (hrest : lineCommentEnd text = rest) : ∃ taken, skipped ++ text = taken ++ rest ∧
      EndsSharply (head :: taken) rest := by
  obtain ⟨taken, hsplit, hnot, hhead⟩ := lineCommentEnd_spec text
  rw [hrest] at hsplit hhead
  refine ⟨skipped ++ taken, by rw [hsplit, List.append_assoc], ?_⟩
  refine endsSharply_of_forall head fun x hx _ => ⟨?_, hhead⟩
  rintro rfl
  exact (List.mem_append.1 hx).elim hskipped hnot

theorem endsSharply_name (head : Char) (tail rest : List Char) :
    EndsSharply (head :: tail.takeWhile isNameChar) rest := by
  refine endsSharply_of_forall head fun x hx hhalts => ?_
  have hchar := List.mem_takeWhile_imp hx
  rw [isNameChar_halt hhalts] at hchar
  cases hchar

namespace Scanner

section

variable {src : Source} {c last : Cursor} {head : Char} {tail rest : List Char} {tok : Token}
  {kind : TokenKind}

theorem heredoc_endsSharply (hread : heredoc src c.offset (c.skip 3) = .ok (kind, rest)) :
    kind ≠ .rBrace ∧ ∃ taken, c.rest = taken ++ rest ∧ EndsSharply taken rest := by
  obtain ⟨form, label, lineEnd, body, hparts, hne, hname, -, hend, rfl⟩ := heredoc_parts hread
  obtain ⟨inner, y, rfl, hy⟩ := heredocEnd?_last hne hname hend
  have hy' : halts y = false := Bool.eq_false_iff.2 fun h => by
    rw [isNameChar_halt h] at hy
    cases hy
  refine ⟨by cases form <;> decide, _, ?_, endsSharply_of_mark (c.rest.take 3 ++
    ((c.skip 3).rest.takeWhile isIndent ++ (form.enclose label ++ (lineEnd ++ inner)))) rest hy'⟩
  have hskip : c.rest = c.rest.take 3 ++ (c.skip 3).rest := (List.take_append_drop 3 c.rest).symm
  have hindent : (c.skip 3).rest = (c.skip 3).rest.takeWhile isIndent ++
      (form.enclose label ++ (lineEnd ++ (inner ++ y :: rest))) := by
    rw [← hparts]
    exact List.takeWhile_append_dropWhile.symm
  refine hskip.trans ((congrArg (List.take 3 c.rest ++ ·) hindent).trans ?_)
  simp only [List.append_assoc, List.singleton_append]

/-- A token of code is a symbol, or ends with none of these characters unless it consists of it
alone or is a line comment, behind which its line ends or the closing tag stands. -/
theorem headToken_shape (hc : c.rest = head :: tail)
    (ht : headToken src c head tail = (.ok tok, last)) :
    (∃ entry ∈ symbols, tok.kind = entry.2 ∧ tok.text.toList = entry.1.toList) ∨
      tok.kind ≠ .rBrace ∧ EndsSharply tok.text.toList last.rest := by
  have hwhole : head :: tail = tok.text.toList ++ last.rest := by
    rw [← (headToken_cuts hc ht).1.passes.rest, hc]
  have htext : ∀ {taken : List Char}, head :: tail = taken ++ last.rest → tok.text.toList = taken :=
    fun h => List.append_cancel_right (hwhole.symm.trans h)
  obtain ⟨kind, hextent, htok⟩ := (headToken_iff hc).1 ht
  have hkind : tok.kind = kind := congrArg Token.kind htok
  have hopening := opening_stands head tail
  rw [hkind]
  generalize beginning head tail = b at hextent hopening
  cases hextent with
  | @quote q _ hclose =>
    obtain ⟨inner, hinner, -⟩ := Enclosure.close_last hclose
    have hsplit : head :: tail = q.opening ++ inner ++ [(q.inside c.offset).mark] ++ last.rest := by
      rw [List.append_assoc, List.append_assoc]
      exact (List.prefix_iff_eq_append.1 hopening).symm.trans (congrArg (_ ++ ·) hinner)
    rw [htext hsplit]
    exact .inr ⟨by cases q <;> decide, endsSharply_of_mark _ _ (by cases q <;> rfl)⟩
  | hashComment =>
    obtain ⟨taken, htail, hends⟩ :=
      endsSharply_comment head List.not_mem_nil (Eq.refl (lineCommentEnd tail))
    have hsplit : head :: tail = head :: taken ++ lineCommentEnd tail := congrArg (head :: ·) htail
    rw [htext hsplit]
    exact .inr ⟨by decide, hends⟩
  | slashComment =>
    obtain ⟨more, rfl⟩ := (List.cons_prefix_cons.1 hopening).2
    obtain ⟨taken, htail, hends⟩ :=
      endsSharply_comment head (show '\n' ∉ ['/'] by simp) (Eq.refl (lineCommentEnd more))
    have hsplit : head :: '/' :: more = head :: taken ++ lineCommentEnd more :=
      congrArg (head :: ·) htail
    rw [htext hsplit]
    exact .inr ⟨by decide, hends⟩
  | @blockComment rest hend =>
    obtain ⟨inner, hinner⟩ := blockCommentEnd?_last hend
    have hsplit : head :: tail = head :: (tail.take 1 ++ inner) ++ ['/'] ++ rest := by
      rw [List.append_assoc, List.cons_append, List.append_assoc]
      refine congrArg (head :: ·) ?_
      exact (List.take_append_drop 1 tail).symm.trans (congrArg (_ ++ ·) hinner)
    rw [htext hsplit]
    refine .inr ⟨?_, endsSharply_of_mark _ _ rfl⟩
    unfold commentKind
    split <;> decide
  | heredoc hread =>
    obtain ⟨hne, taken, htaken, hends⟩ := heredoc_endsSharply hread
    rw [htext (hc.symm.trans htaken)]
    exact .inr ⟨hne, hends⟩
  | number hscan =>
    obtain ⟨-, hk⟩ := Number.scan?_suffix hscan
    refine .inr ⟨by rintro rfl; exact absurd hk (by decide), fun front x hfront hx => ?_⟩
    rw [hwhole] at hscan
    rw [scan?_not_halts hscan (by rw [hfront]; simp)] at hx
    cases hx
  | name =>
    have hsplit : head :: tail = head :: tail.takeWhile isNameChar ++ tail.dropWhile isNameChar :=
      congrArg (head :: ·) List.takeWhile_append_dropWhile.symm
    rw [htext hsplit]
    exact .inr ⟨keyword?_ne_rBrace _, endsSharply_name _ _ _⟩
  | variableName =>
    have hsplit : head :: tail = head :: tail.takeWhile isNameChar ++ tail.dropWhile isNameChar :=
      congrArg (head :: ·) List.takeWhile_append_dropWhile.symm
    rw [htext hsplit]
    exact .inr ⟨by decide, endsSharply_name _ _ _⟩
  | symbol hsymbol =>
    obtain ⟨entry, hentry, hkind, hsplit⟩ := symbol?_spec hsymbol
    exact .inl ⟨entry, hentry, hkind, htext hsplit⟩

theorem headToken_last (hc : c.rest = head :: tail)
    (ht : headToken src c head tail = (.ok tok, last))
    {front : List Char} {x : Char} (htext : tok.text.toList = front ++ [x]) (hx : halts x = true) :
    front = [] ∨ x ≠ '\n' ∧ last.rest.head? ∈ [none, some '\n', some '?'] := by
  obtain ⟨entry, hentry, -, hword⟩ | ⟨-, hlast⟩ := headToken_shape hc ht
  · have hhalt := List.all_eq_true.1 symbols_halt entry hentry
    rw [← hword, htext] at hhalt
    cases front with
    | nil => exact .inl rfl
    | cons y front =>
      have hno := List.all_eq_true.1 hhalt x (by simp)
      rw [hx] at hno
      cases hno
  · exact hlast front x htext hx

theorem symbols_rBrace :
    (symbols.all fun entry => entry.2 != .rBrace || entry.1.toList == ['\x7d']) = true := by
  decide +kernel

/-- The brace that closes a block is one character. -/
theorem headToken_rBrace (hc : c.rest = head :: tail)
    (ht : headToken src c head tail = (.ok tok, last))
    (hkind : tok.kind = .rBrace) : tok.text.toList = ['\x7d'] := by
  obtain ⟨entry, hentry, hkind', hword⟩ | ⟨hne, -⟩ := headToken_shape hc ht
  · have hbrace := List.all_eq_true.1 symbols_rBrace entry hentry
    rw [← hkind', hkind] at hbrace
    rw [hword]
    simpa using hbrace
  · exact absurd hkind hne

/-- An opening tag holds none of these characters. -/
theorem openingTag_not_halts {text : List Char} (hne : text ≠ []) (htext : markupLength text = 0) :
    ∀ x ∈ text.take (openingTag text).2, halts x = false := by
  obtain ⟨html, more, rfl, hlength, hmore⟩ := markupLength_spec text
  obtain rfl : html = [] := List.length_eq_zero_iff.1 (hlength.symm.trans htext)
  rw [List.nil_append] at hne ⊢
  obtain ⟨others, rfl⟩ := hmore.resolve_left hne
  unfold openingTag
  split
  · rename_i hecho
    intro x hx
    rw [beq_iff_eq.1 hecho] at hx
    revert hx
    revert x
    simp [halts]
  · split
    · rename_i hphp
      intro x hx
      have hlower := List.mem_map_of_mem (f := Char.toLower) hx
      rw [beq_iff_eq.1 hphp] at hlower
      rw [Bool.eq_false_iff]
      intro hhalts
      rcases halts_cases hhalts with rfl | rfl | rfl <;> revert hlower <;> decide
    · simp [halts]

end

end Scanner

end PhpCheck
