import Mathlib
import PhpCheck.Token.Scanner

/-!
What one token takes.

Every scan below the level of tokens returns what is left of its text, so that what it has
taken stands in front: `Cursor.Passes` is this relation between two positions.  What a token
begins with decides which scan finds its end (`Scanner.headToken_iff`); all that is needed to know
of its extent is that it begins at one position, ends at the other, and is not empty
(`Scanner.headToken_cuts`).
-/

namespace PhpCheck

/-! ### Bytes -/

@[simp] theorem byteSize_nil : byteSize [] = 0 := rfl

theorem foldl_utf8Size (n : Nat) (text : List Char) :
    text.foldl (fun n c => n + c.utf8Size) n = n + byteSize text := by
  induction text generalizing n with
  | nil => rfl
  | cons c text ih =>
    rw [byteSize, List.foldl_cons, List.foldl_cons, ih, ih (0 + c.utf8Size)]
    omega

@[simp] theorem byteSize_cons (c : Char) (text : List Char) :
    byteSize (c :: text) = c.utf8Size + byteSize text := by
  rw [byteSize, List.foldl_cons, foldl_utf8Size, Nat.zero_add]

@[simp] theorem byteSize_append (text more : List Char) :
    byteSize (text ++ more) = byteSize text + byteSize more := by
  induction text with
  | nil => simp
  | cons c text ih => rw [List.cons_append, byteSize_cons, byteSize_cons, ih, Nat.add_assoc]

theorem byteSize_pos {text : List Char} (ht : text ≠ []) : 0 < byteSize text := by
  cases text with
  | nil => exact absurd rfl ht
  | cons c text =>
    have hc := c.utf8Size_pos
    rw [byteSize_cons]
    omega

/-! ### Positions -/

/-- From position `c` one comes to position `d` over `text`. -/
structure Cursor.Passes (c : Cursor) (text : List Char) (d : Cursor) : Prop where
  rest : c.rest = text ++ d.rest
  offset : d.offset = c.offset + byteSize text

namespace Cursor

variable {c d e : Cursor} {text more : List Char}

theorem Passes.refl (c : Cursor) : c.Passes [] c := ⟨rfl, rfl⟩

theorem Passes.trans (hcd : c.Passes text d) (hde : d.Passes more e) :
    c.Passes (text ++ more) e := by
  refine ⟨?_, ?_⟩
  · rw [hcd.rest, hde.rest, List.append_assoc]
  · rw [hde.offset, hcd.offset, byteSize_append, Nat.add_assoc]

theorem Passes.length_le (hcd : c.Passes text d) : d.rest.length ≤ c.rest.length := by
  rw [hcd.rest, List.length_append]
  exact Nat.le_add_left _ _

theorem Passes.take_eq (hcd : c.Passes text d) :
    c.rest.take (c.rest.length - d.rest.length) = text := by
  rw [hcd.rest, List.length_append, Nat.add_sub_cancel, List.take_left]

theorem passes_upTo (c : Cursor) (text : List Char) {rest : List Char}
    (hr : c.rest = text ++ rest) : c.Passes text (c.upTo rest) := by
  refine ⟨hr, ?_⟩
  rw [upTo, hr, List.length_append, Nat.add_sub_cancel, List.take_left]

theorem passes_skip (c : Cursor) (n : Nat) : c.Passes (c.rest.take n) (c.skip n) :=
  ⟨(List.take_append_drop n c.rest).symm, rfl⟩

end Cursor

/-! ### Comments -/

theorem lineCommentEnd_suffix (text : List Char) : lineCommentEnd text <:+ text := by
  fun_induction lineCommentEnd text with
  | case1 => exact List.suffix_refl []
  | case2 rest => exact List.suffix_refl _
  | case3 c rest hc => exact List.suffix_refl _
  | case4 c rest _ hc ih => exact ih.trans (List.suffix_cons _ _)

theorem blockCommentEnd?_suffix {text rest : List Char} (hr : blockCommentEnd? text = some rest) :
    rest <:+ text := by
  fun_induction blockCommentEnd? text with
  | case1 => cases hr
  | case2 more =>
    obtain rfl := Option.some.inj hr
    exact ⟨['*', '/'], rfl⟩
  | case3 c more _ ih => exact (ih hr).trans (List.suffix_cons _ _)

/-! ### Quoted text -/

namespace Enclosure

/-- The character that ends an enclosure. -/
def mark : Enclosure → Char
  | plain _ => '\''
  | template quote _ => quote
  | code _ closing _ _ => closing

/-- The character that ends the outermost of some enclosures, when `m` ends the innermost. -/
def outerMark : List Enclosure → (m : Char) → Char
  | [], m => m
  | outer :: others, _ => outerMark others outer.mark

/-- Behind the character that ends an enclosure, those around it are closed. -/
theorem leave_last {around : List Enclosure} {offset : Nat} {x m : Char} {rest : List Char}
    {e : Cursor} (hm : (x == m) = true)
    (hclose : ∀ outer others, close outer others (offset + x.utf8Size) rest = .ok e →
      ∃ text, rest = text ++ outerMark others outer.mark :: e.rest ∧
        e.offset = offset + x.utf8Size + byteSize text + (outerMark others outer.mark).utf8Size)
    (he : (match around with
      | [] => .ok { offset := offset + x.utf8Size, rest }
      | outer :: others => outer.close others (offset + x.utf8Size) rest) =
        (.ok e : Except Nat Cursor)) :
    ∃ text, x :: rest = text ++ outerMark around m :: e.rest ∧
      e.offset = offset + byteSize text + (outerMark around m).utf8Size := by
  obtain rfl := beq_iff_eq.1 hm
  cases around with
  | nil =>
    obtain rfl := Except.ok.inj he
    exact ⟨[], rfl, rfl⟩
  | cons outer others =>
    obtain ⟨text, hrest, hoffset⟩ := hclose outer others he
    refine ⟨x :: text, congrArg (x :: ·) hrest, ?_⟩
    rw [hoffset, byteSize_cons]
    show _ = _ + (outerMark others outer.mark).utf8Size
    omega

/-- The last character that is passed is the one that ends the outermost enclosure. -/
theorem close_last {top : Enclosure} {around : List Enclosure} {offset : Nat} {rest : List Char}
    {e : Cursor} (he : top.close around offset rest = .ok e) :
    ∃ text, rest = text ++ outerMark around top.mark :: e.rest ∧
      e.offset = offset + byteSize text + (outerMark around top.mark).utf8Size := by
  have hstep : ∀ {offset : Nat} {x m : Char} {rest : List Char},
      (∃ text, rest = text ++ m :: e.rest ∧
        e.offset = offset + x.utf8Size + byteSize text + m.utf8Size) →
      ∃ text, x :: rest = text ++ m :: e.rest ∧ e.offset = offset + byteSize text + m.utf8Size := by
    rintro offset x m rest ⟨text, rfl, hoffset⟩
    exact ⟨x :: text, rfl, by rw [hoffset, byteSize_cons]; omega⟩
  fun_induction Enclosure.close top around offset rest with
  | case1 => cases he
  | case2 => cases he
  | case3 around offset x next since hx hidden rest _ ih => exact hstep (hstep (ih he))
  | case4 around offset x rest next leave since hx hq ih => exact leave_last hq ih he
  | case5 around offset x rest next since hx hq _ ih => exact hstep (ih he)
  | case6 => cases he
  | case7 around offset x next quote since hx hidden rest _ ih => exact hstep (hstep (ih he))
  | case8 around offset x rest next leave quote since hx hq ih => exact leave_last hq ih he
  | case9 around offset x next quote since hx hq y more ho _ ih => exact hstep (ih he)
  | case10 around offset x next quote since hx hq y more _ ho _ ih =>
    obtain rfl : y = '\x7b' := by simpa using (Bool.and_eq_true_iff.1 ho).2
    exact hstep (hstep (ih he))
  | case11 around offset x next quote since hx hq y more _ _ _ ih => exact hstep (ih he)
  | case12 => cases he
  | case13 | case14 | case15 | case17 | case18 => rename_i ih; exact hstep (ih he)
  | case16 around offset x rest next leave opening closing since _ _ _ hc ih =>
    exact leave_last hc ih he

/-- The end of an enclosure stands further on. -/
theorem close_passes {top : Enclosure} {around : List Enclosure} {offset : Nat}
    {rest : List Char} {d : Cursor} (hd : top.close around offset rest = .ok d) :
    ∃ x text, Cursor.Passes { offset, rest } (x :: text) d := by
  obtain ⟨text, hrest, hoffset⟩ := close_last hd
  have hp : Cursor.Passes { offset, rest } (text ++ [outerMark around top.mark]) d :=
    ⟨by rw [hrest, List.append_assoc]; rfl, by rw [hoffset, byteSize_append]; simp [Nat.add_assoc]⟩
  obtain ⟨x, more, hmore⟩ := List.exists_cons_of_ne_nil
    (List.append_ne_nil_of_right_ne_nil text (List.cons_ne_nil (outerMark around top.mark) []))
  exact ⟨x, more, hmore ▸ hp⟩

end Enclosure

/-! ### Heredocs -/

theorem heredocEnd?_suffix {label text rest : List Char} {lineStart : Bool}
    (hr : heredocEnd? label lineStart text = some rest) : rest <:+ text := by
  induction text generalizing lineStart with
  | nil =>
    rw [heredocEnd?.eq_def] at hr
    dsimp only at hr
    split at hr
    · obtain rfl := Option.some.inj hr
      exact (List.drop_suffix _ _).trans (List.dropWhile_suffix _)
    · cases hr
  | cons c text ih =>
    rw [heredocEnd?.eq_def] at hr
    dsimp only at hr
    split at hr
    · obtain rfl := Option.some.inj hr
      exact (List.drop_suffix _ _).trans (List.dropWhile_suffix _)
    · exact (ih hr).trans (List.suffix_cons _ _)

theorem lineBreak_suffix (line : List Char) {body : List Char}
    (hb : (match line with
      | '\r' :: '\n' :: rest => some rest
      | '\n' :: rest => some rest
      | _ => none) = some body) : body <:+ line := by
  split at hb
  · obtain rfl := Option.some.inj hb
    exact (List.suffix_cons _ _).trans (List.suffix_cons _ _)
  · obtain rfl := Option.some.inj hb
    exact List.suffix_cons _ _
  · cases hb

theorem heredoc_suffix {src : Source} {start : Nat} {c : Cursor} {kind : TokenKind}
    {rest : List Char} (hr : heredoc src start c = .ok (kind, rest)) :
    rest <:+ c.rest ∧ (kind = .heredoc ∨ kind = .nowdoc) := by
  unfold heredoc at hr
  extract_lets fail text quote afterQuote label afterLabel at hr
  have hquote : afterLabel <:+ c.rest := by
    refine (List.dropWhile_suffix _).trans (List.IsSuffix.trans ?_ (List.dropWhile_suffix isIndent))
    show (if quote.isSome then text.drop 1 else text) <:+ text
    split
    · exact List.drop_suffix _ _
    · exact List.suffix_refl _
  split at hr
  · cases hr
  split at hr
  · cases hr
  rename_i line body? hlabel hclosed
  have hline : line <:+ c.rest := by
    refine List.IsSuffix.trans ?_ hquote
    show (if quote.isSome then afterLabel.drop 1 else afterLabel) <:+ afterLabel
    split
    · exact List.drop_suffix _ _
    · exact List.suffix_refl _
  have hbody : ∀ body, body? = some body → body <:+ line := fun body => lineBreak_suffix line
  clear_value body?
  cases body? with
  | none => cases hr
  | some body =>
  dsimp only at hr
  split at hr
  · rename_i rest hend
    obtain ⟨rfl, rfl⟩ := Prod.mk.inj (Except.ok.inj hr)
    refine ⟨(heredocEnd?_suffix hend).trans ((hbody body rfl).trans hline), ?_⟩
    split
    · exact .inr rfl
    · exact .inl rfl
  · cases hr

/-! ### Numbers and symbols -/

theorem Number.groups_suffix (digit : Char → Bool) (text : List Char) :
    Number.groups digit text <:+ text := by
  fun_induction Number.groups digit text with
  | case1 x rest hx ih =>
    exact ih.trans ((List.suffix_cons _ _).trans (List.suffix_cons _ _))
  | case2 => exact List.suffix_refl _
  | case3 x rest _ hx ih => exact ih.trans (List.suffix_cons _ _)
  | case4 => exact List.suffix_refl _
  | case5 => exact List.suffix_refl _

theorem Number.run?_suffix {digit : Char → Bool} {text rest : List Char}
    (hr : Number.run? digit text = some rest) : ∃ x more, text = x :: more ∧ rest <:+ more := by
  cases text with
  | nil => cases hr
  | cons x more =>
    rw [Number.run?] at hr
    split at hr
    · obtain rfl := Option.some.inj hr
      exact ⟨x, more, rfl, Number.groups_suffix digit more⟩
    · cases hr

/-- Passing over a sign leaves the end of a text. -/
theorem Number.unsigned_suffix (text : List Char) :
    (match text with
      | s :: more => if s == '+' || s == '-' then more else text
      | [] => text) <:+ text := by
  cases text with
  | nil => exact List.suffix_refl _
  | cons s more =>
    dsimp only
    split
    · exact List.suffix_cons _ _
    · exact List.suffix_refl _

theorem Number.exponent_suffix (text : List Char) : Number.exponent text <:+ text := by
  unfold Number.exponent
  split
  · rename_i e rest
    split
    · extract_lets digits
      have hdigits : digits <:+ rest := unsigned_suffix rest
      clear_value digits
      cases digits with
      | nil => exact List.suffix_refl _
      | cons d more =>
        dsimp only
        split
        · exact (List.dropWhile_suffix _).trans
            ((List.suffix_cons d more).trans (hdigits.trans (List.suffix_cons _ _)))
        · exact List.suffix_refl _
    · exact List.suffix_refl _
  · exact List.suffix_refl _

theorem Number.fraction_suffix (text : List Char) : Number.fraction text <:+ text :=
  (Number.exponent_suffix _).trans ((Number.groups_suffix _ _).trans (List.dropWhile_suffix _))

theorem Number.based?_suffix {text rest : List Char} {kind : TokenKind}
    (hr : Number.based? text = some (kind, rest)) :
    (∃ x more, text = x :: more ∧ rest <:+ more) ∧
      kind ∈ [TokenKind.hexLiteral, .binaryLiteral, .octalLiteral] := by
  have hmap : ∀ {digit : Char → Bool} {k : TokenKind} {x mark : Char} {more : List Char},
      (Number.run? digit more).map (k, ·) = some (kind, rest) →
        (∃ y ys, x :: mark :: more = y :: ys ∧ rest <:+ ys) ∧ kind = k := by
    intro digit k x mark more hm
    obtain ⟨r, hrun, heq⟩ := Option.map_eq_some_iff.1 hm
    obtain ⟨rfl, rfl⟩ := Prod.mk.inj heq
    obtain ⟨y, ys, rfl, hs⟩ := Number.run?_suffix hrun
    exact ⟨⟨x, _, rfl, hs.trans ((List.suffix_cons _ _).trans (List.suffix_cons _ _))⟩, rfl⟩
  unfold Number.based? at hr
  split at hr
  · split at hr
    · exact (hmap hr).imp_right (by rintro rfl; decide)
    · split at hr
      · exact (hmap hr).imp_right (by rintro rfl; decide)
      · split at hr
        · exact (hmap hr).imp_right (by rintro rfl; decide)
        · cases hr
  · cases hr

theorem Number.scan?_suffix {text rest : List Char} {kind : TokenKind}
    (hr : Number.scan? text = some (kind, rest)) :
    (∃ x more, text = x :: more ∧ rest <:+ more) ∧
      kind ∈ [TokenKind.hexLiteral, .binaryLiteral, .octalLiteral, .floatLiteral,
        .decimalLiteral] := by
  unfold Number.scan? at hr
  split at hr
  · rename_i found hfound
    obtain rfl := Option.some.inj hr
    obtain ⟨hs, hk⟩ := Number.based?_suffix hfound
    exact ⟨hs, List.mem_append_left [TokenKind.floatLiteral, .decimalLiteral] hk⟩
  split at hr
  · rename_i more _
    obtain ⟨r, hrun, heq⟩ := Option.map_eq_some_iff.1 hr
    obtain ⟨rfl, rfl⟩ := Prod.mk.inj heq
    obtain ⟨y, ys, rfl, hs⟩ := Number.run?_suffix hrun
    refine ⟨⟨_, _, rfl, (Number.exponent_suffix r).trans (hs.trans (List.suffix_cons _ _))⟩, ?_⟩
    decide
  · -- Whatever follows the digits of a number only takes more of the text.
    have hrun : ∀ r s, Number.run? Char.isDigit text = some r → s <:+ r →
        ∃ x more, text = x :: more ∧ s <:+ more := by
      intro r s hrun hs
      obtain ⟨y, ys, htext, hrys⟩ := Number.run?_suffix hrun
      exact ⟨y, ys, htext, hs.trans hrys⟩
    split at hr
    · cases hr
    · rename_i more hdigits
      obtain ⟨rfl, rfl⟩ := Prod.mk.inj (Option.some.inj hr)
      exact ⟨hrun _ _ hdigits ((Number.fraction_suffix _).trans (List.suffix_cons _ _)), by decide⟩
    · rename_i more hdigits
      obtain ⟨rfl, rfl⟩ := Prod.mk.inj (Option.some.inj hr)
      exact ⟨hrun _ _ hdigits (List.suffix_cons _ _), by decide⟩
    · rename_i more _ _ hdigits
      dsimp only at hr
      split at hr
      · obtain ⟨rfl, rfl⟩ := Prod.mk.inj (Option.some.inj hr)
        exact ⟨hrun _ _ hdigits (Number.exponent_suffix _), by decide⟩
      · obtain ⟨rfl, rfl⟩ := Prod.mk.inj (Option.some.inj hr)
        exact ⟨hrun _ _ hdigits (List.suffix_refl _), by decide⟩

/-- No symbol is empty, and none is a mark outside tags. -/
theorem symbols_spec : ∀ entry ∈ symbols, entry.1.toList ≠ [] ∧ entry.2 ≠ .inlineHtml := by
  decide

theorem symbol?_spec {text rest : List Char} {kind : TokenKind}
    (hr : symbol? text = some (kind, rest)) :
    ∃ entry ∈ symbols, kind = entry.2 ∧ text = entry.1.toList ++ rest := by
  obtain ⟨entry, hfind, heq⟩ := Option.map_eq_some_iff.1 hr
  obtain ⟨rfl, rfl⟩ := Prod.mk.inj heq
  have hpre := List.find?_some hfind
  obtain ⟨more, rfl⟩ := List.isPrefixOf_iff_prefix.1 hpre
  have hlen : entry.1.length = entry.1.toList.length := rfl
  refine ⟨entry, List.mem_of_find?_eq_some hfind, rfl, ?_⟩
  rw [hlen, List.drop_left]

theorem symbol?_suffix {text rest : List Char} {kind : TokenKind}
    (hr : symbol? text = some (kind, rest)) :
    (∃ x more, text = x :: more ∧ rest <:+ more) ∧ kind ≠ .inlineHtml := by
  obtain ⟨entry, hentry, rfl, rfl⟩ := symbol?_spec hr
  obtain ⟨hne, hk⟩ := symbols_spec entry hentry
  obtain ⟨x, xs, hx⟩ := List.exists_cons_of_ne_nil hne
  exact ⟨⟨x, xs ++ rest, by rw [hx, List.cons_append], List.suffix_append _ _⟩, hk⟩

/-- A name is an identifier or one of the keywords. -/
theorem TokenKind.keyword?_cases {motive : TokenKind → Prop} (word : String)
    (hname : motive .identifier) (hkeyword : ∀ entry ∈ TokenKind.keywords, motive entry.2) :
    motive ((TokenKind.keyword? word).getD .identifier) := by
  cases hk : TokenKind.keyword? word with
  | none => exact hname
  | some kind =>
    obtain ⟨entry, hfind, rfl⟩ := Option.map_eq_some_iff.1 hk
    exact hkeyword entry (List.mem_of_find?_eq_some hfind)

/-! ### What a token begins with -/

namespace Scanner

/-- The tokens that end with a mark.  An attribute counts as a comment. -/
inductive Quote where
  | single
  | double
  | back
  | bracket

namespace Quote

def kind : Quote → TokenKind
  | single => .stringLiteral
  | double => .templateString
  | back => .shellCommand
  | bracket => .lineComment

def opening : Quote → List Char
  | single => ['\'']
  | double => ['"']
  | back => ['\x60']
  | bracket => ['#', '[']

/-- What is open behind the mark at the beginning, in a token that starts at a place. -/
def inside (start : Nat) : Quote → Enclosure
  | single => .plain start
  | double => .template '"' start
  | back => .template '\x60' start
  | bracket => .code '[' ']' 0 (start + 1)

theorem byteSize_opening (q : Quote) : byteSize q.opening = q.opening.length := by cases q <;> rfl

end Quote

/-- What the first characters say of a token. -/
inductive Beginning where
  | quote (q : Quote)
  | hashComment
  | slashComment
  | blockComment
  | heredoc
  | number
  | name
  | variableName
  | symbol

/-- The mark that a token begins with, where it begins with one. -/
def Beginning.opening : Beginning → List Char
  | .quote q => q.opening
  | .hashComment => ['#']
  | .slashComment => ['/', '/']
  | .blockComment => ['/', '*']
  | .heredoc => ['<', '<', '<']
  | .number | .name | .variableName | .symbol => []

def beginning (head : Char) (tail : List Char) : Beginning :=
  if head == '\'' then .quote .single
  else if head == '"' then .quote .double
  else if head == '\x60' then .quote .back
  else if head == '#' && tail.head? == some '[' then .quote .bracket
  else if head == '#' then .hashComment
  else if head == '/' && tail.head? == some '/' then .slashComment
  else if head == '/' && tail.head? == some '*' then .blockComment
  else if (head :: tail).take 3 == "<<<".toList then .heredoc
  else if (Number.scan? (head :: tail)).isSome then .number
  else if isNameStart head then .name
  else if head == '$' && tail.head?.any isNameStart then .variableName
  else .symbol

def commentKind (text : List Char) : TokenKind :=
  if text.take 3 == "/**".toList && text.length != 4 then .docComment else .lineComment

/-- The kind of a token, by what it begins with, and the position behind it. -/
inductive Extent (src : Source) (c : Cursor) (head : Char) (tail : List Char) :
    Beginning → TokenKind → Cursor → Prop
  | quote {q : Quote} {last : Cursor}
      (hclose : (q.inside c.offset).close [] (c.offset + q.opening.length)
        ((head :: tail).drop q.opening.length) = .ok last) :
      Extent src c head tail (.quote q) q.kind last
  | hashComment : Extent src c head tail .hashComment .lineComment (c.upTo (lineCommentEnd tail))
  | slashComment :
      Extent src c head tail .slashComment .lineComment (c.upTo (lineCommentEnd (tail.drop 1)))
  | blockComment {rest : List Char} (hend : blockCommentEnd? (tail.drop 1) = some rest) :
      Extent src c head tail .blockComment
        (commentKind ((head :: tail).take ((head :: tail).length - rest.length))) (c.upTo rest)
  | heredoc {kind : TokenKind} {rest : List Char}
      (hread : PhpCheck.heredoc src c.offset (c.skip 3) = .ok (kind, rest)) :
      Extent src c head tail .heredoc kind (c.upTo rest)
  | number {kind : TokenKind} {rest : List Char}
    (hscan : Number.scan? (head :: tail) = some (kind, rest)) :
      Extent src c head tail .number kind (c.upTo rest)
  | name :
      Extent src c head tail .name
        ((TokenKind.keyword? (String.ofList (head :: tail.takeWhile isNameChar))).getD .identifier)
        (c.upTo (tail.dropWhile isNameChar))
  | variableName : Extent src c head tail .variableName .variableName
    (c.upTo (tail.dropWhile isNameChar))
  | symbol {kind : TokenKind} {rest : List Char}
    (hsymbol : symbol? (head :: tail) = some (kind, rest)) :
      Extent src c head tail .symbol kind (c.upTo rest)

section

variable {src : Source} {c last : Cursor} {head : Char} {tail : List Char} {tok : Token}

theorem opening_stands (head : Char) (tail : List Char) :
    (beginning head tail).opening <+: head :: tail := by
  have hone : ∀ {x : Char}, (head == x) = true → [x] <+: head :: tail := fun h => by
    rw [beq_iff_eq.1 h]
    exact List.prefix_append [_] tail
  have htwo : ∀ {x y : Char}, (head == x && tail.head? == some y) = true →
    [x, y] <+: head :: tail := by
    intro x y h
    rw [Bool.and_eq_true, beq_iff_eq, beq_iff_eq] at h
    obtain ⟨rfl, hy⟩ := h
    obtain ⟨more, rfl⟩ := List.head?_eq_some_iff.1 hy
    exact List.prefix_append [_, _] more
  have hite : ∀ {p : Prop} [Decidable p] {b b' : Beginning}, (p → b.opening <+: head :: tail) →
      b'.opening <+: head :: tail → (if p then b else b').opening <+: head :: tail := by
    intro p _ b b' hb hb'
    split
    · exact hb ‹p›
    · exact hb'
  unfold beginning
  refine hite (fun h => hone h) (hite (fun h => hone h) (hite (fun h => hone h) ?_))
  refine hite (fun h => htwo h) (hite (fun h => hone h) (hite (fun h => htwo h) ?_))
  refine hite (fun h => htwo h) (hite (fun h => ?_) ?_)
  · exact List.prefix_iff_eq_take.2 (beq_iff_eq.1 h).symm
  · exact hite (fun _ => List.nil_prefix) (hite (fun _ => List.nil_prefix)
      (hite (fun _ => List.nil_prefix) List.nil_prefix))

theorem Extent.unique {b : Beginning} {kind kind' : TokenKind} {last last' : Cursor}
    (h : Extent src c head tail b kind last) (h' : Extent src c head tail b kind' last') :
    kind' = kind ∧ last' = last := by
  cases h with
  | hashComment | slashComment | name | variableName =>
    cases h'
    exact ⟨rfl, rfl⟩
  | quote hclose =>
    cases h' with
    | quote hclose' => exact ⟨rfl, Except.ok.inj (hclose'.symm.trans hclose)⟩
  | blockComment hend =>
    cases h' with
    | blockComment hend' =>
      obtain rfl := Option.some.inj (hend'.symm.trans hend)
      exact ⟨rfl, rfl⟩
  | heredoc hread =>
    cases h' with
    | heredoc hread' =>
      obtain ⟨rfl, rfl⟩ := Prod.mk.inj (Except.ok.inj (hread'.symm.trans hread))
      exact ⟨rfl, rfl⟩
  | number hscan =>
    cases h' with
    | number hscan' =>
      obtain ⟨rfl, rfl⟩ := Prod.mk.inj (Option.some.inj (hscan'.symm.trans hscan))
      exact ⟨rfl, rfl⟩
  | symbol hsymbol =>
    cases h' with
    | symbol hsymbol' =>
      obtain ⟨rfl, rfl⟩ := Prod.mk.inj (Option.some.inj (hsymbol'.symm.trans hsymbol))
      exact ⟨rfl, rfl⟩

/-- What a token begins with decides what it is. -/
theorem headToken_iff (hc : c.rest = head :: tail) : headToken src c head tail = (.ok tok, last) ↔
    ∃ kind, Extent src c head tail (beginning head tail) kind last ∧
      tok = token src kind c last := by
  have hite : ∀ {p : Prop} [Decidable p] {x y : Lexeme × Cursor} {b b' : Beginning},
      (x = (.ok tok, last) ↔ ∃ kind, Extent src c head tail b kind last ∧
        tok = token src kind c last) →
      (y = (.ok tok, last) ↔ ∃ kind, Extent src c head tail b' kind last ∧
        tok = token src kind c last) →
        ((if p then x else y) = (.ok tok, last) ↔
          ∃ kind, Extent src c head tail (if p then b else b') kind last ∧
            tok = token src kind c last) := by
    intro p _ x y b b' hx hy
    split
    · exact hx
    · exact hy
  have hfault : ∀ {b : Beginning} {e : SyntaxError} {d : Cursor},
      (∀ {kind last'}, ¬ Extent src c head tail b kind last') →
        (((.error e, d) : Lexeme × Cursor) = (.ok tok, last) ↔
          ∃ kind, Extent src c head tail b kind last ∧ tok = token src kind c last) := by
    intro b e d hnone
    refine iff_of_false (fun h => by cases h) ?_
    rintro ⟨kind, hextent, -⟩
    exact hnone hextent
  unfold headToken beginning
  extract_lets upTo quoted
  have hup : ∀ {b : Beginning} {kind : TokenKind} {d : Cursor}, Extent src c head tail b kind d →
      (upTo kind d = (.ok tok, last) ↔
        ∃ kind, Extent src c head tail b kind last ∧ tok = token src kind c last) := by
    intro b kind d hextent
    constructor
    · intro hu
      obtain ⟨htok, rfl⟩ := Prod.mk.inj hu
      exact ⟨kind, hextent, (Except.ok.inj htok).symm⟩
    · rintro ⟨kind', hextent', rfl⟩
      obtain ⟨rfl, rfl⟩ := hextent.unique hextent'
      rfl
  have hquoted : ∀ q : Quote, quoted q.kind (q.inside c.offset) q.opening.length = (.ok tok, last) ↔
      ∃ kind, Extent src c head tail (.quote q) kind last ∧ tok = token src kind c last := by
    intro q
    simp only [quoted, hc]
    cases hclose : (q.inside c.offset).close [] (c.offset + q.opening.length)
        ((head :: tail).drop q.opening.length) with
    | ok d => exact hup (.quote hclose)
    | error since =>
      refine hfault fun h => ?_
      cases h with
      | quote hclose' => cases hclose.symm.trans hclose'
  rw [hc]
  refine hite (hquoted .single)
    (hite (hquoted .double) (hite (hquoted .back) (hite (hquoted .bracket) ?_)))
  refine hite (hup .hashComment) (hite (hup .slashComment) (hite ?_ (hite ?_ ?_)))
  · cases hend : blockCommentEnd? (tail.drop 1) with
    | some rest => exact hup (.blockComment hend)
    | none =>
      refine hfault fun h => ?_
      cases h with
      | blockComment hend' => cases hend.symm.trans hend'
  · cases hread : heredoc src c.offset (c.skip 3) with
    | ok found => exact hup (.heredoc hread)
    | error e =>
      refine hfault fun h => ?_
      cases h with
      | heredoc hread' => cases hread.symm.trans hread'
  cases hscan : Number.scan? (head :: tail) with
  | some found => exact hup (.number hscan)
  | none =>
  refine hite (hup .name) (hite (hup .variableName) ?_)
  cases hsymbol : symbol? (head :: tail) with
  | some found => exact hup (.symbol hsymbol)
  | none =>
    refine hfault fun h => ?_
    cases h with
    | symbol hsymbol' => cases hsymbol.symm.trans hsymbol'

end

end Scanner

/-! ### One token -/

/-- The token is what stands between two positions, and that is something. -/
structure Token.Cut (src : Source) (c : Cursor) (t : Token) (d : Cursor) : Prop where
  passes : c.Passes t.text.toList d
  text_ne : t.text.toList ≠ []
  span : t.span = src.span c.offset d.offset

namespace Scanner

variable {src : Source} {c d last : Cursor}

theorem cut_token (kind : TokenKind) {x : Char} {text : List Char} (hd : c.Passes (x :: text) d) :
    (token src kind c d).Cut src c d := by
  have htext : (token src kind c d).text.toList = x :: text := by
    rw [token, hd.take_eq, String.toList_ofList]
  exact ⟨htext ▸ hd, by simp [htext], rfl⟩

theorem passes_of_suffix {x : Char} {tail rest : List Char} (hc : c.rest = x :: tail)
    (hr : rest <:+ tail) : ∃ text, c.Passes (x :: text) (c.upTo rest) := by
  obtain ⟨text, rfl⟩ := hr
  exact ⟨text, c.passes_upTo (x :: text) hc⟩

/-- A token of code is not empty, and is none of those outside tags. -/
theorem headToken_cuts {head : Char} {tail : List Char} {tok : Token} (hc : c.rest = head :: tail)
    (ht : headToken src c head tail = (.ok tok, last)) :
    tok.Cut src c last ∧ tok.kind ≠ .inlineHtml := by
  obtain ⟨kind, hextent, rfl⟩ := (headToken_iff hc).1 ht
  have hrest : ∀ {kind : TokenKind} {rest : List Char}, kind ≠ .inlineHtml → rest <:+ tail →
      (token src kind c (c.upTo rest)).Cut src c (c.upTo rest) ∧ kind ≠ .inlineHtml := by
    intro kind rest hk hr
    obtain ⟨text, hp⟩ := passes_of_suffix hc hr
    exact ⟨cut_token kind hp, hk⟩
  have hopening := opening_stands head tail
  generalize beginning head tail = b at hextent hopening
  cases hextent with
  | @quote q _ hclose =>
    obtain ⟨x, text, hp⟩ := Enclosure.close_passes hclose
    have hmark : c.Passes q.opening
        { offset := c.offset + q.opening.length,
          rest := (head :: tail).drop q.opening.length } := by
      refine ⟨?_, by rw [q.byteSize_opening]⟩
      rw [hc]
      exact (List.prefix_iff_eq_append.1 hopening).symm
    have hpass := hmark.trans hp
    have hkind : q.kind ≠ .inlineHtml := by cases q <;> decide
    cases q <;> exact ⟨cut_token _ hpass, hkind⟩
  | hashComment => exact hrest (by decide) (lineCommentEnd_suffix _)
  | slashComment => exact hrest (by decide) ((lineCommentEnd_suffix _).trans (List.drop_suffix _ _))
  | blockComment hend =>
    refine hrest ?_ ((blockCommentEnd?_suffix hend).trans (List.drop_suffix _ _))
    unfold commentKind
    split <;> decide
  | heredoc hread =>
    obtain ⟨hs, hk⟩ := heredoc_suffix hread
    have hdrop : (c.skip 3).rest <:+ tail := by
      rw [Cursor.skip, hc]
      exact List.drop_suffix 2 tail
    exact hrest (by rcases hk with rfl | rfl <;> decide) (hs.trans hdrop)
  | number hscan =>
    obtain ⟨⟨x, more, htext, hs⟩, hk⟩ := Number.scan?_suffix hscan
    obtain ⟨rfl, rfl⟩ := List.cons.inj htext
    exact hrest (by rintro rfl; exact absurd hk (by decide)) hs
  | name =>
    have hname : ∀ word, (TokenKind.keyword? word).getD .identifier ≠ .inlineHtml :=
      fun word => TokenKind.keyword?_cases (motive := (· ≠ .inlineHtml)) word (by decide)
        (by decide)
    exact hrest (hname _) (List.dropWhile_suffix _)
  | variableName => exact hrest (by decide) (List.dropWhile_suffix _)
  | symbol hsymbol =>
    obtain ⟨⟨x, more, htext, hs⟩, hk⟩ := symbol?_suffix hsymbol
    obtain ⟨rfl, rfl⟩ := List.cons.inj htext
    exact hrest hk hs

end Scanner

end PhpCheck
