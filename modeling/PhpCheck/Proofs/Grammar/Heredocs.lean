import PhpCheck.Proofs.Grammar.Quoting
import PhpCheck.Proofs.Grammar.Reading.Literals

/-!
Heredocs of plain text.

A heredoc whose text has no escapes and no embedded code (`PlainHeredoc`) may be written with its
label in single quotes or not.  Either way the scan takes it as one token, up to the label that
closes it (`PlainHeredoc.lexes`).  The text is then read in two ways: as a whole, in which case
the indentation of the closing label is taken off all lines at once, or one character after the
other, like any text that may embed code.  Both give the lines without that indentation
(`heredocString_written`).
-/

namespace PhpCheck

open Grammar

/-! ### Heredocs -/

/-- How the label of a heredoc is written where it opens. -/
inductive HeredocForm where
  | bare | double | single
deriving DecidableEq

namespace HeredocForm

def quote? : HeredocForm → Option Char
  | bare => none
  | double => some '"'
  | single => some '\''

/-- A label in single quotes makes a text without embedded code. -/
def kind : HeredocForm → TokenKind
  | single => .nowdoc
  | _ => .heredoc

/-- The label as it is written. -/
def enclose (form : HeredocForm) (label : List Char) : List Char :=
  form.quote?.toList ++ (label ++ form.quote?.toList)

end HeredocForm

/-- A text begins, after indentation, with the label and no further name character. -/
def StartsWithLabel (label text : List Char) : Prop :=
  ∃ c more, text.dropWhile isIndent = label ++ c :: more ∧ isNameChar c = false

theorem startsWithLabel_iff {label text : List Char} : StartsWithLabel label text ↔
    label <+: text.dropWhile isIndent ∧
      ((text.dropWhile isIndent).drop label.length).head?.any (!isNameChar ·) = true := by
  constructor
  · rintro ⟨c, more, htext, hc⟩
    rw [htext]
    simp [hc]
  · rintro ⟨⟨more, htext⟩, hend⟩
    rw [← htext, List.drop_left] at hend
    cases more with
    | nil => cases hend
    | cons c more => exact ⟨c, more, htext.symm, by simpa using hend⟩

instance (label text : List Char) : Decidable (StartsWithLabel label text) :=
  decidable_of_iff _ startsWithLabel_iff.symm

/-- A heredoc with a text of some lines, none of which has a backslash or a dollar sign or looks
like the line that closes it.  The lines of a text are `text.splitOn '\n'`; a heredoc may also be
closed at once and have no lines. -/
structure PlainHeredoc where
  label : List Char
  /-- What ends the line of the label. -/
  lineEnd : List Char
  lines : List (List Char)
  /-- What stands in front of the closing label. -/
  indent : List Char
  label_ne : label ≠ []
  label_name : ∀ c ∈ label, isNameChar c = true
  isLineEnd : IsLineEnd lineEnd
  lines_plain : ∀ line ∈ lines, ∀ c ∈ line, c ∉ ['\n', '\\', '$']
  lines_open : ∀ line ∈ lines, ¬StartsWithLabel label (line ++ ['\n'])
  indent_isIndent : ∀ c ∈ indent, isIndent c = true

/-- A text without the return of the line end that follows it. -/
def withoutReturn (text : List Char) : List Char :=
  if text.getLast? == some '\r' then text.dropLast else text

/-- A line without up to `n` characters of indentation. -/
def undent (n : Nat) (line : List Char) : List Char :=
  line.drop ((line.take n).takeWhile isIndent).length

namespace PlainHeredoc

/-- The text between the first line and the last, as it stands there. -/
def body (d : PlainHeredoc) : List Char := ['\n'].intercalate d.lines

/-- The whole heredoc. -/
def written (d : PlainHeredoc) (form : HeredocForm) : List Char :=
  "<<<".toList ++ (form.enclose d.label ++ (d.lineEnd ++
    (d.lines.flatMap (· ++ ['\n']) ++ (d.indent ++ d.label))))

/-- The text that the heredoc stands for: each line without the indentation of the last one. -/
def text (d : PlainHeredoc) : String :=
  String.ofList (['\n'].intercalate
    (((withoutReturn d.body).splitOn '\n').map (undent d.indent.length)))

/-- A file with one statement, which consists of the heredoc. -/
def file (d : PlainHeredoc) (form : HeredocForm) : String :=
  "<?php " ++ String.ofList (d.written form) ++ ";"

end PlainHeredoc

/-! ### The scan -/

section

variable {label line text rest after : List Char} {lines : List (List Char)}

theorem not_isIndent_of_isNameChar {c : Char} (hc : isNameChar c = true) : isIndent c = false := by
  rw [Bool.eq_false_iff]
  intro h
  simp only [isIndent, Bool.or_eq_true, beq_iff_eq] at h
  rcases h with rfl | rfl <;> exact absurd hc (by decide)

/-- Within a line nothing closes a heredoc. -/
theorem heredocEnd?_line (hline : '\n' ∉ line) :
    heredocEnd? label false (line ++ '\n' :: rest) = heredocEnd? label true rest := by
  induction line with
  | nil =>
    rw [List.nil_append, heredocEnd?.eq_def]
    rfl
  | cons c line ih =>
    obtain ⟨hc, hline⟩ := List.ne_and_not_mem_of_not_mem_cons hline
    rw [List.cons_append, heredocEnd?.eq_def]
    simp only [Bool.false_and, Bool.false_eq_true, if_false]
    rw [beq_false_of_ne (Ne.symm hc), ih hline]

/-- What begins with the label does so within its first line. -/
theorem startsWithLabel_of_begins (hlabel : '\n' ∉ label)
    (hbegins : label <+: (line ++ '\n' :: rest).dropWhile isIndent)
    (hend : (((line ++ '\n' :: rest).dropWhile isIndent).drop label.length).head?.any isNameChar =
      false) : StartsWithLabel label (line ++ ['\n']) := by
  have hdrop : ∀ more, (line ++ '\n' :: more).dropWhile isIndent =
      line.dropWhile isIndent ++ '\n' :: more := by
    intro more
    rw [List.dropWhile_append]
    split
    · rename_i hempty
      rw [List.isEmpty_iff.1 hempty]
      rfl
    · rfl
  obtain ⟨more, hmore⟩ := hbegins
  rw [← hmore, List.drop_left] at hend
  rw [hdrop] at hmore
  obtain ⟨between, hbetween, hrest⟩ | ⟨between, hbetween, hrest⟩ :=
    List.append_eq_append_iff.1 hmore
  · rw [StartsWithLabel, hdrop, hbetween]
    cases between with
    | nil => exact ⟨'\n', [], by simp, rfl⟩
    | cons c between =>
      rw [hrest] at hend
      exact ⟨c, between ++ ['\n'], by simp, by simpa using hend⟩
  · cases between with
    | nil =>
      refine ⟨'\n', [], ?_, rfl⟩
      rw [hdrop, hbetween, List.append_nil]
    | cons c between =>
      obtain rfl := (List.cons.inj hrest).1
      exact absurd (hbetween ▸ List.mem_append_right _ List.mem_cons_self) hlabel

/-- A line that does not begin with the label is passed over. -/
theorem heredocEnd?_open (hlabel : '\n' ∉ label) (hline : '\n' ∉ line)
    (hopen : ¬StartsWithLabel label (line ++ ['\n'])) :
    heredocEnd? label true (line ++ '\n' :: rest) = heredocEnd? label true rest := by
  rw [heredocEnd?.eq_def]
  dsimp only
  rw [if_neg]
  · cases line with
    | nil => rfl
    | cons c line =>
      obtain ⟨hc, hline⟩ := List.ne_and_not_mem_of_not_mem_cons hline
      rw [List.cons_append]
      dsimp only
      rw [beq_false_of_ne (Ne.symm hc), heredocEnd?_line hline]
  · simp only [Bool.true_and, Bool.and_eq_true, Bool.not_eq_true', not_and,
      List.isPrefixOf_iff_prefix]
    exact fun hbegins hend => hopen (startsWithLabel_of_begins hlabel hbegins hend)

theorem heredocEnd?_lines (hlabel : '\n' ∉ label) (hlines : ∀ line ∈ lines, '\n' ∉ line)
    (hopen : ∀ line ∈ lines, ¬StartsWithLabel label (line ++ ['\n'])) :
    heredocEnd? label true (lines.flatMap (· ++ ['\n']) ++ rest) = heredocEnd? label true rest := by
  induction lines with
  | nil => rfl
  | cons line lines ih =>
    obtain ⟨hline, hlines⟩ := List.forall_mem_cons.1 hlines
    obtain ⟨hopen, hopens⟩ := List.forall_mem_cons.1 hopen
    have happend : (line :: lines).flatMap (· ++ ['\n']) ++ rest =
        line ++ '\n' :: (lines.flatMap (· ++ ['\n']) ++ rest) := by simp
    rw [happend, heredocEnd?_open hlabel hline hopen, ih hlines hopens]

/-- A line that begins with the label closes the heredoc. -/
theorem heredocEnd?_closing {indent : List Char} (hindent : ∀ c ∈ indent, isIndent c = true)
    (hne : label ≠ []) (hname : ∀ c ∈ label, isNameChar c = true)
    (hafter : after.head?.any isNameChar = false) :
    heredocEnd? label true (indent ++ (label ++ after)) = some after := by
  have hdrop : (indent ++ (label ++ after)).dropWhile isIndent = label ++ after := by
    obtain ⟨c, label, rfl⟩ := List.exists_cons_of_ne_nil hne
    have hc := not_isIndent_of_isNameChar (hname c List.mem_cons_self)
    rw [List.dropWhile_append_of_pos hindent, List.cons_append,
      List.dropWhile_cons_of_neg (by rw [hc]; nofun)]
  rw [heredocEnd?.eq_def]
  dsimp only
  rw [hdrop, List.drop_left, hafter, List.isPrefixOf_iff_prefix.2 (List.prefix_append _ _)]
  rfl

/-- What stands first of a label as it is written. -/
theorem HeredocForm.head_enclose (form : HeredocForm) (rest : List Char) (hne : label ≠ [])
    (hname : ∀ c ∈ label, isNameChar c = true) :
    ∃ x more, form.enclose label ++ rest = x :: more ∧ isIndent x = false ∧
      (some x).filter (fun q => q == '\'' || q == '"') = form.quote? := by
  cases form with
  | double | single => exact ⟨_, _, rfl, rfl, rfl⟩
  | bare =>
    obtain ⟨x, more, rfl⟩ := List.exists_cons_of_ne_nil hne
    have hx := hname x List.mem_cons_self
    have hquote : (x == '\'' || x == '"') = false := by
      rw [Bool.eq_false_iff]
      intro h
      simp only [Bool.or_eq_true, beq_iff_eq] at h
      rcases h with rfl | rfl <;> exact absurd hx (by decide)
    refine ⟨x, _, rfl, not_isIndent_of_isNameChar hx, ?_⟩
    simp only [Option.filter_some, hquote]
    rfl

/-- The scan of a heredoc, from its label on. -/
theorem heredoc_eq (form : HeredocForm) {src : Source} {start : Nat} {c : Cursor}
    {lineEnd body : List Char} (hne : label ≠ []) (hname : ∀ c ∈ label, isNameChar c = true)
    (hlineEnd : IsLineEnd lineEnd) (hclose : heredocEnd? label true body = some after)
    (hc : c.rest.dropWhile isIndent = form.enclose label ++ (lineEnd ++ body)) :
    heredoc src start c = .ok (form.kind, after) := by
  obtain ⟨x, more, hhead, -, hquote⟩ := form.head_enclose (lineEnd ++ body) hne hname
  have hskip : c.rest.dropWhile isIndent = x :: more := hc.trans hhead
  -- What follows the label: the quote that closes it, and the line end.
  have hlabel : (if form.quote?.isSome then (x :: more).drop 1 else x :: more) =
      label ++ (form.quote?.toList ++ (lineEnd ++ body)) := by
    rw [← hhead]
    cases form <;> simp [HeredocForm.enclose, HeredocForm.quote?]
  have hend : (form.quote?.toList ++ (lineEnd ++ body)).head?.any isNameChar = false := by
    rcases hlineEnd with rfl | rfl <;> cases form <;> rfl
  have hclosed : (form.quote?.isSome &&
      (form.quote?.toList ++ (lineEnd ++ body)).head? != form.quote?) = false := by
    cases form <;> simp [HeredocForm.quote?]
  have hline : (if form.quote?.isSome then (form.quote?.toList ++ (lineEnd ++ body)).drop 1
      else form.quote?.toList ++ (lineEnd ++ body)) = lineEnd ++ body := by
    cases form <;> rfl
  have hkind : (if form.quote? == some '\'' then TokenKind.nowdoc else .heredoc) = form.kind := by
    cases form <;> rfl
  obtain ⟨htake, hdrop⟩ := takeWhile_name hname hend
  simp only [heredoc, hskip, List.head?_cons, hquote, hlabel, htake, hdrop, hclosed, hline, hkind,
    List.isEmpty_eq_false_iff.2 hne, Bool.false_eq_true, if_false]
  rcases hlineEnd with rfl | rfl <;> simp [hclose]

theorem headToken_heredoc {src : Source} {c : Cursor} (hc : c.rest = '<' :: '<' :: '<' :: rest) :
    Scanner.headToken src c '<' ('<' :: '<' :: rest) =
      match heredoc src c.offset (c.skip 3) with
      | .ok (kind, rest) => (.ok (Scanner.token src kind c (c.upTo rest)), c.upTo rest)
      | .error e => (.error e, Scanner.atEnd src) := by
  obtain ⟨offset, chars⟩ := c
  obtain rfl := hc
  rfl

end

namespace PlainHeredoc

theorem not_mem_label (d : PlainHeredoc) {c : Char} (hc : isNameChar c = false) : c ∉ d.label := by
  intro h
  rw [d.label_name c h] at hc
  cases hc

/-- A heredoc is one token, which ends with its closing label. -/
theorem lexes (d : PlainHeredoc) (form : HeredocForm) {after : List Char}
    (hafter : after.head?.any isNameChar = false) : Lexes form.kind (d.written form) after where
  head := ⟨_, _, rfl, rfl⟩
  kind_ne := by cases form <;> decide
  cut := by
    intro src c head tail hc hwritten
    have hlines : ∀ line ∈ d.lines, '\n' ∉ line :=
      fun line hline h => d.lines_plain line hline '\n' h List.mem_cons_self
    have hclose : heredocEnd? d.label true
        (d.lines.flatMap (· ++ ['\n']) ++ (d.indent ++ (d.label ++ after))) = some after := by
      rw [heredocEnd?_lines (d.not_mem_label rfl) hlines d.lines_open]
      exact heredocEnd?_closing d.indent_isIndent d.label_ne d.label_name hafter
    have hopen : head :: tail = '<' :: '<' :: '<' :: (form.enclose d.label ++ (d.lineEnd ++
        (d.lines.flatMap (· ++ ['\n']) ++ (d.indent ++ (d.label ++ after))))) := by
      rw [hwritten]
      simp [written]
    have hrest : (c.skip 3).rest.dropWhile isIndent = form.enclose d.label ++ (d.lineEnd ++
        (d.lines.flatMap (· ++ ['\n']) ++ (d.indent ++ (d.label ++ after)))) := by
      obtain ⟨x, more, hhead, hindent, -⟩ := form.head_enclose (d.lineEnd ++
        (d.lines.flatMap (· ++ ['\n']) ++ (d.indent ++ (d.label ++ after)))) d.label_ne d.label_name
      rw [Cursor.skip, hc, hopen]
      show (List.drop 3 ('<' :: '<' :: '<' :: _)).dropWhile isIndent = _
      rw [hhead]
      exact List.dropWhile_cons_of_neg (by rw [hindent]; exact Bool.false_ne_true)
    rw [hopen] at hc
    cases hopen
    rw [headToken_heredoc hc, heredoc_eq form d.label_ne d.label_name d.isLineEnd hclose hrest]

end PlainHeredoc

/-! ### The parts of the token -/

section

variable {first body closing : List Char}

theorem takeWhile_line (hfirst : '\n' ∉ first) (rest : List Char) :
    (first ++ '\n' :: rest).takeWhile (· != '\n') = first := by
  have hchars : ∀ c ∈ first, (c != '\n') = true := by
    intro c hc
    exact bne_iff_ne.2 fun h => hfirst (h ▸ hc)
  rw [List.takeWhile_append_of_pos hchars, List.takeWhile_cons_of_neg (by decide), List.append_nil]

/-- The parts of a text that ends with a line of its own. -/
theorem heredocBody?_of_last {text : List Char} (upToLast : List Char) (hfirst : '\n' ∉ first)
    (hclosing : '\n' ∉ closing) {rest : List Char} (htext : text = first ++ '\n' :: rest)
    (hlast : text = upToLast ++ '\n' :: closing) :
    heredocBody? text = some
      { offset := byteSize first + 1
        size := byteSize (withoutReturn upToLast) - (byteSize first + 1)
        indent := byteSize (closing.takeWhile isIndent) } := by
  have hopen : text.takeWhile (· != '\n') = first := by
    rw [htext, takeWhile_line hfirst]
  have hlength : first.length ≠ text.length := by
    rw [htext, List.length_append, List.length_cons]
    omega
  have hend : (text.reverse.takeWhile (· != '\n')).reverse = closing := by
    have hreverse : text.reverse = closing.reverse ++ '\n' :: upToLast.reverse := by
      rw [hlast, List.reverse_append, List.reverse_cons, List.append_assoc]
      rfl
    rw [hreverse, takeWhile_line (fun h => hclosing (List.mem_reverse.1 h)), List.reverse_reverse]
  have htake : text.take (text.length - closing.length - 1) = upToLast := by
    have hcount : text.length - closing.length - 1 = upToLast.length := by
      rw [hlast, List.length_append, List.length_cons]
      omega
    rw [hcount, hlast, List.take_left]
  simp only [heredocBody?, hopen, hend, htake, if_neg hlength, withoutReturn]

theorem withoutReturn_isPrefix (text : List Char) : withoutReturn text <+: text := by
  rw [withoutReturn]
  split
  · exact List.dropLast_prefix text
  · exact List.prefix_refl text

/-- A return at the end of a text belongs to its last line. -/
theorem withoutReturn_append (body : List Char) :
    withoutReturn (first ++ '\n' :: body) = first ++ '\n' :: withoutReturn body := by
  cases body using List.reverseRecOn with
  | nil => simp [withoutReturn]
  | append_singleton body c =>
    have hassoc : first ++ '\n' :: (body ++ [c]) = first ++ '\n' :: body ++ [c] := by simp
    rw [hassoc, withoutReturn, withoutReturn, List.getLast?_concat, List.getLast?_concat,
      List.dropLast_concat, List.dropLast_concat]
    split
    · rfl
    · simp

theorem heredocBody?_eq (hfirst : '\n' ∉ first) (hclosing : '\n' ∉ closing) :
    heredocBody? (first ++ '\n' :: (body ++ '\n' :: closing)) = some
      { offset := byteSize first + 1
        size := byteSize (withoutReturn body)
        indent := byteSize (closing.takeWhile isIndent) } := by
  rw [heredocBody?_of_last (first ++ '\n' :: body) hfirst hclosing rfl (by simp),
    withoutReturn_append, byteSize_append, byteSize_cons]
  have hsize : '\n'.utf8Size = 1 := rfl
  simp only [hsize, Nat.add_sub_add_left, Nat.add_sub_cancel_left]

/-- Without lines there is no text. -/
theorem heredocBody?_empty (hfirst : '\n' ∉ first) (hclosing : '\n' ∉ closing) :
    heredocBody? (first ++ '\n' :: closing) = some
      { offset := byteSize first + 1
        size := 0
        indent := byteSize (closing.takeWhile isIndent) } := by
  have hle : byteSize (withoutReturn first) ≤ byteSize first := by
    obtain ⟨after, hafter⟩ := withoutReturn_isPrefix first
    have hsize := congrArg byteSize hafter
    rw [byteSize_append] at hsize
    omega
  rw [heredocBody?_of_last first hfirst hclosing rfl rfl, Nat.sub_eq_zero_of_le (by omega)]

end

theorem byteSize_of_isIndent {text : List Char} (htext : ∀ c ∈ text, isIndent c = true) :
    byteSize text = text.length := by
  induction text with
  | nil => rfl
  | cons c text ih =>
    obtain ⟨hc, htext⟩ := List.forall_mem_cons.1 htext
    rw [byteSize_cons, Pieces.utf8Size_of_isIndent hc, ih htext, List.length_cons, Nat.add_comm]

namespace PlainHeredoc

/-- The lines between the first and the last, with their ends. -/
theorem flatMap_lines {lines : List (List Char)} (hne : lines ≠ []) :
    lines.flatMap (· ++ ['\n']) = ['\n'].intercalate lines ++ ['\n'] := by
  induction lines with
  | nil => exact absurd rfl hne
  | cons line lines ih =>
    cases lines with
    | nil => simp
    | cons next lines =>
      rw [List.flatMap_cons, ih (List.cons_ne_nil _ _), List.intercalate_cons_cons]
      simp

/-- Nothing in the text begins an escape or embedded code. -/
theorem plain_text (d : PlainHeredoc) : ∀ c ∈ withoutReturn d.body, c ∉ ['\\', '$'] := by
  intro c hc
  have hbody : c ∈ d.body := (withoutReturn_isPrefix d.body).subset hc
  have hlines : d.lines ≠ [] := by
    intro h
    rw [body, h] at hbody
    exact List.not_mem_nil hbody
  have hall : c ∈ d.lines.flatMap (· ++ ['\n']) := by
    rw [flatMap_lines hlines]
    exact List.mem_append_left _ hbody
  obtain ⟨line, hline, hmem⟩ := List.mem_flatMap.1 hall
  rcases List.mem_append.1 hmem with hmem | hmem
  · exact fun h => d.lines_plain line hline c hmem (List.mem_cons_of_mem _ h)
  · rw [List.mem_singleton.1 hmem]
    decide

/-- The first line. -/
theorem exists_first (d : PlainHeredoc) (form : HeredocForm) : ∃ first, '\n' ∉ first ∧
    "<<<".toList ++ (form.enclose d.label ++ d.lineEnd) = first ++ ['\n'] := by
  have hopening : '\n' ∉ "<<<".toList ++ form.enclose d.label := by
    have hlabel := d.not_mem_label (c := '\n') rfl
    cases form <;> simpa [HeredocForm.enclose, HeredocForm.quote?] using hlabel
  rcases d.isLineEnd with hend | hend
  · exact ⟨_, hopening, by rw [hend, List.append_assoc]⟩
  · refine ⟨"<<<".toList ++ form.enclose d.label ++ ['\r'], ?_, by simp [hend]⟩
    rw [List.mem_append]
    exact not_or.2 ⟨hopening, by decide⟩

/-- The last line. -/
theorem not_mem_last (d : PlainHeredoc) : '\n' ∉ d.indent ++ d.label := by
  rw [List.mem_append]
  exact not_or.2 ⟨fun h => absurd (d.indent_isIndent _ h) (by decide), d.not_mem_label rfl⟩

theorem takeWhile_last (d : PlainHeredoc) :
    (d.indent ++ d.label).takeWhile isIndent = d.indent := by
  obtain ⟨c, more, hlabel⟩ := List.exists_cons_of_ne_nil d.label_ne
  have hc := not_isIndent_of_isNameChar (d.label_name c (hlabel ▸ List.mem_cons_self))
  rw [List.takeWhile_append_of_pos d.indent_isIndent, hlabel,
    List.takeWhile_cons_of_neg (by rw [hc]; nofun), List.append_nil]

/-- The body is where the parts say, and the indentation is that of the last line. -/
theorem heredocBody?_written (d : PlainHeredoc) (form : HeredocForm) :
    ∃ before after, d.written form = before ++ (withoutReturn d.body ++ after) ∧
      heredocBody? (d.written form) = some
        { offset := byteSize before
          size := byteSize (withoutReturn d.body)
          indent := d.indent.length } := by
  obtain ⟨first, hfirst, hopening⟩ := d.exists_first form
  have hindent : byteSize ((d.indent ++ d.label).takeWhile isIndent) = d.indent.length := by
    rw [d.takeWhile_last, byteSize_of_isIndent d.indent_isIndent]
  have hsize : byteSize (first ++ ['\n']) = byteSize first + 1 := byteSize_append _ _
  have hwritten : d.written form = first ++ '\n' ::
      (d.lines.flatMap (· ++ ['\n']) ++ (d.indent ++ d.label)) := by
    rw [written, ← List.append_assoc _ d.lineEnd, ← List.append_assoc, hopening, List.append_assoc]
    rfl
  refine ⟨first ++ ['\n'], ?_⟩
  rw [hwritten, hsize]
  by_cases hlines : d.lines = []
  · have hbody : withoutReturn d.body = [] := by
      rw [body, hlines]
      rfl
    refine ⟨d.indent ++ d.label, ?_, ?_⟩
    · simp [hlines, hbody]
    · rw [hlines, List.flatMap_nil, List.nil_append, heredocBody?_empty hfirst d.not_mem_last,
        hbody, hindent]
      rfl
  · obtain ⟨after, hafter⟩ := withoutReturn_isPrefix d.body
    have hcontent : d.lines.flatMap (· ++ ['\n']) ++ (d.indent ++ d.label) =
        d.body ++ '\n' :: (d.indent ++ d.label) := by
      rw [flatMap_lines hlines, List.append_assoc]
      rfl
    refine ⟨after ++ '\n' :: (d.indent ++ d.label), ?_, ?_⟩
    · rw [hcontent]
      nth_rewrite 1 [← hafter]
      simp
    · rw [hcontent, heredocBody?_eq hfirst d.not_mem_last, hindent]

end PlainHeredoc

namespace Grammar

/-! ### Taking off the indentation -/

section

variable {n left : Nat} {c : Char} {line rest : List Char} {lines : List (List Char)}

theorem undent_zero (line : List Char) : undent 0 line = line := rfl

theorem undent_blank (hc : isIndent c = true) (hleft : left ≠ 0) :
    undent left (c :: line) = undent (left - 1) line := by
  obtain ⟨left, rfl⟩ := Nat.exists_eq_succ_of_ne_zero hleft
  rw [undent, List.take_succ_cons, List.takeWhile_cons_of_pos hc]
  rfl

theorem undent_stop (hc : ¬(isIndent c && left != 0) = true) :
    undent left (c :: line) = c :: line := by
  cases left with
  | zero => rfl
  | succ left =>
    have hchar : ¬isIndent c = true := by simpa using hc
    rw [undent, List.take_succ_cons, List.takeWhile_cons_of_neg hchar]
    rfl

/-- Lines of which the first may lose other indentation than the others. -/
def undentAll (n left : Nat) : List (List Char) → List (List Char)
  | [] => []
  | line :: lines => undent left line :: lines.map (undent n)

theorem undentAll_self (lines : List (List Char)) : undentAll n n lines = lines.map (undent n) := by
  cases lines <;> rfl

theorem intercalate_cons (sep : List Char) (c : Char) (line : List Char)
    (lines : List (List Char)) :
    sep.intercalate ((c :: line) :: lines) = c :: sep.intercalate (line :: lines) := by
  cases lines <;> simp [List.intercalate_cons_cons]

/-- Indentation is taken off a text as it is off its lines. -/
theorem dedent_eq_undentAll (n left : Nat) (text : List Char) :
    dedent n left text = ['\n'].intercalate (undentAll n left (text.splitOn '\n')) := by
  induction text generalizing left with
  | nil => simp [dedent, undentAll, undent]
  | cons c rest ih =>
    have hsplit : (c :: rest).splitOn '\n' =
        if c == '\n' then [] :: rest.splitOn '\n' else (rest.splitOn '\n').modifyHead (c :: ·) :=
      List.splitOnP_cons_eq_if_modifyHead c rest
    obtain ⟨line, lines, hlines⟩ : ∃ line lines, rest.splitOn '\n' = line :: lines :=
      List.exists_cons_of_ne_nil (List.splitOnP_ne_nil _ rest)
    rw [hsplit, dedent]
    split
    · rename_i hc
      rw [ih, undentAll_self, hlines, beq_iff_eq.1 hc]
      simp [undentAll, undent, List.intercalate_cons_cons]
    · rw [hlines, List.modifyHead_cons, undentAll]
      split
      · rename_i hblank
        obtain ⟨hc, hleft⟩ := Bool.and_eq_true_iff.1 hblank
        rw [ih, hlines, undent_blank hc (bne_iff_ne.1 hleft), undentAll]
      · rename_i hstop
        rw [ih, hlines, undent_stop hstop, undentAll, undent_zero, intercalate_cons]

theorem dedent_blank (hblank : (isIndent c && left != 0) = true) :
    dedent n left (c :: rest) = dedent n (left - 1) rest := by
  have hc : c ≠ '\n' := by
    rintro rfl
    exact absurd (Bool.and_eq_true_iff.1 hblank).1 (by decide)
  rw [dedent, beq_false_of_ne hc, if_neg Bool.false_ne_true, if_pos hblank]

theorem dedent_kept (hkept : ¬(isIndent c && left != 0) = true) :
    dedent n left (c :: rest) =
      c :: dedent n (if c == '\n' && !rest.isEmpty then n else 0) rest := by
  rw [dedent, if_neg hkept]
  cases rest with
  | nil => split <;> rfl
  | cons x rest => cases c == '\n' <;> rfl

theorem dedent_eq (n : Nat) (text : List Char) :
    dedent n n text = ['\n'].intercalate ((text.splitOn '\n').map (undent n)) := by
  rw [dedent_eq_undentAll, undentAll_self]

end

/-! ### The reading -/

namespace Pieces

variable {src : Source} {below : Below} {indent stop : Nat} {p : Pieces} {c : Char}
  {rest text : List Char} {s : State}

theorem step_blank (hmargin : p.margin ≠ 0) (hc : isIndent c = true) :
    p.step below indent none stop c rest src s =
      .ok { p with margin := p.margin - 1, offset := p.offset + 1, rest } s := by
  unfold step
  rw [bne_iff_ne.2 hmargin, hc]
  rfl

/-- A character that nothing begins with is kept, and a line end is followed by indentation. -/
theorem step_kept (hmargin : ¬(isIndent c && p.margin != 0) = true) (hc : c ∉ ['\\', '$'])
    (hrest : '$' ∉ rest) :
    p.step below indent none stop c rest src s =
      .ok { p.keep c rest with margin := if c == '\n' && !rest.isEmpty then indent else 0 } s := by
  simp only [List.mem_cons, List.not_mem_nil, or_false, not_or] at hc
  rw [Bool.and_comm, Bool.not_eq_true] at hmargin
  unfold step
  simp only [hmargin, Bool.false_eq_true, if_false]
  cases rest with
  | nil =>
    rw [List.isEmpty_nil, Bool.not_true, Bool.and_false]
    rfl
  | cons x rest =>
    have hx : x ≠ '$' := fun h => hrest (h ▸ List.mem_cons_self)
    simp only [beq_false_of_ne hc.1, beq_false_of_ne hc.2, beq_false_of_ne hx, Bool.false_and,
      Bool.and_false, Bool.false_eq_true, if_false, List.isEmpty_cons, Bool.not_false,
      Bool.and_true]
    show (if c == '\n' then _ else _ : Parse Pieces) src s = _
    split
    · rfl
    · rfl

/-- Reading plain text keeps it without its indentation. -/
theorem run_plain (src : Source) (below : Below) (indent stop : Nat) (s : State) {p : Pieces}
    {fuel : Nat} (hrest : p.rest = text) (htext : ∀ c ∈ text, c ∉ ['\\', '$'])
    (hfuel : text.length ≤ fuel) :
    ∃ p', run below indent none stop fuel p src s = .ok p' s ∧ p'.parts = p.parts ∧
      p'.literal = (dedent indent p.margin text).reverse ++ p.literal := by
  induction text generalizing fuel p with
  | nil =>
    refine ⟨p, ?_, rfl, rfl⟩
    cases fuel <;>
    · rw [run, hrest]
      rfl
  | cons c rest ih =>
    obtain ⟨hc, htext⟩ := List.forall_mem_cons.1 htext
    obtain ⟨fuel, rfl⟩ := Nat.exists_eq_add_of_le' (Nat.lt_of_lt_of_le (Nat.succ_pos _) hfuel)
    have hfuel : rest.length ≤ fuel := Nat.le_of_succ_le_succ hfuel
    have hrun : run below indent none stop (fuel + 1) p =
        p.step below indent none stop c rest >>= run below indent none stop fuel := by
      rw [run, hrest]
    rw [hrun]
    by_cases hmargin : (isIndent c && p.margin != 0) = true
    · obtain ⟨hblank, hne⟩ := Bool.and_eq_true_iff.1 hmargin
      obtain ⟨p', hp', hparts, hliteral⟩ := ih
        (p := { p with margin := p.margin - 1, offset := p.offset + 1, rest }) rfl htext hfuel
      refine ⟨p', ?_, hparts, ?_⟩
      · rw [bind_ok (step_blank (bne_iff_ne.1 hne) hblank), hp']
      · rw [hliteral, dedent_blank hmargin]
    · have hdollar : '$' ∉ rest := fun h => htext '$' h (by decide)
      obtain ⟨p', hp', hparts, hliteral⟩ := ih (p := { p.keep c rest with
        margin := if c == '\n' && !rest.isEmpty then indent else 0 }) rfl htext hfuel
      refine ⟨p', ?_, hparts, ?_⟩
      · rw [bind_ok (step_kept hmargin hc hdollar), hp']
      · rw [hliteral, dedent_kept hmargin, List.reverse_cons, List.append_assoc]
        rfl

end Pieces

/-- Plain text is read as a literal. -/
theorem interpolated_plain (below : Below) {src : Source} {start stop : Nat} (indent : Nat)
    {text : List Char} (span : Span) (s : State) (htext : src.slice start stop = text)
    (hplain : ∀ c ∈ text, c ∉ ['\\', '$']) :
    interpolated below span start stop indent none src s =
      .ok (Node.leaf .stringLiteral span (String.ofList (dedent indent indent text))) s := by
  let first : Pieces :=
    { parts := [], literal := [], since := start, margin := indent, offset := start, rest := text }
  have hfirst : first.rest = text := rfl
  obtain ⟨p, hrun, hparts, hliteral⟩ :=
    Pieces.run_plain src below indent stop s hfirst hplain (Nat.le_refl _)
  have hread : interpolated below span start stop indent none src s =
      (Pieces.run below indent none stop text.length first >>= fun p =>
        pure (quotedNode span (p.flush src stop).parts.reverse)) src s := by
    subst htext
    show (Pieces.run below indent none stop (src.slice start stop).length first >>= fun p => _)
      src s = _
    refine bind_congr_right fun p s => ?_
    rw [quotedNode]
    split <;> rfl
  rw [hread, bind_ok hrun, Quoting.quotedNode_flush span stop hparts, hliteral,
    List.reverse_append, List.reverse_reverse]
  rfl

/-- Either way of reading a heredoc of plain text gives its text. -/
theorem heredocString_written (d : PlainHeredoc) (form : HeredocForm) (below : Below) {src : Source}
    {tok : Token} {s : State} (hword : tok.word = (form.kind, String.ofList (d.written form)))
    (hat : src.HasAt tok.span.start tok.text.toList) (hs : s.current = some tok) :
    heredocString below src s =
      .ok (Node.leaf .stringLiteral tok.span d.text) s.advance := by
  obtain ⟨hkind, htext⟩ := Prod.mk.inj hword
  obtain ⟨before, after, hwritten, hparts⟩ := d.heredocBody?_written form
  rw [htext, String.toList_ofList] at hat
  have hslice : src.slice (tok.span.start + byteSize before)
      (tok.span.start + byteSize before + byteSize (withoutReturn d.body)) =
        withoutReturn d.body := by
    rw [hwritten] at hat
    exact hat.drop.take.slice
  have hadvance : advance src s = .ok (some tok) s.advance := hs ▸ rfl
  rw [heredocString, bind_ok hadvance]
  dsimp only
  rw [htext, String.toList_ofList, hparts]
  dsimp only
  rw [hkind]
  cases form with
  | single =>
    show EStateM.Result.ok (Node.leaf .stringLiteral tok.span
      (String.ofList (dedent d.indent.length d.indent.length (src.slice _ _)))) _ = _
    rw [hslice, dedent_eq]
    rfl
  | bare | double =>
    show interpolated below tok.span _ _ d.indent.length none src s.advance = _
    rw [interpolated_plain below _ tok.span s.advance hslice d.plain_text, dedent_eq]
    rfl

/-- Where an expression begins with a heredoc, the heredoc is read. -/
theorem primary_heredoc {form : HeredocForm} (below : Below) (src : Source) {tok : Token}
    {s : State} (hkind : tok.kind = form.kind) (hs : s.current = some tok) :
    primary below src s = heredocString below src s := by
  obtain ⟨kind, span, spelled⟩ := tok
  obtain ⟨current, doc, prevEnd, rest, errors⟩ := s
  obtain rfl := hkind
  obtain rfl := hs
  cases form <;> rfl

end Grammar

/-! ### The file -/

namespace PlainHeredoc

variable (d : PlainHeredoc) (form : HeredocForm)

theorem primary_written (below : Below) {src : Source} {tok : Token} {s : State}
    (hword : tok.word = (form.kind, String.ofList (d.written form)))
    (hat : src.HasAt tok.span.start tok.text.toList) (hs : s.current = some tok) :
    primary below src s = .ok (Node.leaf .stringLiteral tok.span d.text) s.advance := by
  rw [primary_heredoc below src (congrArg Prod.fst hword) hs, heredocString_written d form below
    hword hat hs]

theorem tokenize_file : ∃ toks : List Token,
    tokenize (.ofString (d.file form)) = toks.map .ok ∧ toks.map Token.word =
      [openWord, (form.kind, String.ofList (d.written form)), (.semicolon, ";")] := by
  have hspace : ∀ x ∈ [' '], isBlank x = true := List.forall_mem_singleton.2 rfl
  refine tokenize_openTag ?_ (((d.lexes form rfl).splits hspace).append
    (lexes_semicolon []).splits_self)
  rw [file, String.toList_append, String.toList_append, String.toList_ofList]
  simp

theorem parse_file : (parse (.ofString (d.file form))).1.unplaced = Quoting.fileNode d.text ∧
    (parse (.ofString (d.file form))).2 = [] := by
  obtain ⟨toks, htoks, hwords⟩ := d.tokenize_file form
  obtain ⟨opening, others, rfl, hopening, hothers⟩ := List.map_eq_cons_iff.1 hwords
  obtain ⟨tok, ends, rfl, hword, hends⟩ := List.map_eq_cons_iff.1 hothers
  obtain ⟨semicolon, rfl, hsemicolon⟩ := List.map_eq_singleton_iff.1 hends
  let src : Source := .ofString (d.file form)
  have hmem : .ok tok ∈ tokenize src := by simp [src, htoks]
  have hplaced : tok.Placed src 0 := placed_of_mem_tokenize hmem
  have hkind : tok.kind ∈ literalKinds := by
    rw [show tok.kind = form.kind from congrArg Prod.fst hword]
    cases form <;> decide
  have hread : primary (descend (embeddedCode src.size) 126) src
      (.before [] opening.span.stop [tok, semicolon]) = _ :=
    d.primary_written form _ hword hplaced.hasAt rfl
  have hadvance : State.advance (.before [] opening.span.stop [tok, semicolon]) =
      .before [] tok.span.stop [semicolon] :=
    settle_plain (stops_semicolon 0 (congrArg Prod.fst hsemicolon)).plain
  rw [hadvance] at hread
  obtain ⟨span, hfile⟩ := statementsUntil_primary (embeddedCode src.size) 126
    (congrArg Prod.fst hopening) hkind (congrArg Prod.fst hsemicolon) hread
  have hlexemes : tokenize src = [.ok opening, .ok tok, .ok semicolon] := htoks
  have htop : statementsUntil (top src) [] src
      (.ofLexemes [.ok opening, .ok tok, .ok semicolon]) = _ := hfile
  rw [parse_eq src, hlexemes, htop]
  exact ⟨by simp [Quoting.fileNode, Node.unplacedAll], rfl⟩

end PlainHeredoc

/-- However the label of a heredoc of plain text is written, the heredoc is cut off as one token
wherever no name goes on behind it, and wherever that token stands it is read as a literal with
the same text, the lines without the indentation of the last one; so is a file with it. -/
theorem heredoc_forms_agree (d : PlainHeredoc) (form : HeredocForm) :
    (∀ after, after.head?.any isNameChar = false → Lexes form.kind (d.written form) after) ∧
      (∀ (below : Below) (src : Source) (tok : Token) (s : Grammar.State),
        tok.word = (form.kind, String.ofList (d.written form)) →
        src.HasAt tok.span.start tok.text.toList → s.current = some tok →
          primary below src s = .ok (Node.leaf .stringLiteral tok.span d.text) s.advance) ∧
      (∃ toks : List Token, tokenize (.ofString (d.file form)) = toks.map .ok ∧
        toks.map Token.word =
          [openWord, (form.kind, String.ofList (d.written form)), (.semicolon, ";")]) ∧
      (parse (.ofString (d.file form))).1.unplaced = Quoting.fileNode d.text ∧
      (parse (.ofString (d.file form))).2 = [] :=
  ⟨fun _ hafter => d.lexes form hafter, fun below _ _ _ => d.primary_written form below,
    d.tokenize_file form, d.parse_file form⟩

/-- Lines with more, less and no indentation, one without a character, one that begins with a
longer name, and a return in front of the last line end. -/
def PlainHeredoc.uneven : PlainHeredoc where
  label := ['E', 'O', 'T']
  lineEnd := ['\r', '\n']
  lines := [[' ', ' ', ' ', 'é', '\r'], [], [' ', 'E', 'O', 'T', 'X', '{'], ['\t', 'b', '\r']]
  indent := [' ', '\t']
  label_ne := by decide
  label_name := List.all_eq_true.1 rfl
  isLineEnd := .inr rfl
  lines_plain := by simp
  lines_open := by decide +kernel
  indent_isIndent := List.all_eq_true.1 rfl

theorem heredoc_forms_agree_uneven :
    let src := Source.ofString (PlainHeredoc.uneven.file .single)
    let tok : Token :=
      { kind := .nowdoc
        span := src.span 6 48
        text := String.ofList (PlainHeredoc.uneven.written .single) }
    let s : Grammar.State :=
      { current := some tok, doc := none, prevEnd := 0, rest := [], errors := [] }
    Lexes .heredoc (PlainHeredoc.uneven.written .bare) [')'] ∧
      primary (top src) src s =
        .ok (Node.leaf .stringLiteral tok.span " é\r\n\nEOTX\x7b\nb") s.advance ∧
      (parse src).1.unplaced =
        (parse (.ofString (PlainHeredoc.uneven.file .bare))).1.unplaced := by
  intro src tok s
  obtain ⟨hlexes, -, -, hbare, -⟩ := heredoc_forms_agree .uneven .bare
  obtain ⟨-, hread, -, hsingle, -⟩ := heredoc_forms_agree .uneven .single
  have hat : src.HasAt tok.span.start tok.text.toList :=
    ⟨"<?php ".toList, [';'], by decide +kernel, by decide +kernel⟩
  have htext : PlainHeredoc.uneven.text = " é\r\n\nEOTX\x7b\nb" := by decide +kernel
  refine ⟨hlexes [')'] rfl, ?_, hsingle.trans hbare.symm⟩
  rw [← htext]
  exact hread (top src) src tok s rfl hat rfl

end PhpCheck
