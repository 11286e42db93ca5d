import PhpCheck.Proofs.Token.Cutting

/-!
Cutting a text into tokens loses nothing.

The tokens of a text and what lies between them tile it (`Tiles`): between tokens of code
there are blanks, after a closing tag there may be one line end, and elsewhere nothing.
One step of the scan adds one tile (`Scanner.next_tiles`), and as each takes at least one
character, the bound on their number cuts none off (`Scanner.takeUpTo_tiles`).
-/

namespace PhpCheck

/-! ### Places in a source text -/

/-- At byte offset `o` of a source text stands `text`. -/
def Source.HasAt (src : Source) (o : Nat) (text : List Char) : Prop :=
  ∃ before after, src.chars = before ++ text ++ after ∧ byteSize before = o

/-- A position that is one of the source text. -/
def Cursor.Within (src : Source) (c : Cursor) : Prop :=
  ∃ before, src.chars = before ++ c.rest ∧ byteSize before = c.offset

section

variable {src : Source} {c d : Cursor} {text : List Char}

theorem Cursor.Within.passes (hc : c.Within src) (hd : c.Passes text d) : d.Within src := by
  obtain ⟨before, hsrc, ho⟩ := hc
  refine ⟨before ++ text, ?_, ?_⟩
  · rw [hsrc, hd.rest, List.append_assoc]
  · rw [byteSize_append, ho, hd.offset]

theorem Cursor.Within.hasAt (hc : c.Within src) (hd : c.Passes text d) :
    src.HasAt c.offset text := by
  obtain ⟨before, hsrc, ho⟩ := hc
  exact ⟨before, d.rest, by rw [hsrc, hd.rest, List.append_assoc], ho⟩

/-- A byte of some text is one of a character of it. -/
theorem exists_char_at {text : List Char} {n : Nat} (hn : n < byteSize text)
    (hone : ∀ x ∈ text, x.utf8Size = 1) :
    ∃ before x after, text = before ++ x :: after ∧ byteSize before = n := by
  induction text generalizing n with
  | nil => exact absurd hn (Nat.not_lt_zero n)
  | cons x text ih =>
    obtain ⟨hx, hone⟩ := List.forall_mem_cons.1 hone
    rw [byteSize_cons, hx] at hn
    cases n with
    | zero => exact ⟨[], x, text, rfl, rfl⟩
    | succ n =>
      obtain ⟨before, y, after, rfl, hb⟩ := ih (n := n) (by omega) hone
      exact ⟨x :: before, y, after, rfl, by rw [byteSize_cons, hx, hb, Nat.add_comm]⟩

theorem utf8Size_of_isBlank {x : Char} (hx : isBlank x = true) : x.utf8Size = 1 := by
  simp only [isBlank, Bool.or_eq_true, beq_iff_eq] at hx
  rcases hx with (((rfl | rfl) | rfl) | rfl) | rfl <;> rfl

/-- At each byte of a run of blanks stands a blank. -/
theorem Cursor.Within.blank_at {o : Nat} (hc : c.Within src) (hd : c.Passes text d)
    (hb : ∀ x ∈ text, isBlank x = true) (hco : c.offset ≤ o) (hod : o < d.offset) :
    ∃ x, isBlank x = true ∧ src.HasAt o [x] := by
  rw [hd.offset] at hod
  obtain ⟨before, x, after, rfl, hn⟩ := exists_char_at (n := o - c.offset) (by omega)
    fun x hx => utf8Size_of_isBlank (hb x hx)
  obtain ⟨front, hsrc, ho⟩ := hc
  refine ⟨x, hb x (by simp), front ++ before, after ++ d.rest, ?_, ?_⟩
  · rw [hsrc, hd.rest]
    simp
  · rw [byteSize_append, ho, hn]
    omega

theorem dropBytes_byteSize (before text : List Char) :
    dropBytes (byteSize before) (before ++ text) = text := by
  induction before with
  | nil => cases text <;> simp [dropBytes]
  | cons x before ih =>
    have hx := x.utf8Size_pos
    rw [byteSize_cons, List.cons_append, dropBytes, if_neg (by omega), Nat.add_sub_cancel_left, ih]

theorem takeBytes_byteSize (text after : List Char) :
    takeBytes (byteSize text) (text ++ after) = text := by
  induction text with
  | nil => cases after <;> simp [takeBytes]
  | cons x text ih =>
    have hx := x.utf8Size_pos
    rw [byteSize_cons, List.cons_append, takeBytes, if_neg (by omega), Nat.add_sub_cancel_left, ih]

theorem Source.HasAt.slice {o : Nat} (ht : src.HasAt o text) :
    src.slice o (o + byteSize text) = text := by
  obtain ⟨before, after, hsrc, rfl⟩ := ht
  rw [Source.slice, hsrc, List.append_assoc, dropBytes_byteSize, Nat.add_sub_cancel_left,
    takeBytes_byteSize]

theorem Source.HasAt.le_size {text : List Char} {o : Nat} {whole : String}
    (ht : (Source.ofString whole).HasAt o text) :
    o + byteSize text ≤ (Source.ofString whole).size := by
  obtain ⟨before, after, hsrc, rfl⟩ := ht
  have hsize : (Source.ofString whole).size = byteSize (Source.ofString whole).chars := rfl
  rw [hsize, hsrc, byteSize_append, byteSize_append]
  omega

end

/-! ### Tokens -/

section

variable {src : Source} {c d : Cursor} {t : Token}

theorem Token.Cut.start_eq (ht : t.Cut src c d) : t.span.start = c.offset := by
  rw [ht.span]
  rfl

theorem Token.Cut.stop_eq (ht : t.Cut src c d) : t.span.stop = d.offset := by
  rw [ht.span]
  rfl

theorem Token.Cut.stop_eq_add (ht : t.Cut src c d) :
    t.span.stop = t.span.start + byteSize t.text.toList := by
  rw [ht.stop_eq, ht.start_eq, ht.passes.offset]

theorem Token.Cut.start_lt (ht : t.Cut src c d) : t.span.start < t.span.stop := by
  have hpos := byteSize_pos ht.text_ne
  rw [ht.stop_eq_add]
  omega

theorem Token.Cut.length_lt (ht : t.Cut src c d) : d.rest.length < c.rest.length := by
  have hpos := List.length_pos_iff.2 ht.text_ne
  rw [ht.passes.rest, List.length_append]
  omega

end

/-! ### Tiles -/

/-- A line end that belongs to the closing tag in front of it. -/
def IsLineEnd (text : List Char) : Prop := text = ['\n'] ∨ text = ['\r', '\n']

/-- From a position on, in the mode given, a text consists of some tokens and what may lie
between them. -/
inductive Tiles (src : Source) : Mode → Cursor → List Token → Prop
  | finished {c : Cursor} (hc : c.rest = []) : Tiles src .markup c []
  | blank {c : Cursor} (hb : ∀ x ∈ c.rest, isBlank x = true) : Tiles src .code c []
  | html {c d : Cursor} {t : Token} {ts : List Token} (ht : t.Cut src c d)
      (hk : t.kind = .inlineHtml) (hts : Tiles src .markup d ts) : Tiles src .markup c (t :: ts)
  | opening {c d : Cursor} {t : Token} {ts : List Token} (ht : t.Cut src c d)
      (hk : t.kind ≠ .inlineHtml) (hc : t.kind ≠ .closeTag) (hts : Tiles src .code d ts) :
      Tiles src .markup c (t :: ts)
  | code {c c' d : Cursor} {gap : List Char} {t : Token} {ts : List Token}
      (hgap : c.Passes gap c') (hb : ∀ x ∈ gap, isBlank x = true) (ht : t.Cut src c' d)
      (hk : t.kind ≠ .inlineHtml) (hc : t.kind ≠ .closeTag) (hts : Tiles src .code d ts) :
      Tiles src .code c (t :: ts)
  | closing {c c' d e : Cursor} {gap last : List Char} {t : Token} {ts : List Token}
      (hgap : c.Passes gap c') (hb : ∀ x ∈ gap, isBlank x = true) (ht : t.Cut src c' d)
      (hc : t.kind = .closeTag) (hl : d.Passes last e) (hlast : last = [] ∨ IsLineEnd last)
      (hts : Tiles src .markup e ts) : Tiles src .code c (t :: ts)

namespace Scanner

variable {src : Source} {s s' : Scanner}

theorem afterClosingTag_passes (c : Cursor) :
    ∃ last, c.Passes last (afterClosingTag c) ∧ (last = [] ∨ IsLineEnd last) := by
  unfold afterClosingTag
  split
  · rename_i rest hc
    have hp := c.passes_skip 2
    rw [hc] at hp
    exact ⟨_, hp, .inr (.inr rfl)⟩
  · rename_i rest hc
    have hp := c.passes_skip 1
    rw [hc] at hp
    exact ⟨_, hp, .inr (.inl rfl)⟩
  · exact ⟨[], .refl c, .inl rfl⟩

theorem openingTag_spec {text : List Char} (ht : text ≠ []) :
    (openingTag text).1 ≠ .inlineHtml ∧ (openingTag text).1 ≠ .closeTag ∧
      ∃ x more, text.take (openingTag text).2 = x :: more := by
  obtain ⟨x, more, rfl⟩ := List.exists_cons_of_ne_nil ht
  unfold openingTag
  split
  · exact ⟨nofun, nofun, x, _, rfl⟩
  · split
    · exact ⟨nofun, nofun, x, _, rfl⟩
    · exact ⟨nofun, nofun, x, _, rfl⟩

/-- The characters that are passed over in front of a token of code. -/
theorem passes_blanks (c : Cursor) :
    c.Passes (c.rest.takeWhile isBlank) (c.upTo (c.rest.dropWhile isBlank)) ∧
      ∀ x ∈ c.rest.takeWhile isBlank, isBlank x = true :=
  ⟨c.passes_upTo _ List.takeWhile_append_dropWhile.symm, List.all_eq_true.1 List.all_takeWhile⟩

/-- A step that finds no token is at the end of the text. -/
theorem next_none (hs : s.next src = (none, s')) : Tiles src s.mode s.cursor [] := by
  obtain ⟨mode, c⟩ := s
  unfold next at hs
  cases mode with
  | markup =>
    dsimp only at hs
    split at hs
    · rename_i hc
      exact .finished hc
    · split at hs <;> cases hs
  | code =>
    dsimp only at hs
    split at hs
    · rename_i hc
      have hall := (passes_blanks c).1.rest
      rw [hc, List.append_nil] at hall
      exact .blank (hall ▸ (passes_blanks c).2)
    · split at hs
      · split at hs <;> cases hs
      · cases hs

/-- A step that finds a token adds a tile. -/
theorem next_tiles {t : Token} (hs : s.next src = (some (.ok t), s')) :
    s'.cursor.rest.length < s.cursor.rest.length ∧
      ∀ ts, Tiles src s'.mode s'.cursor ts → Tiles src s.mode s.cursor (t :: ts) := by
  obtain ⟨mode, c⟩ := s
  unfold next at hs
  cases mode with
  | markup =>
    dsimp only at hs
    split at hs
    · cases hs
    rename_i hne
    obtain ⟨x, more, hc⟩ := List.exists_cons_of_ne_nil hne
    split at hs
    · obtain ⟨ht, rfl⟩ := Prod.mk.inj hs
      obtain rfl := Except.ok.inj (Option.some.inj ht)
      obtain ⟨hk, hk', y, ys, htake⟩ := openingTag_spec hne
      have hcut : (token src _ _ _).Cut src _ _ :=
        cut_token (openingTag c.rest).1 (htake ▸ c.passes_skip _)
      exact ⟨hcut.length_lt, fun ts hts => .opening hcut hk hk' hts⟩
    · rename_i hbefore
      obtain ⟨ht, rfl⟩ := Prod.mk.inj hs
      obtain rfl := Except.ok.inj (Option.some.inj ht)
      obtain ⟨n, hn⟩ := Nat.exists_eq_succ_of_ne_zero hbefore
      have hp := c.passes_skip (markupLength c.rest)
      rw [hn, hc, List.take_succ_cons] at hp
      rw [← hn] at hp
      have hcut : (token src _ _ _).Cut src _ _ := cut_token .inlineHtml hp
      exact ⟨hcut.length_lt, fun ts hts => .html hcut rfl hts⟩
  | code =>
    dsimp only at hs
    obtain ⟨hgap, hb⟩ := passes_blanks c
    have hle := hgap.length_le
    split at hs
    · cases hs
    rename_i head tail hrest
    cases hhead : headToken src (c.upTo (c.rest.dropWhile isBlank)) head tail with
    | mk lexeme last =>
      rw [hhead] at hs
      dsimp only at hs
      split at hs
      · rename_i tok
        obtain ⟨hcut, hk⟩ := headToken_cuts hrest hhead
        have hlt := hcut.length_lt
        split at hs
        · rename_i hclose
          obtain ⟨ht, rfl⟩ := Prod.mk.inj hs
          obtain rfl := Except.ok.inj (Option.some.inj ht)
          obtain ⟨after, hp, hlast⟩ := afterClosingTag_passes last
          have hle' := hp.length_le
          exact ⟨by dsimp only; omega, fun ts hts => .closing hgap hb hcut hclose hp hlast hts⟩
        · rename_i hclose
          obtain ⟨ht, rfl⟩ := Prod.mk.inj hs
          obtain rfl := Except.ok.inj (Option.some.inj ht)
          exact ⟨by dsimp only; omega, fun ts hts => .code hgap hb hcut hk hclose hts⟩
      · obtain ⟨ht, -⟩ := Prod.mk.inj hs
        cases Option.some.inj ht

/-- Cutting off tokens as long as there are any tiles the text. -/
theorem takeUpTo_tiles {fuel : Nat} {toks : List Token}
    (hs : takeUpTo src fuel s = toks.map .ok) (hfuel : s.cursor.rest.length ≤ fuel) :
    Tiles src s.mode s.cursor toks := by
  induction fuel generalizing s toks with
  | zero =>
    have hrest : s.cursor.rest = [] := List.length_eq_zero_iff.1 (Nat.le_zero.1 hfuel)
    obtain rfl : toks = [] := List.map_eq_nil_iff.1 hs.symm
    cases hm : s.mode with
    | markup => exact .finished hrest
    | code => exact .blank (by simp [hrest])
  | succ fuel ih =>
    rw [takeUpTo] at hs
    split at hs
    · rename_i s' hnext
      obtain rfl : toks = [] := List.map_eq_nil_iff.1 hs.symm
      exact next_none hnext
    · rename_i lexeme s' hnext
      cases toks with
      | nil => cases hs
      | cons t toks =>
        obtain ⟨rfl, hrest⟩ := List.cons.inj hs
        obtain ⟨hlt, htile⟩ := next_tiles hnext
        exact htile toks (ih hrest (by omega))

end Scanner

/-! ### What the tiles say of the bytes -/

section

variable {src : Source} {m : Mode} {c : Cursor} {ts : List Token} {o : Nat}

/-- A token that stands in the source text where its span says. -/
structure Token.Stands (src : Source) (t : Token) : Prop where
  start_lt : t.span.start < t.span.stop
  stop_eq : t.span.stop = t.span.start + byteSize t.text.toList
  hasAt : src.HasAt t.span.start t.text.toList

theorem Tiles.offset_le (hts : Tiles src m c ts) : ∀ t ∈ ts, c.offset ≤ t.span.start := by
  have hmono : ∀ {c d : Cursor} {text : List Char}, c.Passes text d → c.offset ≤ d.offset := by
    intro c d text hp
    rw [hp.offset]
    exact Nat.le_add_right _ _
  induction hts with
  | finished | blank => exact fun _ ht => absurd ht List.not_mem_nil
  | html ht _ _ ih | opening ht _ _ _ ih =>
    exact List.forall_mem_cons.2 ⟨Nat.le_of_eq ht.start_eq.symm,
      fun t' ht' => Nat.le_trans (hmono ht.passes) (ih t' ht')⟩
  | code hgap _ ht _ _ _ ih =>
    exact List.forall_mem_cons.2 ⟨Nat.le_trans (hmono hgap) (Nat.le_of_eq ht.start_eq.symm),
      fun t' ht' => Nat.le_trans (Nat.le_trans (hmono hgap) (hmono ht.passes)) (ih t' ht')⟩
  | closing hgap _ ht _ hl _ _ ih =>
    have hle := Nat.le_trans (Nat.le_trans (hmono hgap) (hmono ht.passes)) (hmono hl)
    exact List.forall_mem_cons.2 ⟨Nat.le_trans (hmono hgap) (Nat.le_of_eq ht.start_eq.symm),
      fun t' ht' => Nat.le_trans hle (ih t' ht')⟩

theorem Tiles.increasing (hts : Tiles src m c ts) :
    ts.Pairwise fun t t' => t.span.stop ≤ t'.span.start := by
  induction hts with
  | finished | blank => exact .nil
  | html ht _ hts ih | opening ht _ _ hts ih | code _ _ ht _ _ hts ih =>
    exact List.pairwise_cons.2
      ⟨fun t' ht' => Nat.le_trans (Nat.le_of_eq ht.stop_eq) (hts.offset_le t' ht'), ih⟩
  | closing _ _ ht _ hl _ hts ih =>
    refine List.pairwise_cons.2 ⟨fun t' ht' => ?_, ih⟩
    have hle := hts.offset_le t' ht'
    rw [hl.offset] at hle
    rw [ht.stop_eq]
    omega

theorem Tiles.stands (hts : Tiles src m c ts) (hc : c.Within src) : ∀ t ∈ ts, t.Stands src := by
  have hcut : ∀ {c d : Cursor} {t : Token}, c.Within src → t.Cut src c d → t.Stands src :=
    fun hc ht => ⟨ht.start_lt, ht.stop_eq_add, ht.start_eq ▸ hc.hasAt ht.passes⟩
  induction hts with
  | finished | blank => exact fun _ ht => absurd ht List.not_mem_nil
  | html ht _ _ ih | opening ht _ _ _ ih =>
    exact List.forall_mem_cons.2 ⟨hcut hc ht, ih (hc.passes ht.passes)⟩
  | code hgap _ ht _ _ _ ih =>
    have hc' := hc.passes hgap
    exact List.forall_mem_cons.2 ⟨hcut hc' ht, ih (hc'.passes ht.passes)⟩
  | closing hgap _ ht _ hl _ _ ih =>
    have hc' := hc.passes hgap
    exact List.forall_mem_cons.2 ⟨hcut hc' ht, ih ((hc'.passes ht.passes).passes hl)⟩

/-- Byte `o` is in code: what stands before it last is neither a closing tag nor text outside
tags. -/
def InCode (toks : List Token) (o : Nat) : Prop :=
  ∃ t ∈ toks, t.span.stop ≤ o ∧ t.kind ≠ .closeTag ∧ t.kind ≠ .inlineHtml ∧
    ∀ t' ∈ toks, t'.span.stop ≤ o → t'.span.stop ≤ t.span.stop

/-- A byte that may lie outside all tokens. -/
inductive Skipped (src : Source) (toks : List Token) (o : Nat) : Prop
  | blank {x : Char} (hx : isBlank x = true) (hat : src.HasAt o [x]) (hcode : InCode toks o)
  | lineEnd {t : Token} {last : List Char} (ht : t ∈ toks) (hk : t.kind = .closeTag)
      (hlast : IsLineEnd last) (hat : src.HasAt t.span.stop last) (hle : t.span.stop ≤ o)
      (hlt : o < t.span.stop + byteSize last)

theorem Skipped.cons {t : Token} (hs : Skipped src ts o)
    (ht : ∀ t' ∈ ts, t.span.stop ≤ t'.span.stop) : Skipped src (t :: ts) o := by
  cases hs with
  | blank hx hat hcode =>
    obtain ⟨t', ht', hle, hk, hk', hmax⟩ := hcode
    exact .blank hx hat ⟨t', List.mem_cons_of_mem t ht', hle, hk, hk',
      List.forall_mem_cons.2 ⟨fun _ => ht t' ht', hmax⟩⟩
  | lineEnd ht hk hlast hat hle hlt =>
    exact .lineEnd (List.mem_cons_of_mem t ht) hk hlast hat hle hlt

/-- A byte outside all tokens is a blank in front of them, or one that may be skipped. -/
theorem Tiles.skipped (hts : Tiles src m c ts) (hc : c.Within src)
    (hsize : src.size = byteSize src.chars) (hco : c.offset ≤ o) (ho : o < src.size)
    (hout : ∀ t ∈ ts, t.span.contains o = false) :
    (m = .code ∧ (∃ x, isBlank x = true ∧ src.HasAt o [x]) ∧ ∀ t ∈ ts, o < t.span.stop) ∨
      Skipped src ts o := by
  have hcontains : ∀ {t : Token}, t.span.contains o = false → t.span.start ≤ o →
      t.span.stop ≤ o := by
    intro t ht hle
    simpa [Span.contains, hle] using ht
  -- Tokens that follow end further on.
  have hafter : ∀ {m : Mode} {d : Cursor} {ts : List Token}, Tiles src m d ts → d.Within src →
      ∀ t ∈ ts, d.offset < t.span.stop := fun hts hd t ht =>
    Nat.lt_of_le_of_lt (hts.offset_le t ht) (hts.stands hd t ht).start_lt
  -- A token of code or an opening tag is in front of its blanks.
  have hlast : ∀ {d : Cursor} {t : Token} {ts : List Token}, Tiles src .code d ts → d.Within src →
      t.span.stop = d.offset → d.offset ≤ o → t.kind ≠ .inlineHtml → t.kind ≠ .closeTag →
      ((Mode.code = .code ∧ (∃ x, isBlank x = true ∧ src.HasAt o [x]) ∧ ∀ t ∈ ts, o < t.span.stop) ∨
        Skipped src ts o) → Skipped src (t :: ts) o := by
    rintro d t ts hts hd hstop hdo hk hk' (⟨-, ⟨x, hx, hat⟩, hmore⟩ | hs)
    · refine .blank hx hat ⟨t, List.mem_cons_self, by omega, hk', hk, ?_⟩
      refine List.forall_mem_cons.2 ⟨fun _ => Nat.le_refl _, fun t' ht' hle => ?_⟩
      exact absurd (hmore t' ht') (Nat.not_lt_of_le hle)
    · exact hs.cons fun t' ht' => hstop ▸ Nat.le_of_lt (hafter hts hd t' ht')
  induction hts with
  | finished hrest =>
    obtain ⟨before, hsrc, hb⟩ := hc
    rw [hsize, hsrc, hrest, List.append_nil] at ho
    omega
  | @blank c hblank =>
    have hend : c.Passes c.rest (c.upTo []) := c.passes_upTo c.rest (List.append_nil _).symm
    have hstop : (c.upTo []).offset = src.size := by
      obtain ⟨before, hsrc, hb⟩ := hc
      rw [hend.offset, hsize, hsrc, byteSize_append, hb]
    exact .inl ⟨rfl, hc.blank_at hend hblank hco (hstop ▸ ho),
      fun _ ht => absurd ht List.not_mem_nil⟩
  | @html c d t ts ht hk hts ih =>
    obtain ⟨htout, hout⟩ := List.forall_mem_cons.1 hout
    have hstop := hcontains htout (ht.start_eq ▸ hco)
    have hd := hc.passes ht.passes
    rcases ih hd (ht.stop_eq ▸ hstop) hout with ⟨hcode, -⟩ | hs
    · cases hcode
    · exact .inr (hs.cons fun t' ht' => ht.stop_eq ▸ Nat.le_of_lt (hafter hts hd t' ht'))
  | @opening c d t ts ht hk hk' hts ih =>
    obtain ⟨htout, hout⟩ := List.forall_mem_cons.1 hout
    have hstop := hcontains htout (ht.start_eq ▸ hco)
    have hd := hc.passes ht.passes
    have hdo : d.offset ≤ o := ht.stop_eq ▸ hstop
    exact .inr (hlast hts hd ht.stop_eq hdo hk hk' (ih hd hdo hout))
  | @code c c' d gap t ts hgap hblank ht hk hk' hts ih =>
    have hc' := hc.passes hgap
    have hd := hc'.passes ht.passes
    by_cases hgo : o < c'.offset
    · refine .inl ⟨rfl, hc.blank_at hgap hblank hco hgo,
        List.forall_mem_cons.2 ⟨?_, fun t' ht' => ?_⟩⟩
      · have hlt := ht.start_lt
        rw [ht.start_eq] at hlt
        omega
      · have hlt := hafter hts hd t' ht'
        rw [ht.passes.offset] at hlt
        omega
    · obtain ⟨htout, hout⟩ := List.forall_mem_cons.1 hout
      have hstop := hcontains htout (ht.start_eq ▸ Nat.le_of_not_lt hgo)
      have hdo : d.offset ≤ o := ht.stop_eq ▸ hstop
      exact .inr (hlast hts hd ht.stop_eq hdo hk hk' (ih hd hdo hout))
  | @closing c c' d e gap last t ts hgap hblank ht hk hl hline hts ih =>
    have hc' := hc.passes hgap
    have hd := hc'.passes ht.passes
    have he := hd.passes hl
    have hde : d.offset ≤ e.offset := hl.offset ▸ Nat.le_add_right _ _
    by_cases hgo : o < c'.offset
    · refine .inl ⟨rfl, hc.blank_at hgap hblank hco hgo,
        List.forall_mem_cons.2 ⟨?_, fun t' ht' => ?_⟩⟩
      · have hlt := ht.start_lt
        rw [ht.start_eq] at hlt
        omega
      · have hlt := hafter hts he t' ht'
        have hcd := ht.passes.offset
        omega
    · obtain ⟨htout, hout⟩ := List.forall_mem_cons.1 hout
      have hstop := hcontains htout (ht.start_eq ▸ Nat.le_of_not_lt hgo)
      by_cases heo : e.offset ≤ o
      · rcases ih he heo hout with ⟨hcode, -⟩ | hs
        · cases hcode
        · refine .inr (hs.cons fun t' ht' => ?_)
          have hlt := hafter hts he t' ht'
          rw [ht.stop_eq]
          omega
      · -- The byte is in the line end after the tag.
        have hlast : IsLineEnd last := by
          refine hline.resolve_left ?_
          rintro rfl
          have hoff := hl.offset
          rw [ht.stop_eq] at hstop
          simp at hoff
          omega
        refine .inr (.lineEnd List.mem_cons_self hk hlast (ht.stop_eq ▸ hd.hasAt hl) hstop ?_)
        rw [ht.stop_eq, ← hl.offset]
        omega

end

/-- Where all of a text can be cut into tokens, they stand in it one after the other, none of
them empty, and each byte outside them is a blank in code or part of the one line end after
a closing tag. -/
theorem tokenize_lossless {text : String} {toks : List Token}
    (htoks : tokenize (.ofString text) = toks.map .ok) :
    (∀ t ∈ toks, t.Stands (.ofString text) ∧ t.span.stop ≤ (Source.ofString text).size ∧
        (Source.ofString text).covered t.span = t.text) ∧
      toks.Pairwise (fun t t' => t.span.stop ≤ t'.span.start) ∧
      ∀ o < (Source.ofString text).size, (∀ t ∈ toks, t.span.contains o = false) →
        Skipped (.ofString text) toks o := by
  have htiles : Tiles (.ofString text) .markup _ toks :=
    Scanner.takeUpTo_tiles htoks (Nat.le_refl _)
  have hwithin : (Scanner.ofSource (.ofString text)).cursor.Within (.ofString text) :=
    ⟨[], rfl, rfl⟩
  refine ⟨fun t ht => ?_, htiles.increasing, fun o ho hout => ?_⟩
  · have hstands := htiles.stands hwithin t ht
    refine ⟨hstands, hstands.stop_eq ▸ hstands.hasAt.le_size, ?_⟩
    rw [Source.covered, hstands.stop_eq, hstands.hasAt.slice, String.ofList_toList]
  · rcases htiles.skipped hwithin rfl (Nat.zero_le o) ho hout with ⟨hcode, -⟩ | hs
    · cases hcode
    · exact hs

theorem eq_map_ok_of_all {ε α : Type} {xs : List (Except ε α)} (hxs : xs.all Except.isOk = true) :
    xs = (xs.filterMap Except.toOption).map .ok := by
  induction xs with
  | nil => rfl
  | cons x xs ih =>
    rw [List.all_cons, Bool.and_eq_true] at hxs
    cases x with
    | error e => cases hxs.1
    | ok a => exact congrArg (.ok a :: ·) (ih hxs.2)

/-- Text outside tags, code with a comment, quoted text that holds code with quoted text, and a
heredoc, and a line end after the closing tag. -/
theorem tokenize_lossless_nested :
    let text := "a<?php # b\n echo \"\x7b$c['\\'']\x7d\", <<<D\n  D; ?>\r\n d"
    let toks := (tokenize (.ofString text)).filterMap Except.toOption
    tokenize (.ofString text) = toks.map .ok ∧ toks.length = 10 ∧
      (∀ t ∈ toks, (Source.ofString text).covered t.span = t.text) ∧
      ∀ o < (Source.ofString text).size, (∀ t ∈ toks, t.span.contains o = false) →
        Skipped (.ofString text) toks o := by
  intro text toks
  have htoks : tokenize (.ofString text) = toks.map .ok := eq_map_ok_of_all (by decide +kernel)
  obtain ⟨hstands, -, hskipped⟩ := tokenize_lossless htoks
  exact ⟨htoks, by decide +kernel, fun t ht => (hstands t ht).2.2, hskipped⟩

end PhpCheck
