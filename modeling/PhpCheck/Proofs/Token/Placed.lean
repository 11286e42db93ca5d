import PhpCheck.Proofs.Source.Places

/-!
The tokens of a scan stand in the text, also where faults lie between them.

One step of the scan goes from one position of the text to another and leaves fewer
characters (`Scanner.next_placed`), so the bound on the number of tokens never cuts any off
(`Scanner.takeUpTo_eq_all`), and every token has a span that fits the text
(`Scanner.placed_of_mem_takeUpTo`).  Text in double quotes or back quotes begins and ends with the
quote, which takes one byte.
-/

namespace PhpCheck

/-! ### Placed tokens -/

/-- The kinds of quoted text that may embed code. -/
def TokenKind.isTemplate (kind : TokenKind) : Bool :=
  kind == .templateString || kind == .shellCommand

/-- The token stands in the text at its span, at `lo` or later.  If it is quoted text that may
embed code, it stands between quotes of one byte. -/
structure Token.Placed (src : Source) (lo : Nat) (t : Token) : Prop where
  le_start : lo ≤ t.span.start
  hasAt : src.HasAt t.span.start t.text.toList
  span : t.span = src.span t.span.start (t.span.start + byteSize t.text.toList)
  quoted : t.kind.isTemplate = true →
    ∃ quote body, t.text.toList = quote :: (body ++ [quote]) ∧ quote.utf8Size = 1

/-- A token that stands in the text, or a fault that a text can have. -/
def Lexeme.Placed (src : Source) (lo : Nat) : Lexeme → Prop
  | .ok t => t.Placed src lo
  | .error e => e.fault ≠ .stalled

section

variable {src : Source} {lo lo' : Nat} {t : Token} {c d : Cursor}

theorem Token.Placed.stop (ht : t.Placed src lo) :
    t.span.stop = t.span.start + byteSize t.text.toList := congrArg Span.stop ht.span

theorem Token.Placed.fits (ht : t.Placed src lo) : t.span.Fits src := by
  have hfits := Source.span_fits ht.hasAt.isPlace_start ht.hasAt.isPlace_stop (Nat.le_add_right _ _)
  rwa [← ht.span] at hfits

theorem Token.Placed.mono (ht : t.Placed src lo) (hle : lo' ≤ lo) : t.Placed src lo' :=
  ⟨Nat.le_trans hle ht.le_start, ht.hasAt, ht.span, ht.quoted⟩

theorem Lexeme.Placed.mono {l : Lexeme} (hl : l.Placed src lo) (hle : lo' ≤ lo) :
    l.Placed src lo' := by
  cases l with
  | error e => exact hl
  | ok t => exact Token.Placed.mono hl hle

theorem Cursor.Passes.offset_le {text : List Char} (hd : c.Passes text d) :
    c.offset ≤ d.offset := by
  rw [hd.offset]
  exact Nat.le_add_right _ _

theorem Token.Cut.placed (ht : t.Cut src c d) (hc : c.Within src) (hle : lo ≤ c.offset)
    (hquoted : t.kind.isTemplate = true →
      ∃ quote body, t.text.toList = quote :: (body ++ [quote]) ∧ quote.utf8Size = 1) :
    t.Placed src lo := by
  refine ⟨ht.start_eq ▸ hle, ht.start_eq ▸ hc.hasAt ht.passes, ?_, hquoted⟩
  rw [← ht.stop_eq_add, ht.start_eq, ht.stop_eq]
  exact ht.span

end

/-! ### One token of code -/

namespace Scanner

/-- What cutting off one token of code gives: quoted text that may embed code, another token,
or a fault, after which either nothing is left or one character was passed over. -/
inductive Cutting (src : Source) (c : Cursor) : Lexeme × Cursor → Prop
  | template {quote : Char} {kind : TokenKind} {last : Cursor}
    (hquote : quote = '"' ∨ quote = '\x60') (hhead : c.rest.head? = some quote)
    (hclose : (Enclosure.template quote c.offset).close [] (c.offset + 1) (c.rest.drop 1) =
      .ok last) : Cutting src c (.ok (token src kind c last), last)
  | plain {kind : TokenKind} {last : Cursor} (hkind : kind.isTemplate = false) :
    Cutting src c (.ok (token src kind c last), last)
  | fault {e : SyntaxError} {last : Cursor} (he : e.fault ≠ .stalled)
    (hlast : last = atEnd src ∨ last = c.skip 1) : Cutting src c (.error e, last)

variable {src : Source} {c last : Cursor} {head : Char} {tail : List Char}

theorem heredoc_fault {start : Nat} {d : Cursor} {e : SyntaxError}
    (he : heredoc src start d = .error e) : e.fault ≠ .stalled := by
  unfold heredoc at he
  extract_lets fail text quote afterQuote label afterLabel at he
  have hfail : ∀ {fault : SyntaxFault} {rest : List Char}, fail fault rest = .error e →
      fault ≠ .stalled → e.fault ≠ .stalled := by
    intro fault rest hf hfault
    cases hf
    exact hfault
  split at he
  · exact hfail he nofun
  split at he
  · exact hfail he nofun
  rename_i line body? hlabel hclosed
  clear_value body?
  cases body? with
  | none => exact hfail he nofun
  | some body =>
  dsimp only at he
  split at he
  · cases he
  · cases he
    nofun

theorem symbols_isTemplate : ∀ entry ∈ symbols, entry.2.isTemplate = false := by decide

theorem keyword?_isTemplate (word : String) :
    ((TokenKind.keyword? word).getD .identifier).isTemplate = false :=
  TokenKind.keyword?_cases (motive := (·.isTemplate = false)) word rfl (by decide)

theorem headToken_cutting (hc : c.rest = head :: tail) :
    Cutting src c (headToken src c head tail) := by
  unfold headToken
  extract_lets upTo quoted
  have hup : ∀ {kind : TokenKind} (last : Cursor), kind.isTemplate = false →
      Cutting src c (upTo kind last) := fun last hkind => .plain hkind
  have hquoted : ∀ {kind : TokenKind} (inside : Enclosure) (opening : Nat),
      kind.isTemplate = false → Cutting src c (quoted kind inside opening) := by
    intro kind inside opening hkind
    simp only [quoted]
    split
    · exact hup _ hkind
    · exact .fault nofun (.inl rfl)
  have htemplate : ∀ {quote : Char} (kind : TokenKind), quote = '"' ∨ quote = '\x60' →
      head = quote → Cutting src c (quoted kind (.template quote c.offset) 1) := by
    intro quote kind hquote hhead
    simp only [quoted]
    split
    · rename_i last hclose
      exact .template hquote (by rw [hc, hhead]; rfl) hclose
    · exact .fault nofun (.inl rfl)
  refine iteInduction (fun _ => hquoted _ _ rfl) fun _ => ?_
  refine iteInduction (fun h => htemplate _ (.inl rfl) (beq_iff_eq.1 h)) fun _ => ?_
  refine iteInduction (fun h => htemplate _ (.inr rfl) (beq_iff_eq.1 h)) fun _ => ?_
  refine iteInduction (fun _ => hquoted _ _ rfl) fun _ => ?_
  refine iteInduction (fun _ => hup _ rfl) fun _ => ?_
  refine iteInduction (fun _ => hup _ rfl) fun _ => ?_
  refine iteInduction (fun _ => ?_) fun _ => ?_
  · split
    · refine hup _ ?_
      split <;> rfl
    · exact .fault nofun (.inl rfl)
  refine iteInduction (fun _ => ?_) fun _ => ?_
  · split
    · rename_i kind rest hheredoc
      refine hup _ ?_
      rcases (heredoc_suffix hheredoc).2 with rfl | rfl <;> rfl
    · rename_i e hheredoc
      exact .fault (heredoc_fault hheredoc) (.inl rfl)
  split
  · rename_i kind rest hnumber
    refine hup _ ?_
    have hall : ∀ kind ∈ [TokenKind.hexLiteral, .binaryLiteral, .octalLiteral, .floatLiteral,
      .decimalLiteral], kind.isTemplate = false := by decide
    exact hall kind (Number.scan?_suffix hnumber).2
  refine iteInduction (fun _ => hup _ (keyword?_isTemplate _)) fun _ => ?_
  refine iteInduction (fun _ => hup _ rfl) fun _ => ?_
  split
  · rename_i kind rest hsymbol
    obtain ⟨entry, hentry, rfl, -⟩ := symbol?_spec hsymbol
    exact hup _ (symbols_isTemplate entry hentry)
  · exact .fault nofun (.inr rfl)

theorem headToken_length_lt {lexeme : Lexeme} (hc : c.rest = head :: tail)
    (ht : headToken src c head tail = (lexeme, last)) : last.rest.length < c.rest.length := by
  have hpos : 0 < c.rest.length := hc ▸ Nat.succ_pos _
  cases lexeme with
  | ok tok => exact (headToken_cuts hc ht).1.length_lt
  | error e =>
    have hcutting : Cutting src c _ := headToken_cutting hc
    rw [ht] at hcutting
    cases hcutting with
    | fault he hlast =>
      rcases hlast with rfl | rfl
      · exact hpos
      · show (c.rest.drop 1).length < _
        rw [List.length_drop]
        omega

/-- The token at the head of code is placed, and the scan goes on behind it in the text. -/
theorem headToken_placed {lexeme : Lexeme} (hc : c.rest = head :: tail) (hwithin : c.Within src)
    (hend : (atEnd src).Within src) (ht : headToken src c head tail = (lexeme, last)) :
    lexeme.Placed src c.offset ∧ last.Within src ∧ c.offset ≤ last.offset := by
  have hcutting : Cutting src c _ := headToken_cutting hc
  rw [ht] at hcutting
  cases hcutting with
  | @template quote kind last hquote hhead hclose =>
    obtain ⟨hcut, -⟩ := headToken_cuts hc ht
    refine ⟨hcut.placed hwithin (Nat.le_refl _) fun _ => ?_, hwithin.passes hcut.passes,
      hcut.passes.offset_le⟩
    obtain ⟨body, hbody, -⟩ := Enclosure.close_last hclose
    obtain rfl : head = quote := Option.some.inj (by rwa [hc] at hhead)
    have hrest : c.rest = head :: (body ++ [head]) ++ last.rest := by
      rw [hc, List.drop_one, List.tail_cons] at hbody
      rw [hc, hbody]
      simp [Enclosure.outerMark, Enclosure.mark]
    refine ⟨head, body, ?_, by rcases hquote with rfl | rfl <;> rfl⟩
    exact List.append_cancel_right (hcut.passes.rest.symm.trans hrest)
  | @plain kind last hkind =>
    obtain ⟨hcut, -⟩ := headToken_cuts hc ht
    have hplain : (token src kind c last).kind.isTemplate ≠ true := by
      rw [show (token src kind c last).kind = kind from rfl, hkind]
      nofun
    exact ⟨hcut.placed hwithin (Nat.le_refl _) fun h => absurd h hplain,
      hwithin.passes hcut.passes, hcut.passes.offset_le⟩
  | fault he hlast =>
    rcases hlast with rfl | rfl
    · refine ⟨he, hend, ?_⟩
      obtain ⟨before, hchars, ho⟩ := hwithin
      obtain ⟨whole, hwhole, hsize⟩ := hend
      have heq : before ++ c.rest = whole ++ [] := hchars.symm.trans hwhole
      rw [← ho, ← hsize, ← List.append_nil whole, ← heq, byteSize_append]
      exact Nat.le_add_right _ _
    · exact ⟨he, hwithin.passes (c.passes_skip 1), (c.passes_skip 1).offset_le⟩

/-! ### All tokens -/

variable {s s' : Scanner} {lexeme : Lexeme}

/-- How a step finds something: outside tags a token is cut off, in code the token at the head
of what follows the blanks, and behind a closing tag a line end is passed over. -/
theorem next_some (hs : s.next src = (some lexeme, s')) :
    (∃ t x text, lexeme = .ok t ∧ t = token src t.kind s.cursor s'.cursor ∧
        t.kind.isTemplate = false ∧ s.cursor.Passes (x :: text) s'.cursor) ∨
      ∃ gap c' head tail last more, s.cursor.Passes gap c' ∧ c'.rest = head :: tail ∧
        headToken src c' head tail = (lexeme, last) ∧ last.Passes more s'.cursor := by
  obtain ⟨mode, c⟩ := s
  unfold next at hs
  cases mode with
  | markup =>
    dsimp only at hs
    split at hs
    · cases hs
    rename_i hne
    obtain ⟨y, ys, hc⟩ := List.exists_cons_of_ne_nil hne
    split at hs
    · obtain ⟨ht, rfl⟩ := Prod.mk.inj hs
      obtain rfl := Option.some.inj ht
      obtain ⟨-, -, x, more, htake⟩ := openingTag_spec hne
      refine .inl ⟨_, x, more, rfl, rfl, ?_, htake ▸ c.passes_skip _⟩
      show (openingTag c.rest).1.isTemplate = false
      unfold openingTag
      split
      · rfl
      · split <;> rfl
    · rename_i hbefore
      obtain ⟨ht, rfl⟩ := Prod.mk.inj hs
      obtain rfl := Option.some.inj ht
      obtain ⟨n, hn⟩ := Nat.exists_eq_succ_of_ne_zero hbefore
      have hp := c.passes_skip (markupLength c.rest)
      rw [hn, hc, List.take_succ_cons, ← hn] at hp
      exact .inl ⟨_, y, _, rfl, rfl, rfl, hp⟩
  | code =>
    dsimp only at hs
    obtain ⟨hgap, -⟩ := passes_blanks c
    split at hs
    · cases hs
    rename_i head tail hrest
    cases hhead : headToken src (c.upTo (c.rest.dropWhile isBlank)) head tail with
    | mk found last =>
      rw [hhead] at hs
      dsimp only at hs
      split at hs
      · split at hs
        · obtain ⟨ht, rfl⟩ := Prod.mk.inj hs
          obtain rfl := Option.some.inj ht
          obtain ⟨more, hp, -⟩ := afterClosingTag_passes last
          exact .inr ⟨_, _, _, _, _, more, hgap, hrest, hhead, hp⟩
        · obtain ⟨ht, rfl⟩ := Prod.mk.inj hs
          obtain rfl := Option.some.inj ht
          exact .inr ⟨_, _, _, _, _, [], hgap, hrest, hhead, .refl _⟩
      · obtain ⟨ht, rfl⟩ := Prod.mk.inj hs
        obtain rfl := Option.some.inj ht
        exact .inr ⟨_, _, _, _, _, [], hgap, hrest, hhead, .refl _⟩

theorem next_length_lt (hs : s.next src = (some lexeme, s')) :
    s'.cursor.rest.length < s.cursor.rest.length := by
  rcases next_some hs with ⟨t, x, text, -, -, -, hp⟩ |
    ⟨gap, c', head, tail, last, more, hgap, hc, ht, hmore⟩
  · rw [hp.rest, List.cons_append, List.length_cons, List.length_append]
    omega
  · have hlt := headToken_length_lt hc ht
    have hle := hgap.length_le
    have hle' := hmore.length_le
    omega

theorem next_placed (hwithin : s.cursor.Within src) (hend : (atEnd src).Within src)
    (hs : s.next src = (some lexeme, s')) :
    lexeme.Placed src s.cursor.offset ∧ s'.cursor.Within src ∧
      s.cursor.offset ≤ s'.cursor.offset := by
  rcases next_some hs with ⟨t, x, text, rfl, ht, hkind, hp⟩ |
    ⟨gap, c', head, tail, last, more, hgap, hc, ht, hmore⟩
  · have hcut : t.Cut src s.cursor s'.cursor := ht ▸ cut_token t.kind hp
    refine ⟨hcut.placed hwithin (Nat.le_refl _) fun h => ?_, hwithin.passes hp, hp.offset_le⟩
    rw [hkind] at h
    cases h
  · obtain ⟨hlexeme, hlast, hle⟩ := headToken_placed hc (hwithin.passes hgap) hend ht
    exact ⟨hlexeme.mono hgap.offset_le, hlast.passes hmore,
      Nat.le_trans hgap.offset_le (Nat.le_trans hle hmore.offset_le)⟩

/-- A bound on the number of tokens that is no less than that of the characters cuts none off. -/
theorem takeUpTo_eq_all {fuel : Nat} (hfuel : s.cursor.rest.length ≤ fuel) :
    takeUpTo src fuel s = s.all src := by
  have hbounds : ∀ n s fuel fuel', s.cursor.rest.length = n → n ≤ fuel → n ≤ fuel' →
      takeUpTo src fuel s = takeUpTo src fuel' s := by
    intro n
    induction n using Nat.strongRecOn with
    | ind n ih =>
      intro s fuel fuel' hn hfuel hfuel'
      cases hnext : s.next src with
      | mk found s' =>
        cases found with
        | none => cases fuel <;> cases fuel' <;> simp only [takeUpTo, hnext]
        | some lexeme =>
          have hlt := next_length_lt hnext
          obtain ⟨k, rfl⟩ : ∃ k, fuel = k + 1 := ⟨fuel - 1, by omega⟩
          obtain ⟨k', rfl⟩ : ∃ k, fuel' = k + 1 := ⟨fuel' - 1, by omega⟩
          simp only [takeUpTo, hnext]
          exact congrArg _ (ih _ (by omega) s' k k' rfl (by omega) (by omega))
  exact hbounds _ s fuel _ rfl hfuel (Nat.le_refl _)

theorem placed_of_mem_takeUpTo {fuel : Nat} (hwithin : s.cursor.Within src)
    (hend : (atEnd src).Within src) {l : Lexeme} (hl : l ∈ takeUpTo src fuel s) :
    l.Placed src s.cursor.offset := by
  induction fuel generalizing s with
  | zero => exact absurd hl List.not_mem_nil
  | succ fuel ih =>
    rw [takeUpTo] at hl
    split at hl
    · exact absurd hl List.not_mem_nil
    · rename_i lexeme s' hnext
      obtain ⟨hlexeme, hwithin', hle⟩ := next_placed hwithin hend hnext
      rcases List.mem_cons.1 hl with rfl | hl
      · exact hlexeme
      · exact (ih hwithin' hl).mono hle

end Scanner

/-- The tokens of a file are placed, and the faults are such as a text can have. -/
theorem placed_of_mem_tokenize {chars : List Char} {l : Lexeme}
    (hl : l ∈ tokenize (.ofChars chars)) : l.Placed (.ofChars chars) 0 :=
  Scanner.placed_of_mem_takeUpTo ⟨[], rfl, rfl⟩ ⟨chars, (List.append_nil _).symm, rfl⟩ hl

/-- So are those of code that begins at a place. -/
theorem placed_of_mem_tokenizeCode {chars : List Char} {start : Nat} {l : Lexeme}
    (hstart : (Source.ofChars chars).IsPlace start)
    (hl : l ∈ tokenizeCode (.ofChars chars) start) : l.Placed (.ofChars chars) start := by
  have hmin : min start (Source.ofChars chars).size = start := Nat.min_eq_left hstart.le_size
  have hwithin : (Scanner.inCode (.ofChars chars) start).cursor.Within (.ofChars chars) := by
    obtain ⟨before, after, hchars, rfl⟩ := hstart
    refine ⟨before, ?_, hmin.symm⟩
    show _ = before ++ dropBytes (byteSize before) (Source.ofChars chars).chars
    rw [hchars, dropBytes_byteSize]
  have hplaced := Scanner.placed_of_mem_takeUpTo hwithin ⟨chars, (List.append_nil _).symm, rfl⟩ hl
  exact hplaced.mono (Nat.le_of_eq hmin.symm)

end PhpCheck
