import PhpCheck.Proofs.Token.Closing
import PhpCheck.Proofs.Token.Peeking

/-!
Two scans over the same part of two texts.
-/

namespace PhpCheck

/-- What is taken from the front of some text is taken from its first part if that is no shorter. -/
theorem split_of_byteSize_le {taken rest back after : List Char}
    (htext : taken ++ rest = back ++ after)
    (hle : byteSize taken ≤ byteSize back) : ∃ more, back = taken ++ more ∧
    rest = more ++ after := by
  obtain ⟨more, rfl, rfl⟩ | ⟨more, rfl, rfl⟩ := List.append_eq_append_iff.1 htext
  · exact ⟨more, rfl, rfl⟩
  · obtain rfl := eq_nil_of_byteSize_le hle
    exact ⟨[], by rw [List.append_nil, List.append_nil], rfl⟩

/-- The same token, one in each text, within a part that stands in both of them. -/
structure Token.Alike (whole : List Char) (lo₁ lo₂ : Nat) (t₁ t₂ : Token) : Prop where
  kind : t₁.kind = t₂.kind
  text : t₁.text = t₂.text
  stands : ∃ front back, whole = front ++ t₁.text.toList ++ back ∧
    t₁.span.start = lo₁ + byteSize front ∧ t₂.span.start = lo₂ + byteSize front
  stop₁ : t₁.span.stop = t₁.span.start + byteSize t₁.text.toList
  stop₂ : t₂.span.stop = t₂.span.start + byteSize t₂.text.toList

/-- Two positions at the same place of a part that stands in both texts. -/
def Cursor.Abreast (text : List Char) (lo₁ lo₂ : Nat) (after₁ after₂ : List Char) (c₁ c₂ : Cursor) :
    Prop :=
  ∃ front back, text = front ++ back ∧
    c₁ = { offset := lo₁ + byteSize front, rest := back ++ after₁ } ∧
    c₂ = { offset := lo₂ + byteSize front, rest := back ++ after₂ }

section

variable {text after₁ after₂ : List Char} {lo₁ lo₂ : Nat} {c₁ c₂ d₁ : Cursor} {src₁ src₂ : Source}

/-- Over the same text, as far as it is within that part, one comes to the same place. -/
theorem Cursor.Abreast.passes (h : Cursor.Abreast text lo₁ lo₂ after₁ after₂ c₁ c₂)
    {taken : List Char}
    (hd : c₁.Passes taken d₁) (hle : d₁.offset ≤ lo₁ + byteSize text) :
    ∃ front more, text = front ++ taken ++ more ∧ c₁.offset = lo₁ + byteSize front ∧
      c₂.offset = lo₂ + byteSize front ∧ c₁.rest = taken ++ (more ++ after₁) ∧
        d₁.rest = more ++ after₁ ∧
      c₂.Passes taken (c₂.upTo (more ++ after₂)) ∧
      Cursor.Abreast text lo₁ lo₂ after₁ after₂ d₁ (c₂.upTo (more ++ after₂)) := by
  obtain ⟨front, back, rfl, rfl, rfl⟩ := h
  have hoffset := hd.offset
  rw [byteSize_append] at hle
  obtain ⟨more, rfl, hrest⟩ := split_of_byteSize_le
    (show taken ++ d₁.rest = back ++ after₁ from hd.rest.symm) (by dsimp only at hoffset; omega)
  have hpasses : Cursor.Passes
      { offset := lo₂ + byteSize front, rest := taken ++ more ++ after₂ } taken
      (Cursor.upTo { offset := lo₂ + byteSize front, rest := taken ++ more ++ after₂ }
        (more ++ after₂)) :=
    Cursor.passes_upTo _ _ (List.append_assoc ..)
  refine ⟨front, more, (List.append_assoc ..).symm, rfl, rfl, List.append_assoc .., hrest, hpasses,
    front ++ taken, more, (List.append_assoc ..).symm, ?_, ?_⟩
  · obtain ⟨offset, rest⟩ := d₁
    obtain rfl := hrest
    rw [byteSize_append, ← Nat.add_assoc]
    exact congrArg (fun o => Cursor.mk o _) hoffset
  · have hoffset₂ := hpasses.offset
    rw [byteSize_append, ← Nat.add_assoc]
    exact congrArg (fun o => Cursor.mk o _) hoffset₂

/-- So the same token ends at the same place. -/
theorem Cursor.Abreast.token (src₂ : Source) (h : Cursor.Abreast text lo₁ lo₂ after₁ after₂ c₁ c₂)
    {t : Token}
    (ht : t.Cut src₁ c₁ d₁) (hle : d₁.offset ≤ lo₁ + byteSize text) :
    ∃ more, c₁.rest = t.text.toList ++ (more ++ after₁) ∧
      c₂.rest = t.text.toList ++ (more ++ after₂) ∧
      d₁.rest = more ++ after₁ ∧
      t.Alike text lo₁ lo₂ (Scanner.token src₂ t.kind c₂ (c₂.upTo (more ++ after₂))) ∧
      Cursor.Abreast text lo₁ lo₂ after₁ after₂ d₁ (c₂.upTo (more ++ after₂)) := by
  obtain ⟨front, more, htext, hstart₁, hstart₂, hc₁, hd₁, hpasses, habreast⟩ :=
    h.passes ht.passes hle
  obtain ⟨x, taken, htaken⟩ := List.exists_cons_of_ne_nil ht.text_ne
  have hcut : (Scanner.token src₂ t.kind c₂ (c₂.upTo (more ++ after₂))).Cut src₂ c₂ _ :=
    Scanner.cut_token t.kind (htaken ▸ hpasses)
  have hsame : (Scanner.token src₂ t.kind c₂ (c₂.upTo (more ++ after₂))).text = t.text := by
    rw [Scanner.token, hpasses.take_eq, String.ofList_toList]
  exact ⟨more, hc₁, hpasses.rest, hd₁, ⟨rfl, hsame.symm, ⟨front, more, htext,
    ht.start_eq.trans hstart₁, hcut.start_eq.trans hstart₂⟩, ht.stop_eq_add, hcut.stop_eq_add⟩,
      habreast⟩

theorem Cursor.skip_eq_upTo {c : Cursor} {taken rest : List Char} (hc : c.rest = taken ++ rest) :
    c.skip taken.length = c.upTo rest := by
  rw [(c.passes_skip taken.length).eq_upTo, skip, hc, List.drop_left]

theorem isBlank_of_isLineEnd {lineEnd : List Char} (hline : IsLineEnd lineEnd) :
    ∀ x ∈ lineEnd, isBlank x = true := by
  rcases hline with rfl | rfl <;> simp [isBlank]

theorem Scanner.afterClosingTag_lineEnd {c : Cursor} {lineEnd rest : List Char}
    (hline : IsLineEnd lineEnd)
    (hc : c.rest = lineEnd ++ rest) : Scanner.afterClosingTag c = c.upTo rest := by
  have htag : Scanner.afterClosingTag c = c.skip lineEnd.length := by
    unfold Scanner.afterClosingTag
    rw [hc]
    rcases hline with rfl | rfl <;> rfl
  rw [htag, Cursor.skip_eq_upTo hc]

/-- A line end that begins in front of the end of a part, or behind it, begins there in both texts.
-/
theorem lineEnd_beyond (hbeyond : Beyond after₁ after₂) {back lineEnd rest : List Char}
    (hline : IsLineEnd lineEnd) (hrest : back ++ after₂ = lineEnd ++ rest) :
    ∃ lineEnd rest, IsLineEnd lineEnd ∧ back ++ after₁ = lineEnd ++ rest := by
  obtain rfl | ⟨g, more₁, more₂, hg, rfl, rfl⟩ := hbeyond
  · exact ⟨lineEnd, rest, hline, hrest⟩
  have hfeed : ∀ {more : List Char}, g :: more₂ = '\n' :: more →
    g = '\n' := fun h => (List.cons.inj h).1
  rcases hline with rfl | rfl
  · cases back with
    | nil => exact ⟨_, more₁, .inl rfl, congrArg (· :: more₁) (hfeed hrest)⟩
    | cons x back =>
      exact ⟨_, back ++ g :: more₁, .inl rfl, congrArg (· :: _) (List.cons.inj hrest).1⟩
  · cases back with
    | nil =>
      have hreturn : g = '\r' := (List.cons.inj hrest).1
      rcases hg with rfl | rfl <;> cases hreturn
    | cons x back =>
      obtain ⟨rfl, hback⟩ := List.cons.inj hrest
      cases back with
      | nil => exact ⟨_, more₁, .inr rfl, congrArg (fun y => '\r' :: y :: more₁) (hfeed hback)⟩
      | cons y back =>
        exact ⟨_, back ++ g :: more₁, .inr rfl,
          congrArg (fun y => '\r' :: y :: _) (List.cons.inj hback).1⟩

/-- Behind a closing tag two scans stay abreast, unless the line end that belongs to the tag reaches
beyond the part. -/
theorem Cursor.Abreast.afterClosingTag (h : Cursor.Abreast text lo₁ lo₂ after₁ after₂ c₁ c₂)
    (hbeyond : Beyond after₁ after₂) :
    Cursor.Abreast text lo₁ lo₂ after₁ after₂ (Scanner.afterClosingTag c₁)
      (Scanner.afterClosingTag c₂) ∨
      after₁.head?.any isBlank = true ∧
        lo₁ + byteSize text < (Scanner.afterClosingTag c₁).offset := by
  obtain ⟨last, hpasses, hlast⟩ := Scanner.afterClosingTag_passes c₁
  rcases hlast with rfl | hline
  · -- No line ends behind the tag in the first text, so none does in the second.
    obtain ⟨last₂, hpasses₂, rfl | hline₂⟩ := Scanner.afterClosingTag_passes c₂
    · have hstay : ∀ {c d : Cursor}, c.Passes [] d → d = c := by
        rintro ⟨o, rest⟩ ⟨o', rest'⟩ ⟨hrest, hoffset⟩
        exact congrArg₂ Cursor.mk hoffset hrest.symm
      rw [hstay hpasses, hstay hpasses₂]
      exact .inl h
    · obtain ⟨front, back, rfl, rfl, rfl⟩ := h
      obtain ⟨lineEnd, rest, hline, hrest⟩ := lineEnd_beyond hbeyond hline₂ hpasses₂.rest
      have hlength : rest.length = (lineEnd ++ rest).length := by
        rw [Scanner.afterClosingTag_lineEnd hline hrest] at hpasses
        exact congrArg List.length (hpasses.rest.symm.trans hrest)
      have hpos : 0 < lineEnd.length := by rcases hline with rfl | rfl <;> exact Nat.succ_pos _
      rw [List.length_append] at hlength
      omega
  by_cases hle : (Scanner.afterClosingTag c₁).offset ≤ lo₁ + byteSize text
  · obtain ⟨front, more, -, -, -, -, -, hpasses₂, habreast⟩ := h.passes hpasses hle
    rw [Scanner.afterClosingTag_lineEnd hline hpasses₂.rest]
    exact .inl habreast
  · refine .inr ⟨?_, Nat.lt_of_not_le hle⟩
    obtain ⟨front, back, rfl, rfl, rfl⟩ := h
    have hoffset := hpasses.offset
    obtain ⟨more, hmore, hrest⟩ | ⟨more, rfl, hrest⟩ := List.append_eq_append_iff.1 hpasses.rest
    · cases more with
      | nil =>
        rw [List.append_nil] at hmore
        rw [hoffset, hmore, byteSize_append] at hle
        dsimp only at hle
        omega
      | cons x more =>
        rw [hrest, List.cons_append, List.head?_cons, Option.any_some]
        exact isBlank_of_isLineEnd hline x (by rw [hmore]; simp)
    · rw [hoffset, byteSize_append, byteSize_append] at hle
      dsimp only at hle
      omega

/-- The token at the head of code, behind the same blanks. -/
theorem Cursor.Abreast.headToken (src₂ : Source)
    (h : Cursor.Abreast text lo₁ lo₂ after₁ after₂ c₁ c₂)
    (hbeyond : Beyond after₁ after₂) {last₁ : Cursor} {head : Char} {tail : List Char} {t : Token}
    (hc : c₁.rest.dropWhile isBlank = head :: tail)
    (ht : Scanner.headToken src₁ (c₁.upTo (head :: tail)) head tail = (.ok t, last₁))
    (hle : t.span.stop ≤ lo₁ + byteSize text) :
    ∃ tail₂ t₂ last₂, c₂.rest.dropWhile isBlank = head :: tail₂ ∧
      Scanner.headToken src₂ (c₂.upTo (head :: tail₂)) head tail₂ = (.ok t₂, last₂) ∧
      t.Alike text lo₁ lo₂ t₂ ∧ Cursor.Abreast text lo₁ lo₂ after₁ after₂ last₁ last₂ := by
  obtain ⟨hgap, hblank⟩ := Scanner.passes_blanks c₁
  rw [hc] at hgap
  obtain ⟨hcut, -⟩ := Scanner.headToken_cuts (show (c₁.upTo (head :: tail)).rest = head :: tail from
    rfl) ht
  rw [hcut.stop_eq] at hle
  obtain ⟨-, within, -, -, -, -, -, hgap₂, hstart⟩ :=
    h.passes hgap (Nat.le_trans hcut.passes.offset_le hle)
  obtain ⟨more, hrest₁, hrest₂, hlast, halike, habreast⟩ := hstart.token src₂ hcut hle
  obtain ⟨x, taken, htaken⟩ := List.exists_cons_of_ne_nil hcut.text_ne
  rw [htaken] at hrest₁ hrest₂
  obtain ⟨rfl, htail⟩ :=
    List.cons.inj (show head :: tail = x :: (taken ++ (more ++ after₁)) from hrest₁)
  have hwithin : within ++ after₂ = head :: (taken ++ more ++ after₂) :=
    hrest₂.trans (congrArg (head :: ·) (List.append_assoc ..).symm)
  have hhead : ¬isBlank head = true := fun h => by
    have hdrop := List.head?_dropWhile_not isBlank c₁.rest
    rw [hc, List.head?_cons] at hdrop
    simp [h] at hdrop
  rw [hwithin] at hgap₂ halike habreast
  refine ⟨taken ++ more ++ after₂, _, _, ?_, ?_, halike, habreast⟩
  · rw [hgap₂.rest, List.dropWhile_append_of_pos hblank]
    exact List.dropWhile_cons_of_neg hhead
  · rw [← List.append_assoc] at htail
    subst htail
    exact Scanner.headToken_beyond hbeyond rfl rfl ht hlast

end

/-! ### Scans -/

namespace Scanner

/-- Two scans at the same place of a part that stands in both texts. -/
structure Abreast (text : List Char) (lo₁ lo₂ : Nat) (after₁ after₂ : List Char) (s₁ s₂ : Scanner) :
    Prop where
  mode : s₁.mode = s₂.mode
  cursor : s₁.cursor.Abreast text lo₁ lo₂ after₁ after₂ s₂.cursor

variable {text after₁ after₂ : List Char} {lo₁ lo₂ : Nat} {s₁ s₂ s₁' : Scanner} {src₁ src₂ : Source}
  {t : Token}

/-- An opening tag is no longer than the text that begins with it. -/
theorem openingTag_le_length {text : List Char} (hne : text ≠ []) (htext : markupLength text = 0) :
    (openingTag text).2 ≤ text.length := by
  obtain ⟨html, more, rfl, hlength, hmore⟩ := markupLength_spec text
  obtain rfl : html = [] := List.length_eq_zero_iff.1 (hlength.symm.trans htext)
  rw [List.nil_append] at hne ⊢
  obtain ⟨others, rfl⟩ := hmore.resolve_left hne
  have htake : ∀ {n : Nat} {word : List Char} {f : Char → Char},
      (('<' :: '?' :: others).take n).map f = word → word.length = n →
        n ≤ ('<' :: '?' :: others).length := by
    rintro n word f rfl hn
    rw [List.length_map, List.length_take] at hn
    omega
  unfold openingTag
  split
  · rename_i hecho
    exact htake ((List.map_id _).trans (beq_iff_eq.1 hecho)) rfl
  · split
    · rename_i hphp
      exact htake (beq_iff_eq.1 hphp) rfl
    · exact Nat.le_add_left _ _

theorem length_text_token (src : Source) (kind : TokenKind) {c : Cursor} {n : Nat}
    (hn : n ≤ c.rest.length) :
    (token src kind c (c.skip n)).text.toList.length = n := by
  have hlength : (c.rest.take (c.rest.length - (c.rest.drop n).length)).length = n := by
    rw [List.length_take, List.length_drop]
    omega
  rwa [token, String.toList_ofList]

/-- A token within the part is found in both texts.  The two scans stay abreast, unless the line end
that belongs to a closing tag reaches beyond the part. -/
theorem Abreast.next (src₂ : Source) (h : Abreast text lo₁ lo₂ after₁ after₂ s₁ s₂)
    (hbeyond : Beyond after₁ after₂)
    (hs : s₁.next src₁ = (some (.ok t), s₁')) (hle : t.span.stop ≤ lo₁ + byteSize text) :
    ∃ t₂ s₂', s₂.next src₂ = (some (.ok t₂), s₂') ∧ t.Alike text lo₁ lo₂ t₂ ∧
      (Abreast text lo₁ lo₂ after₁ after₂ s₁' s₂' ∨ after₁.head?.any isBlank = true ∧
        s₁'.mode = .markup ∧ lo₁ + byteSize text < s₁'.cursor.offset) := by
  obtain ⟨mode₁, c₁⟩ := s₁
  obtain ⟨mode₂, c₂⟩ := s₂
  obtain ⟨hmode, hcursor⟩ := h
  obtain rfl : mode₁ = mode₂ := hmode
  replace hcursor : c₁.Abreast text lo₁ lo₂ after₁ after₂ c₂ := hcursor
  have hfinds := next_eq_some.1 hs
  cases hfinds with
  | html hc =>
    obtain ⟨html, others, hrest, hlength, -⟩ := markupLength_spec c₁.rest
    have hn : markupLength c₁.rest ≤ c₁.rest.length := by
      rw [hrest, List.length_append, ← hrest, hlength]
      exact Nat.le_add_right _ _
    rw [hlength] at hc
    obtain ⟨x, inner, rfl⟩ :=
      List.exists_cons_of_ne_nil (List.length_pos_iff.1 (Nat.pos_of_ne_zero hc))
    have htake : c₁.rest.take (markupLength c₁.rest) = x :: inner := by
      rw [hlength, hrest, List.take_left]
    have hcut : (token src₁ .inlineHtml c₁ (c₁.skip (markupLength c₁.rest))).Cut src₁ c₁ _ :=
      cut_token _ (htake ▸ c₁.passes_skip _)
    rw [hcut.stop_eq] at hle
    obtain ⟨more, hrest₁, hrest₂, -, halike, habreast⟩ := hcursor.token src₂ hcut hle
    have htext := length_text_token src₁ .inlineHtml hn
    have hskip := Cursor.skip_eq_upTo hrest₂
    rw [htext] at hskip
    have hsame : markupLength c₂.rest = markupLength c₁.rest := by
      rw [hrest₁, hrest₂, ← List.append_assoc, ← List.append_assoc]
      refine markupLength_beyond hbeyond _ ?_
      rw [List.append_assoc, ← hrest₁, List.length_append, htext]
      exact Nat.le_add_right _ _
    have hfinds₂ : Finds src₂ { mode := .markup, cursor := c₂ } _ _ :=
      .html (by rw [hsame, hlength]; exact hc)
    rw [hsame, hskip] at hfinds₂
    exact ⟨_, _, next_eq_some.2 hfinds₂, halike, .inl ⟨rfl, habreast⟩⟩
  | opening hne hc =>
    obtain ⟨-, -, x, others, htake⟩ := openingTag_spec hne
    have hcut : (token src₁ (openingTag c₁.rest).1 c₁ (c₁.skip (openingTag c₁.rest).2)).Cut src₁
      c₁ _ :=
      cut_token _ (htake ▸ c₁.passes_skip _)
    rw [hcut.stop_eq] at hle
    obtain ⟨more, hrest₁, hrest₂, -, halike, habreast⟩ := hcursor.token src₂ hcut hle
    have htext := length_text_token src₁ (openingTag c₁.rest).1 (openingTag_le_length hne hc)
    have hskip := Cursor.skip_eq_upTo hrest₂
    rw [htext] at hskip
    have hsame : openingTag c₂.rest = openingTag c₁.rest := by
      rw [hrest₁, hrest₂, ← List.append_assoc, ← List.append_assoc]
      exact openingTag_beyond hbeyond _
    have hnone : markupLength c₂.rest = 0 := by
      rw [← hc, hrest₁, hrest₂, ← List.append_assoc, ← List.append_assoc]
      refine markupLength_beyond hbeyond _ ?_
      rw [List.append_assoc, ← hrest₁, hc]
      exact Nat.zero_le _
    have hne₂ : c₂.rest ≠ [] := by
      rw [hrest₂]
      exact List.append_ne_nil_of_left_ne_nil hcut.text_ne _
    have hfinds₂ : Finds src₂ { mode := .markup, cursor := c₂ } _ _ := .opening hne₂ hnone
    rw [hsame, hskip] at hfinds₂
    exact ⟨_, _, next_eq_some.2 hfinds₂, halike, .inl ⟨rfl, habreast⟩⟩
  | code hc ht hk =>
    obtain ⟨tail₂, t₂, last₂, hc₂, ht₂, halike, habreast⟩ :=
      hcursor.headToken src₂ hbeyond hc ht hle
    exact ⟨t₂, _, next_eq_some.2 (.code hc₂ ht₂ (halike.kind ▸ hk)), halike, .inl ⟨rfl, habreast⟩⟩
  | closing hc ht hk =>
    obtain ⟨tail₂, t₂, last₂, hc₂, ht₂, halike, habreast⟩ :=
      hcursor.headToken src₂ hbeyond hc ht hle
    refine ⟨t₂, _, next_eq_some.2 (.closing hc₂ ht₂ (halike.kind ▸ hk)), halike, ?_⟩
    exact (habreast.afterClosingTag hbeyond).imp (⟨rfl, ·⟩) fun h => ⟨h.1, rfl, h.2⟩

/-! ### All tokens -/

/-- Blanks in front of code are passed over. -/
theorem all_of_blank (src : Source) (o : Nat) {blanks : List Char} (rest : List Char)
    (hblank : ∀ x ∈ blanks, isBlank x = true) :
    (Scanner.mk .code { offset := o, rest := blanks ++ rest }).all src =
      (Scanner.mk .code { offset := o + byteSize blanks, rest }).all src := by
  have hdrop : (blanks ++ rest).dropWhile isBlank = rest.dropWhile isBlank :=
    List.dropWhile_append_of_pos hblank
  have hupTo : Cursor.upTo { offset := o, rest := blanks ++ rest } (rest.dropWhile isBlank) =
      Cursor.upTo { offset := o + byteSize blanks, rest } (rest.dropWhile isBlank) := by
    have hskip : Cursor.Passes { offset := o, rest := blanks ++ rest } blanks
        { offset := o + byteSize blanks, rest } := ⟨rfl, rfl⟩
    have hpasses := Cursor.passes_upTo { offset := o + byteSize blanks, rest }
      (rest.takeWhile isBlank)
      List.takeWhile_append_dropWhile.symm
    exact (hskip.trans hpasses).eq_upTo.symm
  have hnext : (Scanner.mk .code { offset := o, rest := blanks ++ rest }).next src =
      (Scanner.mk .code { offset := o + byteSize blanks, rest }).next src := by
    simp only [Scanner.next, hdrop, hupTo]
  cases hfound : (Scanner.mk .code { offset := o + byteSize blanks, rest }).next src with
  | mk found s =>
    cases found with
    | none => rw [all_of_next_none (hnext.trans hfound), all_of_next_none hfound]
    | some lexeme => rw [all_of_next_some (hnext.trans hfound), all_of_next_some hfound]

/-- What begins in a part and ends in front of `brace`. -/
theorem straddle {taken rest back gap more : List Char} {g brace : Char}
    (htext : taken ++ rest = back ++ g :: (gap ++ brace :: more))
    (hlt : byteSize back < byteSize taken)
    (hle : byteSize taken ≤ byteSize back + byteSize (g :: gap)) :
    ∃ gap₁ gap₂, gap = gap₁ ++ gap₂ ∧ taken = back ++ g :: gap₁ ∧ rest = gap₂ ++ brace :: more := by
  have hwhole : back ++ g :: (gap ++ brace :: more) = back ++ g :: gap ++ brace :: more := by simp
  obtain ⟨gap₂, hback, rfl⟩ := split_of_byteSize_le (htext.trans hwhole) (by rwa [byteSize_append])
  obtain ⟨front, rfl, hgap⟩ := split_of_byteSize_le hback (Nat.le_of_lt hlt)
  cases front with
  | nil =>
    rw [List.append_nil] at hlt
    exact absurd hlt (Nat.lt_irrefl _)
  | cons x gap₁ =>
    obtain ⟨rfl, rfl⟩ := List.cons.inj hgap
    exact ⟨gap₁, gap₂, rfl, rfl, rfl⟩

/-- Where a part ends within a text: in front of `g`, behind which stands a brace, with some blanks
between them. -/
structure Seam (g : Char) (gap : List Char) (brace : Char) : Prop where
  ends : g = ')' ∨ g = '\n'
  blank : ∀ x ∈ gap, x = ' '
  brace : brace = '\x7b' ∨ brace = '\x7d'
  line : g = '\n' → gap = []

section

variable {g brace : Char} {gap more : List Char}

theorem Seam.head? (hseam : Seam g gap brace) (more : List Char) {gap₁ gap₂ : List Char}
    (hgap : gap = gap₁ ++ gap₂) :
    (gap₂ ++ brace :: more).head? ∈ [some ' ', some '\x7b', some '\x7d'] := by
  cases gap₂ with
  | nil => rcases hseam.brace with rfl | rfl <;> simp
  | cons y gap₂ => simp [hseam.blank y (by rw [hgap]; simp)]

/-- The part that reaches up to a place within the gap ends with a character that no token goes on
with. -/
theorem Seam.last (hseam : Seam g gap brace) {gap₁ gap₂ : List Char} (hgap : gap = gap₁ ++ gap₂) :
    ∃ init x, halts x = true ∧ g :: gap₁ = init ++ [x] := by
  have hx := List.getLast_mem (List.cons_ne_nil g gap₁)
  refine ⟨_, _, ?_, (List.dropLast_append_getLast (List.cons_ne_nil g gap₁)).symm⟩
  rcases List.mem_cons.1 hx with hx | hx
  · rw [hx]
    exact halts_of_end hseam.ends
  · have hspace := hseam.blank _ (hgap ▸ List.mem_append_left gap₂ hx)
    rw [hspace]
    rfl

section

variable {src : Source} {o : Nat} {back : List Char} {last : Cursor} {head : Char}
  {tail : List Char}

/-- A token that begins in the part and reaches beyond it. -/
theorem exists_straddle {c d : Cursor} {blanks : List Char}
    (hblanks : Cursor.Passes { offset := o, rest := back ++ g :: (gap ++ brace :: more) } blanks c)
    (hcut : t.Cut src c d) (hbyte : byteSize blanks ≤ byteSize back)
    (hle : t.span.stop ≤ o + byteSize back + byteSize (g :: gap))
    (hgt : ¬ t.span.stop ≤ o + byteSize back) :
    ∃ inner gap₁ gap₂, back = blanks ++ inner ∧ gap = gap₁ ++ gap₂ ∧
      t.text.toList = inner ++ g :: gap₁ ∧
      d.rest = gap₂ ++ brace :: more := by
  obtain ⟨inner, rfl, hinner⟩ := split_of_byteSize_le hblanks.rest.symm hbyte
  rw [hcut.passes.rest] at hinner
  rw [hcut.stop_eq, hcut.passes.offset, hblanks.offset, byteSize_append] at hgt hle
  dsimp only at hgt hle
  obtain ⟨gap₁, gap₂, hgap, htext, hd⟩ := straddle hinner (by omega) (by omega)
  exact ⟨inner, gap₁, gap₂, rfl, hgap, htext, hd⟩

variable (hseam : Seam g gap brace)
  (hle : t.span.stop ≤ o + byteSize back + byteSize (g :: gap) ∨
    t.span.start = o + byteSize back + byteSize (g :: gap))

include hseam hle

theorem code_within_or_blank {c : Cursor}
    (hcursor : c = { offset := o, rest := back ++ g :: (gap ++ brace :: more) })
    (hc : c.rest.dropWhile isBlank = head :: tail)
    (ht : headToken src (c.upTo (head :: tail)) head tail = (.ok t, last)) :
    t.span.stop ≤ o + byteSize back ∨ ∀ x ∈ back, isBlank x = true := by
  obtain ⟨hgap, hblank⟩ := passes_blanks c
  rw [hc] at hgap
  have hd : (c.upTo (head :: tail)).rest = head :: tail := rfl
  generalize c.rest.takeWhile isBlank = blanks at hgap hblank
  generalize c.upTo (head :: tail) = d at hgap hd ht
  obtain ⟨hcut, -⟩ := headToken_cuts hd ht
  subst hcursor
  have hstart : t.span.start = o + byteSize blanks := hcut.start_eq.trans hgap.offset
  by_cases hbyte : byteSize back ≤ byteSize blanks
  · obtain ⟨others, rfl, -⟩ := split_of_byteSize_le hgap.rest hbyte
    exact .inr fun x hx => hblank x (List.mem_append_left _ hx)
  refine .inl (by_contra fun hgt => ?_)
  obtain ⟨inner, gap₁, gap₂, rfl, hgap', htext, hlast⟩ :=
    exists_straddle hgap hcut (by omega) (hle.resolve_right (by omega)) hgt
  have hne : inner ≠ [] := by
    rintro rfl
    exact hbyte (by rw [List.append_nil])
  have hhead := hseam.head? more hgap'
  rw [← hlast] at hhead
  obtain ⟨init, x, hx, hsplit⟩ := hseam.last hgap'
  rw [hsplit, ← List.append_assoc] at htext
  rcases headToken_last hd ht htext hx with hnil | ⟨-, hmem⟩
  · exact hne (List.append_eq_nil_iff.1 hnil).1
  · simp only [List.mem_cons, List.not_mem_nil, or_false] at hhead hmem
    rcases hhead with h | h | h <;> simp [h] at hmem

/-- Outside tags a token begins where the scan stands. -/
theorem markup_within {c d : Cursor}
    (hcursor : c = { offset := o, rest := back ++ g :: (gap ++ brace :: more) })
    (hcut : t.Cut src c d)
    (hfalse : ∀ inner gap₁ gap₂, gap = gap₁ ++ gap₂ → t.text.toList = inner ++ g :: gap₁ →
      d.rest.head? ∈ [some ' ', some '\x7b', some '\x7d'] → False) :
    t.span.stop ≤ o + byteSize back := by
  subst hcursor
  by_contra hgt
  have hstart : t.span.start = o := hcut.start_eq
  have hpos : 0 < byteSize (g :: gap) := byteSize_pos (List.cons_ne_nil _ _)
  obtain ⟨inner, gap₁, gap₂, -, hgap, htext, hd⟩ :=
    exists_straddle (.refl _) hcut (Nat.zero_le _) (hle.resolve_right (by omega)) hgt
  exact hfalse inner gap₁ gap₂ hgap htext (hd ▸ hseam.head? more hgap)

end

/-- No token reaches beyond the part in front of the brace, and none that begins there or behind it
follows something of the part that is not blank. -/
theorem Abreast.within_or_blank {after₂ : List Char}
    (h : Abreast text lo₁ lo₂ (g :: (gap ++ brace :: more)) after₂ s₁ s₂) (hseam : Seam g gap brace)
    (hs : Finds src₁ s₁ t s₁')
    (hle : t.span.stop ≤ lo₁ + byteSize text + byteSize (g :: gap) ∨
      t.span.start = lo₁ + byteSize text + byteSize (g :: gap)) :
    t.span.stop ≤ lo₁ + byteSize text ∨ s₁.mode = .code ∧ ∃ front back, text = front ++ back ∧
      (∀ x ∈ back, isBlank x = true) ∧
        s₁.cursor = { offset := lo₁ + byteSize front, rest := back ++
          g :: (gap ++ brace :: more) } ∧
        s₂.cursor = { offset := lo₂ + byteSize front, rest := back ++ after₂ } := by
  obtain ⟨hmode, front, back, rfl, hc₁, hc₂⟩ := h
  rw [byteSize_append, ← Nat.add_assoc] at hle ⊢
  cases hs with
  | @html c hc =>
    obtain ⟨html, others, hrest, hlength, hothers⟩ := markupLength_spec c.rest
    obtain ⟨x, taken, rfl⟩ := List.exists_cons_of_ne_nil
      (List.length_pos_iff.1 (Nat.pos_of_ne_zero (hlength ▸ hc)))
    have hd : (c.skip (markupLength c.rest)).rest = others := by
      rw [Cursor.skip, hlength, hrest, List.drop_left]
    have htake : c.rest.take (markupLength c.rest) = x :: taken := by
      rw [hlength, hrest, List.take_left]
    have hskip : c.Passes (x :: taken) (c.skip (markupLength c.rest)) :=
      htake ▸ c.passes_skip (markupLength c.rest)
    have hcut : (token src₁ .inlineHtml c _).Cut src₁ c _ := cut_token .inlineHtml hskip
    refine .inl (markup_within hseam hle hc₁ hcut fun inner gap₁ gap₂ _ _ hhead => ?_)
    rw [hd] at hhead
    rcases hothers with rfl | ⟨others, rfl⟩ <;> simp at hhead
  | @opening c hne hc =>
    obtain ⟨-, -, x, others, htake⟩ := openingTag_spec hne
    have hskip := c.passes_skip (openingTag c.rest).2
    have hcut : (token src₁ (openingTag c.rest).1 c _).Cut src₁ c _ := cut_token _ (htake ▸ hskip)
    refine .inl (markup_within hseam hle hc₁ hcut fun inner gap₁ gap₂ hgap htext _ => ?_)
    have htoken : (token src₁ (openingTag c.rest).1 c (c.skip (openingTag c.rest).2)).text.toList =
        c.rest.take (openingTag c.rest).2 := by
      rw [token, hskip.take_eq, String.toList_ofList]
    have hno := openingTag_not_halts hne hc g (by rw [← htoken, htext]; simp)
    rw [halts_of_end hseam.ends] at hno
    cases hno
  | code hc ht hk | closing hc ht hk =>
    exact (code_within_or_blank hseam hle hc₁ hc ht).imp_right fun hblank =>
      ⟨rfl, front, back, rfl, hblank, hc₁, hc₂⟩

end

theorem next_of_all {src : Source} {s : Scanner} {toks : List Token}
    (hall : s.all src = (t :: toks).map .ok) :
    ∃ s', s.next src = (some (.ok t), s') ∧ s'.all src = toks.map .ok ∧
      t.span.start < t.span.stop ∧ t.span.stop ≤ s.cursor.offset + byteSize s.cursor.rest ∧
      ∀ u ∈ toks, t.span.stop ≤ u.span.start := by
  have htiles : Tiles src s.mode s.cursor (t :: toks) := takeUpTo_tiles hall (Nat.le_refl _)
  obtain ⟨hlt, hle⟩ : t.span.start < t.span.stop ∧
      t.span.stop ≤ s.cursor.offset + byteSize s.cursor.rest := by
    have hcut : ∀ {gap : List Char} {c d : Cursor}, s.cursor.Passes gap c → t.Cut src c d →
        t.span.start < t.span.stop ∧ t.span.stop ≤ s.cursor.offset + byteSize s.cursor.rest := by
      intro gap c d hgap ht
      refine ⟨ht.start_lt, ?_⟩
      rw [ht.stop_eq, ht.passes.offset, hgap.offset, hgap.rest, ht.passes.rest, byteSize_append,
        byteSize_append]
      omega
    generalize s.mode = mode at htiles
    cases htiles with
    | html ht | opening ht => exact hcut (.refl _) ht
    | code hgap _ ht | closing hgap _ ht => exact hcut hgap ht
  cases hnext : s.next src with
  | mk found s' =>
    cases found with
    | none =>
      rw [all_of_next_none hnext] at hall
      cases hall
    | some lexeme =>
      rw [all_of_next_some hnext, List.map_cons] at hall
      obtain ⟨rfl, hrest⟩ := List.cons.inj hall
      exact ⟨s', rfl, hrest, hlt, hle, (List.pairwise_cons.1 htiles.increasing).1⟩

/-- Outside tags a token begins where the scan stands, and it is none of code. -/
theorem Finds.of_markup {src : Source} {s s' : Scanner} (h : Finds src s t s')
    (hs : s.mode = .markup) :
    t.span.start = s.cursor.offset ∧ t.kind ≠ .rBrace := by
  cases h with
  | html => exact ⟨rfl, nofun⟩
  | opening hne hc =>
    refine ⟨rfl, ?_⟩
    show (openingTag _).1 ≠ _
    unfold openingTag
    split
    · nofun
    · split <;> nofun
  | code | closing => cases hs

/-- Where a part ends in front of a brace that begins a token, the tokens of the part are the same
in both texts, and each text goes on with what stands behind the part. -/
theorem Abreast.split (src₂ : Source) {g brace : Char} {gap more more₂ : List Char}
    {toks : List Token} {e : Token}
    (h : Abreast text lo₁ lo₂ (g :: (gap ++ brace :: more)) (g :: more₂) s₁ s₂)
    (hseam : Seam g gap brace)
    (hall : s₁.all src₁ = toks.map .ok) (he : e ∈ toks)
    (hstart : e.span.start = lo₁ + byteSize text + byteSize (g :: gap))
    (hkind : g = '\n' → e.kind = .rBrace) :
    ∃ ts₁ ts₂, List.Forall₂ (Token.Alike text lo₁ lo₂) ts₁ ts₂ ∧
      s₁.all src₁ = ts₁.map .ok ++ (Scanner.mk .code
        { offset := lo₁ + byteSize text, rest := g :: (gap ++ brace :: more) }).all src₁ ∧
      s₂.all src₂ = ts₂.map .ok ++ (Scanner.mk .code
        { offset := lo₂ + byteSize text, rest := g :: more₂ }).all src₂ := by
  have hbeyond : Beyond (g :: (gap ++ brace :: more)) (g :: more₂) :=
    .inr ⟨g, _, _, hseam.ends, rfl, rfl⟩
  have hpos : 0 < byteSize (g :: gap) := byteSize_pos (List.cons_ne_nil _ _)
  induction toks generalizing s₁ s₂ with
  | nil => cases he
  | cons t toks ih =>
    obtain ⟨s₁', hnext, hrest, hlt, -, hafter⟩ := next_of_all hall
    have hreach : t.span.stop ≤ lo₁ + byteSize text + byteSize (g :: gap) ∨
        t.span.start = lo₁ + byteSize text + byteSize (g :: gap) := by
      rcases List.mem_cons.1 he with rfl | he
      · exact .inr hstart
      · exact .inl (hstart ▸ hafter e he)
    rcases h.within_or_blank hseam (next_eq_some.1 hnext) hreach with hle |
      ⟨hmode, front, back, rfl, hblank, hc₁, hc₂⟩
    · have he' : e ∈ toks := (List.mem_cons.1 he).resolve_left fun heq => by
        rw [heq] at hstart
        omega
      obtain ⟨t₂, s₂', hnext₂, halike, habreast | ⟨hany, hmarkup, hover⟩⟩ :=
        h.next src₂ hbeyond hnext hle
      · obtain ⟨ts₁, ts₂, hts, hsplit₁, hsplit₂⟩ := ih habreast hrest he'
        refine ⟨t :: ts₁, t₂ :: ts₂, .cons halike hts, ?_, ?_⟩
        · rw [all_of_next_some hnext, hsplit₁]
          rfl
        · rw [all_of_next_some hnext₂, hsplit₂]
          rfl
      · -- The line end belongs to a closing tag, so the brace is none of code.
        obtain rfl : g = '\n' := by
          rcases hseam.ends with rfl | rfl
          · cases hany
          · rfl
        rw [hseam.line rfl] at hstart
        cases toks with
        | nil => cases he'
        | cons u toks =>
          obtain ⟨s₁'', hnext', -, hlt', -, hafter'⟩ := next_of_all hrest
          obtain ⟨hfirst, hne⟩ := (next_eq_some.1 hnext').of_markup hmarkup
          have hone : byteSize ['\n'] = 1 := rfl
          rcases List.mem_cons.1 he' with rfl | he'
          · exact absurd (hkind rfl) hne
          · have hle' := hafter' e he'
            omega
    · have hall₁ := all_of_blank src₁ (lo₁ + byteSize front) (g :: (gap ++ brace :: more)) hblank
      have hall₂ := all_of_blank src₂ (lo₂ + byteSize front) (g :: more₂) hblank
      have hs₁ : s₁ = ⟨.code,
          { offset := lo₁ + byteSize front, rest := back ++ g :: (gap ++ brace :: more) }⟩ := by
        rw [← hmode, ← hc₁]
      have hs₂ : s₂ = ⟨.code,
          { offset := lo₂ + byteSize front, rest := back ++ g :: more₂ }⟩ := by
        rw [← hmode, h.mode, ← hc₂]
      refine ⟨[], [], .nil, ?_, ?_⟩
      · rw [hs₁, hall₁, byteSize_append, Nat.add_assoc]
        rfl
      · rw [hs₂, hall₂, byteSize_append, Nat.add_assoc]
        rfl

/-- Where both texts end with the part, the tokens of the rest of it are the same. -/
theorem Abreast.all (src₂ : Source) {toks₁ : List Token} (h : Abreast text lo₁ lo₂ [] [] s₁ s₂)
    (hall : s₁.all src₁ = toks₁.map .ok) :
    ∃ toks₂, List.Forall₂ (Token.Alike text lo₁ lo₂) toks₁ toks₂ ∧ s₂.all src₂ = toks₂.map .ok := by
  induction toks₁ generalizing s₁ s₂ with
  | nil =>
    refine ⟨[], .nil, ?_⟩
    have htiles : Tiles src₁ s₁.mode s₁.cursor [] := takeUpTo_tiles hall (Nat.le_refl _)
    obtain ⟨hmode, front, back, -, hc₁, hc₂⟩ := h
    obtain ⟨mode₂, c₂⟩ := s₂
    obtain rfl : s₁.mode = mode₂ := hmode
    obtain rfl : c₂ = _ := hc₂
    rw [hc₁, List.append_nil] at htiles
    rw [List.append_nil]
    generalize s₁.mode = mode at htiles
    cases htiles with
    | finished hc => exact all_of_rest_nil hc
    | blank hb =>
      have hblank := all_of_blank src₂ (lo₂ + byteSize front) [] hb
      rw [List.append_nil] at hblank
      exact hblank.trans (all_of_rest_nil rfl)
  | cons t toks₁ ih =>
    obtain ⟨s₁', hnext, hrest, -, hle, -⟩ := next_of_all hall
    have hle' : t.span.stop ≤ lo₁ + byteSize text := by
      obtain ⟨-, front, back, rfl, hc₁, -⟩ := h
      rw [hc₁, List.append_nil] at hle
      rwa [byteSize_append, ← Nat.add_assoc]
    obtain ⟨t₂, s₂', hnext₂, halike, habreast | ⟨hany, -, -⟩⟩ := h.next src₂ (.inl rfl) hnext hle'
    · obtain ⟨toks₂, htoks, hall₂⟩ := ih habreast hrest
      refine ⟨t₂ :: toks₂, .cons halike htoks, ?_⟩
      rw [all_of_next_some hnext₂, hall₂]
      rfl
    · cases hany

end Scanner

end PhpCheck
