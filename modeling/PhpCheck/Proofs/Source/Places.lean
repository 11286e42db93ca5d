import PhpCheck.Proofs.Token.Lossless
import PhpCheck.Proofs.Source.Lines

/-!
Places in a source text, and the spans between them.

A place is an offset at which a character begins or the text ends.  A span fits a text if its
ends are places, in order, with the lines and columns that the text has there
(`Span.Fits`).  A text that is cut off at a place has the lines of the whole text up to
there, so what fits it fits the whole text as well (`Span.Fits.of_truncate`).
-/

namespace PhpCheck

/-! ### Lines -/

namespace LineMap

theorem length_bytes (text : List Char) : (bytes text).length = byteSize text := by
  induction text with
  | nil => rfl
  | cons c text ih =>
    rw [bytes_cons, List.length_append, String.length_utf8EncodeChar, ih, byteSize_cons]

theorem lineFeeds_append {text : List Char} {o : Nat} (ho : o ≤ byteSize text) (more : List Char) :
    lineFeeds (text ++ more) o = lineFeeds text o := by
  refine List.filter_congr fun i hi => ?_
  have hlt : i < (bytes text).length := by
    rw [length_bytes]
    exact Nat.lt_of_lt_of_le (List.mem_range.1 hi) ho
  rw [bytes_append, List.getElem?_append_left hlt]

/-- What follows an offset does not change its line and column. -/
theorem lineCol_append {text : List Char} {o : Nat} (ho : o ≤ byteSize text) (more : List Char) :
    (ofChars (text ++ more)).lineCol o = (ofChars text).lineCol o := by
  rw [lineCol_eq, lineCol_eq, lineStart, lineStart, lineFeeds_append ho]

end LineMap

/-! ### Places -/

/-- A character of the text begins at the offset, or the text ends there. -/
def Source.IsPlace (src : Source) (o : Nat) : Prop :=
  ∃ before after, src.chars = before ++ after ∧ byteSize before = o

section

variable {src : Source} {a b o : Nat} {text more : List Char}

theorem Source.isPlace_zero (src : Source) : src.IsPlace 0 := ⟨[], src.chars, rfl, rfl⟩

theorem Source.isPlace_size (chars : List Char) : (ofChars chars).IsPlace (ofChars chars).size :=
  ⟨chars, [], (List.append_nil _).symm, rfl⟩

theorem Source.IsPlace.le_size {chars : List Char} (ho : (ofChars chars).IsPlace o) :
    o ≤ (ofChars chars).size := by
  obtain ⟨before, after, hchars, rfl⟩ := ho
  obtain rfl : chars = before ++ after := hchars
  show _ ≤ byteSize (before ++ after)
  rw [byteSize_append]
  exact Nat.le_add_right _ _

theorem Source.HasAt.isPlace {more : List Char} (text : List Char)
    (ht : src.HasAt o (text ++ more)) : src.IsPlace (o + byteSize text) := by
  obtain ⟨before, after, hchars, rfl⟩ := ht
  refine ⟨before ++ text, more ++ after, ?_, byteSize_append _ _⟩
  rw [hchars]
  simp only [List.append_assoc]

theorem Source.HasAt.isPlace_start (ht : src.HasAt o text) : src.IsPlace o :=
  Source.HasAt.isPlace [] ht

theorem Source.HasAt.isPlace_stop (ht : src.HasAt o text) : src.IsPlace (o + byteSize text) := by
  rw [← List.append_nil text] at ht
  exact ht.isPlace text

theorem Source.HasAt.drop (ht : src.HasAt o (text ++ more)) :
    src.HasAt (o + byteSize text) more := by
  obtain ⟨before, after, hchars, rfl⟩ := ht
  refine ⟨before ++ text, after, ?_, byteSize_append _ _⟩
  rw [hchars]
  simp only [List.append_assoc]

theorem Source.HasAt.take (ht : src.HasAt o (text ++ more)) : src.HasAt o text := by
  obtain ⟨before, after, hchars, ho⟩ := ht
  refine ⟨before, more ++ after, ?_, ho⟩
  rw [hchars]
  simp only [List.append_assoc]

theorem eq_nil_of_byteSize_le {before text : List Char}
    (hle : byteSize (before ++ text) ≤ byteSize before) : text = [] := by
  by_contra hne
  have hpos := byteSize_pos hne
  rw [byteSize_append] at hle
  omega

/-- A text begins with one text of each size at most. -/
theorem eq_of_byteSize_eq {before before' after after' : List Char}
    (happend : before ++ after = before' ++ after') (hsize : byteSize before = byteSize before') :
    before = before' := by
  rcases List.append_eq_append_iff.1 happend with ⟨text, rfl, -⟩ | ⟨text, rfl, -⟩
  · rw [eq_nil_of_byteSize_le (Nat.le_of_eq hsize.symm), List.append_nil]
  · rw [eq_nil_of_byteSize_le (Nat.le_of_eq hsize), List.append_nil]

/-- Between two places stands some text. -/
theorem Source.IsPlace.hasAt (ha : src.IsPlace a) (hb : src.IsPlace b) (hle : a ≤ b) :
    ∃ text, src.HasAt a text ∧ a + byteSize text = b := by
  obtain ⟨before, after, hchars, rfl⟩ := ha
  obtain ⟨before', after', hchars', rfl⟩ := hb
  have happend : before ++ after = before' ++ after' := hchars.symm.trans hchars'
  rcases List.append_eq_append_iff.1 happend with ⟨text, rfl, rfl⟩ | ⟨text, rfl, rfl⟩
  · exact ⟨text, ⟨before, after', hchars', rfl⟩, (byteSize_append _ _).symm⟩
  · obtain rfl := eq_nil_of_byteSize_le hle
    refine ⟨[], ⟨before', after, by simpa using hchars, by simp⟩, by simp⟩

/-- The text between two places. -/
theorem Source.IsPlace.slice (ha : src.IsPlace a) (hb : src.IsPlace b) (hle : a ≤ b) :
    src.HasAt a (src.slice a b) ∧ a + byteSize (src.slice a b) = b := by
  obtain ⟨text, htext, rfl⟩ := ha.hasAt hb hle
  rw [htext.slice]
  exact ⟨htext, rfl⟩

end

/-! ### Spans -/

/-- The span goes from one place of the text to another, with the lines and columns that the
text has there. -/
structure Span.Fits (src : Source) (s : Span) : Prop where
  start : src.IsPlace s.start
  stop : src.IsPlace s.stop
  le : s.start ≤ s.stop
  startAt : (s.startLine, s.startColumn) = src.lines.lineCol s.start
  stopAt : (s.endLine, s.endColumn) = src.lines.lineCol s.stop

section

variable {src : Source} {s t : Span} {a b : Nat}

theorem Source.span_fits (ha : src.IsPlace a) (hb : src.IsPlace b) (hle : a ≤ b) :
    (src.span a b).Fits src := ⟨ha, hb, hle, rfl, rfl⟩

/-- Merging takes the lines and columns from where the offsets come from. -/
theorem Span.Fits.merge (hs : s.Fits src) (ht : t.Fits src) : (s.merge t).Fits src := by
  have hmax : max s.stop t.stop = (if s.stop ≥ t.stop then s else t).stop := by
    split <;> omega
  have hmax' : (s.merge t).stop = (if s.stop ≥ t.stop then s else t).stop := by
    simp only [Span.merge]
    split <;> split <;> omega
  have hmin : (s.merge t).start = (if s.start ≤ t.start then s else t).start := rfl
  have hle := hs.le
  have hle' := ht.le
  refine ⟨?_, ?_, ?_, ?_, ?_⟩
  · rw [hmin]
    split
    · exact hs.start
    · exact ht.start
  · rw [hmax']
    split
    · exact hs.stop
    · exact ht.stop
  · rw [hmin, hmax']
    split <;> split <;> omega
  · show ((if s.start ≤ t.start then s else t).startLine,
      (if s.start ≤ t.start then s else t).startColumn) = _
    rw [hmin]
    split
    · exact hs.startAt
    · exact ht.startAt
  · show ((if s.stop ≥ t.stop then s else t).endLine,
      (if s.stop ≥ t.stop then s else t).endColumn) = _
    rw [hmax']
    split
    · exact hs.stopAt
    · exact ht.stopAt

end

/-! ### Texts cut off at a place -/

section

variable {chars : List Char} {stop a : Nat} {s : Span}

/-- A text that is cut off at a place is the text before it. -/
theorem Source.IsPlace.truncate_eq (hstop : (Source.ofChars chars).IsPlace stop) :
    ∃ before after, chars = before ++ after ∧ byteSize before = stop ∧
      (Source.ofChars chars).truncate stop = .ofChars before := by
  obtain ⟨before, after, hchars, rfl⟩ := hstop
  obtain rfl : chars = before ++ after := hchars
  refine ⟨before, after, rfl, rfl, ?_⟩
  show Source.ofChars (takeBytes (byteSize before) (before ++ after)) = _
  rw [takeBytes_byteSize]

theorem Source.IsPlace.size_truncate (hstop : (Source.ofChars chars).IsPlace stop) :
    ((Source.ofChars chars).truncate stop).size = stop := by
  obtain ⟨before, after, rfl, rfl, heq⟩ := hstop.truncate_eq
  rw [heq]
  rfl

/-- Up to where a text is cut off, it has the places of the whole text. -/
theorem Source.IsPlace.truncate_iff (hstop : (Source.ofChars chars).IsPlace stop) :
    ((Source.ofChars chars).truncate stop).IsPlace a ↔
      (Source.ofChars chars).IsPlace a ∧ a ≤ stop := by
  obtain ⟨before, after, rfl, rfl, heq⟩ := hstop.truncate_eq
  rw [heq]
  constructor
  · intro ha
    refine ⟨?_, ha.le_size⟩
    obtain ⟨text, more, hbefore, rfl⟩ := ha
    obtain rfl : before = text ++ more := hbefore
    exact ⟨text, more ++ after, List.append_assoc _ _ _, rfl⟩
  · rintro ⟨ha, hle⟩
    obtain ⟨text, htext, hsize⟩ := ha.hasAt ⟨before, after, rfl, rfl⟩ hle
    obtain ⟨front, back, hchars, rfl⟩ := htext
    have hbefore : before = front ++ text :=
      eq_of_byteSize_eq hchars ((byteSize_append _ _).trans hsize).symm
    exact ⟨front, text, hbefore, rfl⟩

/-- What fits a text that is cut off at a place fits the whole text. -/
theorem Span.Fits.of_truncate (hstop : (Source.ofChars chars).IsPlace stop)
    (hs : s.Fits ((Source.ofChars chars).truncate stop)) : s.Fits (Source.ofChars chars) := by
  obtain ⟨hstart, hstartLe⟩ := hstop.truncate_iff.1 hs.start
  obtain ⟨hend, hendLe⟩ := hstop.truncate_iff.1 hs.stop
  have hstartAt := hs.startAt
  have hstopAt := hs.stopAt
  obtain ⟨before, after, rfl, rfl, heq⟩ := hstop.truncate_eq
  rw [heq] at hstartAt hstopAt
  exact ⟨hstart, hend, hs.le, hstartAt.trans (LineMap.lineCol_append hstartLe after).symm,
    hstopAt.trans (LineMap.lineCol_append hendLe after).symm⟩

end

end PhpCheck
