import PhpCheck.Source.LineMap
import Mathlib.Data.Prod.Lex
import Mathlib.Order.Monotone.Basic

/-!
Lines and columns, said with the line feeds of a text.

A binary search looks at few of the entries of a table.  Where the table is cut in two, entries of
at most `n` in front and greater ones behind, it finds the cut (`search_append`).  The line
starts of a text are zero and the positions just after its line feeds
(`startsFrom_eq`), so an offset cuts them behind the line feeds below it, and its line and
column follow (`lineCol_eq`): lines are counted by the bytes of the text, although the table is
made from its characters.  One offset further either the line or the column grows
(`lineCol_lt_succ`), which orders the offsets of a text by line and column
(`lineCol_exact`).
-/

namespace PhpCheck.LineMap

/-! ### Binary search -/

section

variable {before after : List Nat} {n first count : Nat}

/-- An entry is greater than `n` if it stands behind the cut. -/
theorem lt_getD_append_iff (hbefore : ∀ x ∈ before, x ≤ n) (hafter : ∀ x ∈ after, n < x) {i : Nat}
    (hi : i < (before ++ after).length) :
    n < (before ++ after).toArray.getD i 0 ↔ before.length ≤ i := by
  have hget : (before ++ after).toArray.getD i 0 = (before ++ after)[i] := by
    rw [Array.getD_eq_getD_getElem?, List.getElem?_toArray, List.getElem?_eq_getElem hi,
      Option.getD_some]
  rw [hget]
  constructor
  · intro hlt
    by_contra hle
    rw [List.getElem_append_left (Nat.lt_of_not_le hle)] at hlt
    exact Nat.not_le_of_lt hlt (hbefore _ (List.getElem_mem _))
  · intro hle
    rw [List.getElem_append_right hle]
    exact hafter _ (List.getElem_mem _)

/-- As long as the cut lies in the stretch that is left, or in front of it, the search ends in front
of the cut. -/
theorem lastAtMost_append (hbefore : ∀ x ∈ before, x ≤ n) (hafter : ∀ x ∈ after, n < x)
    (hcut : before.length ≤ first + count) (hcount : first + count ≤ (before ++ after).length) :
    lastAtMost (before ++ after).toArray n first count = max first (before.length - 1) := by
  fun_induction lastAtMost (before ++ after).toArray n first count with
  | case1 first count hsmall => omega
  | case2 first count hlarge half hlt ih =>
    have hhalf : half = count / 2 := rfl
    have hle := (lt_getD_append_iff hbefore hafter (by omega)).1 hlt
    exact ih (by omega) (by omega)
  | case3 first count hlarge half hnlt ih =>
    have hhalf : half = count / 2 := rfl
    have hnle := mt (lt_getD_append_iff hbefore hafter (i := first + half) (by omega)).2 hnlt
    rw [ih (by omega) (by omega)]
    omega

/-- A search finds the last entry in front of the cut if this is the number looked for, and else
the cut. -/
theorem search_append (hbefore : ∀ x ∈ before, x ≤ n) (hafter : ∀ x ∈ after, n < x) :
    search (before ++ after).toArray n =
      if before.getLast? = some n then .ok (before.length - 1) else .error before.length := by
  have hplace : lastAtMost (before ++ after).toArray n 0 (before ++ after).toArray.size =
      before.length - 1 := by
    rw [lastAtMost_append hbefore hafter] <;> simp
  rw [search, hplace]
  rcases List.eq_nil_or_concat before with rfl | ⟨front, last, rfl⟩
  · cases after with
    | nil => rfl
    | cons x after =>
      have hx := hafter x List.mem_cons_self
      simp [Nat.ne_of_gt hx, Nat.not_lt_of_gt hx]
  · have hlast := hbefore last (by simp)
    by_cases heq : last = n
    · simp [heq]
    · simp [heq, Nat.lt_of_le_of_ne hlast heq]

/-- An offset lies on the last line in front of the cut, whether it is found among the line starts
or not. -/
theorem lineIndex_append (hbefore : ∀ x ∈ before, x ≤ n) (hafter : ∀ x ∈ after, n < x) :
    lineIndex ⟨(before ++ after).toArray⟩ n = before.length - 1 := by
  rw [lineIndex, search_append hbefore hafter]
  by_cases hlast : before.getLast? = some n
  · rw [if_pos hlast]
  · rw [if_neg hlast]

theorem lineCol_append_starts (hbefore : ∀ x ∈ before, x ≤ n) (hafter : ∀ x ∈ after, n < x)
    (hne : before ≠ []) :
    lineCol ⟨(before ++ after).toArray⟩ n = (before.length, n - before.getLastD 0 + 1) := by
  have hpos := List.length_pos_iff.2 hne
  have hstart : (before ++ after).toArray.getD (before.length - 1) 0 = before.getLastD 0 := by
    rw [List.getLastD_eq_getLast?, List.getLast?_eq_getElem?, Array.getD_eq_getD_getElem?,
      List.getElem?_toArray, List.getElem?_append_left (by omega)]
  simp only [lineCol, lineIndex_append hbefore hafter, hstart]
  rw [Nat.sub_add_cancel hpos]

end

/-! ### Line feeds -/

/-- The bytes of a text in UTF-8. -/
def bytes (text : List Char) : List UInt8 := text.flatMap String.utf8EncodeChar

/-- The positions below `o` at which a line feed stands, in ascending order. -/
def lineFeeds (text : List Char) (o : Nat) : List Nat :=
  (List.range o).filter fun i => (bytes text)[i]? = some 10

/-- The position just after the last line feed below `o`, or zero if there is none. -/
def lineStart (text : List Char) (o : Nat) : Nat :=
  match (lineFeeds text o).getLast? with
  | some i => i + 1
  | none => 0

section

variable {text : List Char} {o : Nat}

theorem bytes_cons (c : Char) (text : List Char) :
    bytes (c :: text) = String.utf8EncodeChar c ++ bytes text := List.flatMap_cons

theorem bytes_append (text more : List Char) :
    bytes (text ++ more) = bytes text ++ bytes more := List.flatMap_append

/-- The bytes of a character beyond ASCII have their highest bit set. -/
theorem le_toNat_of_mem_utf8EncodeChar {c : Char} (hc : 127 < c.val.toNat) :
    ∀ b ∈ String.utf8EncodeChar c, 128 ≤ b.toNat := by
  rw [String.utf8EncodeChar, if_neg (Nat.not_le_of_lt hc)]
  split_ifs
  all_goals
    simp only [List.forall_mem_cons, List.not_mem_nil, false_implies, implies_true, and_true,
      UInt8.toNat_ofNat']
    omega

/-- Only the line feed has the byte of a line feed in its encoding. -/
theorem mem_utf8EncodeChar_iff {c : Char} : 10 ∈ String.utf8EncodeChar c ↔ c = '\n' := by
  constructor
  · intro hmem
    have hle : c.val.toNat ≤ 127 := by
      by_contra hlt
      exact absurd (le_toNat_of_mem_utf8EncodeChar (Nat.lt_of_not_le hlt) _ hmem) (by decide)
    rw [String.utf8EncodeChar, if_pos hle, List.mem_singleton, ← UInt8.toNat_inj,
      UInt8.toNat_ofNat_of_lt' (Nat.lt_of_le_of_lt hle (by decide))] at hmem
    exact Char.ext (UInt32.toNat_inj.1 hmem.symm)
  · rintro rfl
    decide

theorem lineFeeds_add (text : List Char) (m n : Nat) :
    lineFeeds text (m + n) = lineFeeds text m ++
      ((List.range n).filter fun i => (bytes text)[m + i]? = some 10).map (m + ·) := by
  rw [lineFeeds, List.range_add, List.filter_append, List.filter_map]
  rfl

/-- Beyond the end of a text there are no line feeds. -/
theorem lineFeeds_length_add (text : List Char) (n : Nat) :
    lineFeeds text ((bytes text).length + n) = lineFeeds text (bytes text).length := by
  rw [lineFeeds_add, List.filter_eq_nil_iff.2, List.map_nil, List.append_nil]
  intro i _
  simp

/-- A character is a line feed, or there is none among its bytes. -/
theorem lineFeeds_utf8Size (c : Char) (text : List Char) :
    lineFeeds (c :: text) c.utf8Size = if c = '\n' then [0] else [] := by
  have hsize : (String.utf8EncodeChar c).length = c.utf8Size := String.length_utf8EncodeChar c
  have hhead {i : Nat} (hi : i < c.utf8Size) :
      (bytes (c :: text))[i]? = (String.utf8EncodeChar c)[i]? := by
    rw [bytes_cons, List.getElem?_append_left (by omega)]
  split
  · rename_i hc
    subst hc
    rfl
  · rename_i hc
    refine List.filter_eq_nil_iff.2 fun i hi hfeed => hc ?_
    rw [decide_eq_true_eq, hhead (List.mem_range.1 hi)] at hfeed
    exact mem_utf8EncodeChar_iff.1 (List.mem_of_getElem? hfeed)

/-- Lines begin just after the line feeds. -/
theorem startsFrom_eq (offset : Nat) (text : List Char) :
    startsFrom offset text = (lineFeeds text (bytes text).length).map (offset + · + 1) := by
  induction text generalizing offset with
  | nil => rfl
  | cons c text ih =>
    have hsize : (String.utf8EncodeChar c).length = c.utf8Size := String.length_utf8EncodeChar c
    have hrest (i : Nat) : (bytes (c :: text))[c.utf8Size + i]? = (bytes text)[i]? := by
      rw [bytes_cons, List.getElem?_append_right (by omega), hsize, Nat.add_sub_cancel_left]
    have hlength : (bytes (c :: text)).length = c.utf8Size + (bytes text).length := by
      rw [bytes_cons, List.length_append, hsize]
    have htail : (lineFeeds text (bytes text).length).map (offset + c.utf8Size + · + 1) =
        ((lineFeeds text (bytes text).length).map (c.utf8Size + ·)).map (offset + · + 1) := by
      simp [Function.comp_def, Nat.add_assoc]
    simp only [startsFrom, ih, hlength, lineFeeds_add, hrest, lineFeeds_utf8Size, List.map_append]
    rw [htail]
    split
    · rename_i hc
      subst hc
      rfl
    · rfl

/-- The line starts of a text are cut by an offset behind the line feeds below it. -/
theorem exists_starts_eq (text : List Char) (o : Nat) :
    ∃ after, (ofChars text).starts = (0 :: (lineFeeds text o).map (· + 1) ++ after).toArray ∧
      ∀ x ∈ after, o < x := by
  -- Up to this position lie both all bytes of the text and all positions below the offset.
  have hstarts : startsFrom 0 text = (lineFeeds text (o + (bytes text).length)).map (· + 1) := by
    rw [Nat.add_comm, lineFeeds_length_add, startsFrom_eq]
    simp only [Nat.zero_add]
  rw [lineFeeds_add, List.map_append] at hstarts
  refine ⟨_, by rw [ofChars, hstarts]; rfl, fun x hx => ?_⟩
  simp only [List.map_map, List.mem_map] at hx
  obtain ⟨i, -, rfl⟩ := hx
  show o < o + i + 1
  omega

theorem lt_of_mem_lineFeeds {i : Nat} (hi : i ∈ lineFeeds text o) : i < o :=
  List.mem_range.1 (List.mem_filter.1 hi).1

theorem lineStart_le (text : List Char) (o : Nat) : lineStart text o ≤ o := by
  rw [lineStart]
  split
  · rename_i i hlast
    exact lt_of_mem_lineFeeds (List.mem_of_getLast? hlast)
  · exact Nat.zero_le o

theorem getLastD_starts (text : List Char) (o : Nat) :
    (0 :: (lineFeeds text o).map (· + 1)).getLastD 0 = lineStart text o := by
  rw [lineStart, List.getLastD_cons, List.getLastD_eq_getLast?, List.getLast?_map]
  cases (lineFeeds text o).getLast? <;> rfl

/-- The line of an offset is counted by the line feeds below it, its column from where that line
begins. -/
theorem lineCol_eq (text : List Char) (o : Nat) :
    (ofChars text).lineCol o = (1 + (lineFeeds text o).length, 1 + o - lineStart text o) := by
  obtain ⟨after, hstarts, hafter⟩ := exists_starts_eq text o
  have hbefore : ∀ x ∈ 0 :: (lineFeeds text o).map (· + 1), x ≤ o := by
    intro x hx
    rcases List.mem_cons.1 hx with rfl | hx
    · exact Nat.zero_le o
    · obtain ⟨i, hi, rfl⟩ := List.mem_map.1 hx
      exact lt_of_mem_lineFeeds hi
  have hle := lineStart_le text o
  have hcol := lineCol_append_starts hbefore hafter (List.cons_ne_nil _ _)
  rw [← hstarts, getLastD_starts, List.length_cons, List.length_map] at hcol
  refine hcol.trans (Prod.ext (Nat.add_comm _ _) ?_)
  show o - lineStart text o + 1 = 1 + o - lineStart text o
  omega

/-! ### The order of offsets -/

theorem lineFeeds_succ (text : List Char) (o : Nat) :
    lineFeeds text (o + 1) =
      if (bytes text)[o]? = some 10 then lineFeeds text o ++ [o] else lineFeeds text o := by
  rw [lineFeeds, List.range_succ, List.filter_append, List.filter_cons, List.filter_nil]
  by_cases hfeed : (bytes text)[o]? = some 10
  · rw [if_pos hfeed, if_pos (decide_eq_true hfeed)]
    rfl
  · rw [if_neg hfeed, if_neg (mt of_decide_eq_true hfeed), List.append_nil]
    rfl

/-- The next offset is on the next line, or on the same line in the next column. -/
theorem lineCol_lt_succ (text : List Char) (o : Nat) :
    toLex ((ofChars text).lineCol o) < toLex ((ofChars text).lineCol (o + 1)) := by
  have hle := lineStart_le text o
  rw [Prod.Lex.toLex_lt_toLex, lineCol_eq, lineCol_eq]
  by_cases hfeed : (bytes text)[o]? = some 10
  · left
    rw [lineFeeds_succ, if_pos hfeed, List.length_append, List.length_singleton]
    omega
  · right
    have hfeeds : lineFeeds text (o + 1) = lineFeeds text o := by
      rw [lineFeeds_succ, if_neg hfeed]
    have hstart : lineStart text (o + 1) = lineStart text o := by
      rw [lineStart, lineStart, hfeeds]
    refine ⟨by rw [hfeeds], ?_⟩
    rw [hstart]
    show 1 + o - lineStart text o < 1 + (o + 1) - lineStart text o
    omega

/-- Lines are counted by the line feeds below an offset and columns from the last of them, at every
offset, those past the end included.  So greater offsets have greater lines, or greater columns on
the same line, and no two offsets have the same line and column. -/
theorem lineCol_exact (text : List Char) :
    (∀ o, (ofChars text).lineCol o =
      (1 + (lineFeeds text o).length, 1 + o - lineStart text o)) ∧
    StrictMono (fun o => toLex ((ofChars text).lineCol o)) ∧
    Function.Injective (ofChars text).lineCol := by
  have hmono : StrictMono (fun o => toLex ((ofChars text).lineCol o)) :=
    strictMono_nat_of_lt_succ (lineCol_lt_succ text)
  exact ⟨lineCol_eq text, hmono, fun _ _ heq => hmono.injective (congrArg toLex heq)⟩

-- The third byte is the second one of a character, and the last offset is past the end.
example : [0, 2, 3, 4, 5, 9].map (ofChars "aé\nb".toList).lineCol =
    [(1, 1), (1, 3), (1, 4), (2, 1), (2, 2), (2, 6)] := by
  decide +kernel

end

end PhpCheck.LineMap
