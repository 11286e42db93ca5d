import PhpCheck.Proofs.Token.Cutting

/-!
The regions of code that the scan of quoted text steps over.

A scan with a stack of enclosures closes the innermost first and then resumes those around it
(`Enclosure.close_append`), so a region is closed as if nothing stood around it.  The scan of a
text that may embed code is then a walk over its characters and its regions
(`Enclosure.Steps`), and every text that ends has such a walk (`Enclosure.exists_steps`).
Code whose braces and quotes pair off is passed over as a whole (`Enclosure.Balanced.passed`).
-/

namespace PhpCheck

namespace Enclosure

/-- Going on after an enclosure has ended. -/
def resume : List Enclosure → Cursor → Except Nat Cursor
  | [], d => .ok d
  | outer :: others, d => outer.close others d.offset d.rest

section

variable {around : List Enclosure} {offset since : Nat} {quote c d : Char} {rest : List Char}

theorem close_plain_hidden :
    (plain since).close around offset ('\\' :: c :: rest) =
      (plain since).close around (offset + 1 + c.utf8Size) rest := by
  rw [close.eq_def]
  rfl

theorem close_plain_end :
    (plain since).close around offset ('\'' :: rest) = resume around ⟨offset + 1, rest⟩ := by
  rw [close.eq_def]
  cases around <;> rfl

theorem close_plain (hc : c ≠ '\\') (hc' : c ≠ '\'') :
    (plain since).close around offset (c :: rest) =
      (plain since).close around (offset + c.utf8Size) rest := by
  rw [close.eq_def]
  simp [hc, hc']

theorem close_template_hidden :
    (template quote since).close around offset ('\\' :: c :: rest) =
      (template quote since).close around (offset + 1 + c.utf8Size) rest := by
  rw [close.eq_def]
  rfl

theorem close_template_end (hq : quote ≠ '\\') :
    (template quote since).close around offset (quote :: rest) =
      resume around ⟨offset + quote.utf8Size, rest⟩ := by
  rw [close.eq_def]
  cases around <;> simp [hq, resume]

/-- Whether a region of code begins with a character, given what follows it. -/
def opens (c : Char) (rest : List Char) : Bool :=
  c == '{' && rest.head? == some '$' || c == '$' && rest.head? == some '{'

theorem close_template (hc : c ≠ '\\') (hq : c ≠ quote) (hopens : opens c (d :: rest) = false) :
    (template quote since).close around offset (c :: d :: rest) =
      (template quote since).close around (offset + c.utf8Size) (d :: rest) := by
  simp only [opens, List.head?_cons, Bool.or_eq_false_iff, Option.some_beq_some] at hopens
  rw [close.eq_def]
  simp only [beq_false_of_ne hc, beq_false_of_ne hq, hopens.1, hopens.2, Bool.false_eq_true,
    if_false]

/-- Behind the end of an enclosure, the enclosures around others wait. -/
theorem leave_append (around outer : List Enclosure) (d : Cursor)
    (hclose : ∀ o others, close o (others ++ outer) d.offset d.rest =
      (o.close others d.offset d.rest).bind (resume outer)) :
    (match around ++ outer with
      | [] => .ok d
      | o :: others => o.close others d.offset d.rest : Except Nat Cursor) =
    Except.bind (match around with
      | [] => .ok d
      | o :: others => o.close others d.offset d.rest) (resume outer) := by
  cases around with
  | nil => cases outer <;> rfl
  | cons o others => exact hclose o others

/-- The enclosures around others wait until those are closed. -/
theorem close_append (top : Enclosure) (inner outer : List Enclosure) (offset : Nat)
    (rest : List Char) :
    top.close (inner ++ outer) offset rest = (top.close inner offset rest).bind (resume outer) := by
  fun_induction Enclosure.close top inner offset rest with
  | case1 => rw [close.eq_def]; rfl
  | case2 around offset x next since hx _ =>
    rw [close.eq_def]
    simp only [hx, if_true]
    rfl
  | case3 around offset x next since hx hidden rest _ ih =>
    rw [close.eq_def]
    simp only [hx, if_true]
    exact ih
  | case4 around offset x rest next leave since hx hq ih =>
    rw [close.eq_def]
    simp only [hx, hq, if_true]
    exact leave_append around outer ⟨next, rest⟩ ih
  | case5 around offset x rest next since hx hq _ ih =>
    rw [close.eq_def]
    simp only [hx, hq]
    exact ih
  | case6 around offset x next quote since hx _ =>
    rw [close.eq_def]
    simp only [hx, if_true]
    rfl
  | case7 around offset x next quote since hx hidden rest _ ih =>
    rw [close.eq_def]
    simp only [hx, if_true]
    exact ih
  | case8 around offset x rest next leave quote since hx hq ih =>
    rw [close.eq_def]
    simp only [hx, hq, if_true]
    exact leave_append around outer ⟨next, rest⟩ ih
  | case9 around offset x next quote since hx hq y more ho _ ih =>
    rw [close.eq_def]
    simp only [hx, hq, ho, if_true]
    exact ih
  | case10 around offset x next quote since hx hq y more hno ho _ ih =>
    rw [close.eq_def]
    simp only [hx, hq, hno, ho, if_true]
    exact ih
  | case11 around offset x next quote since hx hq y more hno hno' _ ih =>
    rw [close.eq_def]
    simp only [hx, hq, hno, hno']
    exact ih
  | case12 around offset x next quote since hx hq _ =>
    rw [close.eq_def]
    simp only [hx, hq]
    rfl
  | case13 =>
    rename_i hx _ ih
    rw [close.eq_def]
    simp only [hx, if_true]
    exact ih
  | case14 =>
    rename_i hx hx' _ ih
    rw [close.eq_def]
    simp only [hx, hx', if_true]
    exact ih
  | case15 =>
    rename_i hx hx' ho _ ih
    rw [close.eq_def]
    simp only [hx, hx', ho, if_true]
    exact ih
  | case16 around offset x rest next leave opening closing since hx hx' ho hc ih =>
    rw [close.eq_def]
    simp only [hx, hx', ho, hc, if_true]
    exact leave_append around outer ⟨next, rest⟩ ih
  | case17 =>
    rename_i hx hx' ho hc _ _ ih
    rw [close.eq_def]
    simp only [hx, hx', ho, hc, if_true]
    exact ih
  | case18 =>
    rename_i hx hx' ho hc _ ih
    rw [close.eq_def]
    simp only [hx, hx', ho, hc]
    exact ih

theorem close_cons (top outer : Enclosure) (others : List Enclosure) (offset : Nat)
    (rest : List Char) :
    top.close (outer :: others) offset rest =
      (top.close [] offset rest).bind (resume (outer :: others)) :=
  close_append top [] (outer :: others) offset rest

end

/-! ### Regions of code -/

end Enclosure

/-- A region of code in quoted text, between its braces, and whether the dollar sign stands
before the opening brace. -/
structure Region where
  dollar : Bool
  start : Nat
  inner : List Char

namespace Region

/-- Where the closing brace stands. -/
def stop (r : Region) : Nat := r.start + byteSize r.inner

end Region

namespace Enclosure

/-- The scan of a template from an offset on steps over regions, and ends at a position. -/
inductive Steps (quote : Char) : Nat → List Char → List Region → Cursor → Prop
  | done (offset : Nat) (rest : List Char) :
    Steps quote offset (quote :: rest) [] { offset := offset + quote.utf8Size, rest }
  | hidden {offset : Nat} {c : Char} {rest : List Char} {regions : List Region} {d : Cursor}
    (hrest : Steps quote (offset + 1 + c.utf8Size) rest regions d) :
    Steps quote offset ('\\' :: c :: rest) regions d
  | other {offset : Nat} {c x : Char} {rest : List Char} {regions : List Region} {d : Cursor}
    (hc : c ≠ '\\') (hq : c ≠ quote) (hopens : opens c (x :: rest) = false)
    (hrest : Steps quote (offset + c.utf8Size) (x :: rest) regions d) :
    Steps quote offset (c :: x :: rest) regions d
  | region {offset : Nat} {inner rest : List Char} {regions : List Region} {d : Cursor}
    (hopens : inner.head? = some '$')
    (hclose : (code '{' '}' 0 offset).close [] (offset + 1) (inner ++ '}' :: rest) =
      .ok { offset := offset + 1 + byteSize inner + 1, rest })
    (hrest : Steps quote (offset + 1 + byteSize inner + 1) rest regions d) :
    Steps quote offset ('{' :: (inner ++ '}' :: rest))
      ({ dollar := false, start := offset + 1, inner } :: regions) d
  | dollarRegion {offset : Nat} {inner rest : List Char} {regions : List Region} {d : Cursor}
    (hclose : (code '{' '}' 0 (offset + 1)).close [] (offset + 2) (inner ++ '}' :: rest) =
      .ok { offset := offset + 2 + byteSize inner + 1, rest })
    (hrest : Steps quote (offset + 2 + byteSize inner + 1) rest regions d) :
    Steps quote offset ('$' :: '{' :: (inner ++ '}' :: rest))
      ({ dollar := true, start := offset + 2, inner } :: regions) d

section

variable {quote : Char} {since offset : Nat} {rest : List Char} {regions : List Region} {d : Cursor}

theorem close_region {inner : List Char} {e : Cursor} (hq : quote ≠ '{')
    (hopens : inner.head? = some '$')
    (hclose : (code '{' '}' 0 offset).close [] (offset + 1) (inner ++ '}' :: rest) = .ok e) :
    (template quote since).close [] offset ('{' :: (inner ++ '}' :: rest)) =
      (template quote since).close [] e.offset e.rest := by
  obtain ⟨more, rfl⟩ := List.head?_eq_some_iff.1 hopens
  rw [close.eq_def]
  simp only [beq_false_of_ne hq.symm, Bool.false_eq_true, if_false]
  show (code '{' '}' 0 offset).close [template quote since] (offset + 1)
    ('$' :: more ++ '}' :: rest) = _
  rw [close_cons, hclose]
  rfl

theorem close_dollarRegion {inner : List Char} {e : Cursor} (hq : quote ≠ '$')
    (hclose : (code '{' '}' 0 (offset + 1)).close [] (offset + 2) (inner ++ '}' :: rest) = .ok e) :
    (template quote since).close [] offset ('$' :: '{' :: (inner ++ '}' :: rest)) =
      (template quote since).close [] e.offset e.rest := by
  rw [close.eq_def]
  simp only [beq_false_of_ne hq.symm, Bool.false_eq_true, if_false]
  show (code '{' '}' 0 (offset + 1)).close [template quote since] (offset + 2)
    (inner ++ '}' :: rest) = _
  rw [close_cons, hclose]
  rfl

/-- The end of a template is found by stepping over its regions. -/
theorem Steps.close (hsteps : Steps quote offset rest regions d) (hq : quote ∉ ['\\', '{', '$']) :
    (template quote since).close [] offset rest = .ok d := by
  simp only [List.mem_cons, List.not_mem_nil, or_false, not_or] at hq
  induction hsteps with
  | done => exact close_template_end hq.1
  | hidden _ ih => exact close_template_hidden.trans ih
  | other hc hq' hopens _ ih => exact (close_template hc hq' hopens).trans ih
  | region hopens hclose _ ih => exact (close_region hq.2.1 hopens hclose).trans ih
  | dollarRegion hclose _ ih => exact (close_dollarRegion hq.2.2 hclose).trans ih

theorem opens_region {inner : List Char} (hopens : inner.head? = some '$') (rest : List Char) :
    opens '{' (inner ++ rest) = true := by
  obtain ⟨more, rfl⟩ := List.head?_eq_some_iff.1 hopens
  rfl

/-- A region ends at the brace that the scan of its code finds. -/
theorem region_unique {top : Enclosure} {start : Nat} {inner inner' rest rest' : List Char}
    (hclose : top.close [] start (inner ++ '}' :: rest) =
      .ok { offset := start + byteSize inner + 1, rest })
    (hclose' : top.close [] start (inner' ++ '}' :: rest') =
      .ok { offset := start + byteSize inner' + 1, rest := rest' })
    (htext : inner ++ '}' :: rest = inner' ++ '}' :: rest') : inner' = inner ∧ rest' = rest := by
  rw [htext, hclose'] at hclose
  obtain rfl : rest' = rest := congrArg Cursor.rest (Except.ok.inj hclose)
  exact ⟨(List.append_cancel_right htext).symm, rfl⟩

/-- What the scan steps over is determined by the text. -/
theorem Steps.unique (hsteps : Steps quote offset rest regions d) (hq : quote ∉ ['\\', '{', '$'])
    {others : List Region} {e : Cursor} (hothers : Steps quote offset rest others e) :
    others = regions ∧ e = d := by
  have hd : (template quote 0).close [] offset rest = .ok d := hsteps.close hq
  have he : (template quote 0).close [] offset rest = .ok e := hothers.close hq
  refine ⟨?_, Except.ok.inj (he.symm.trans hd)⟩
  simp only [List.mem_cons, List.not_mem_nil, or_false, not_or] at hq
  obtain ⟨hhidden, hbrace, hdollar⟩ := hq
  clear hd he
  induction hsteps generalizing others with
  | done offset rest =>
    cases hothers with
    | done => rfl
    | hidden => exact absurd rfl hhidden
    | other _ hq => exact absurd rfl hq
    | region => exact absurd rfl hbrace
    | dollarRegion => exact absurd rfl hdollar
  | hidden _ ih =>
    cases hothers with
    | done => exact absurd rfl hhidden
    | hidden hrest => exact ih hrest
    | other hc => exact absurd rfl hc
  | @other offset c x rest regions d hc hq hopens _ ih =>
    generalize htext : c :: x :: rest = text at hothers
    cases hothers with
    | done => exact absurd (List.cons.inj htext).1 hq
    | hidden => exact absurd (List.cons.inj htext).1 hc
    | other _ _ _ hrest =>
      cases htext
      exact ih hrest
    | region hopens' =>
      obtain ⟨rfl, htail⟩ := List.cons.inj htext
      rw [htail, opens_region hopens'] at hopens
      cases hopens
    | dollarRegion =>
      cases htext
      cases hopens
  | @region offset inner rest regions d hopens hclose _ ih =>
    generalize htext : '{' :: (inner ++ '}' :: rest) = text at hothers
    cases hothers with
    | done => exact absurd (List.cons.inj htext).1.symm hbrace
    | hidden => cases (List.cons.inj htext).1
    | other _ _ hopens' =>
      obtain ⟨rfl, htail⟩ := List.cons.inj htext
      rw [← htail, opens_region hopens] at hopens'
      cases hopens'
    | region _ hclose' hrest =>
      obtain ⟨rfl, rfl⟩ := region_unique hclose hclose' (List.cons.inj htext).2
      rw [ih hrest]
    | dollarRegion => cases (List.cons.inj htext).1
  | @dollarRegion offset inner rest regions d hclose _ ih =>
    generalize htext : '$' :: '{' :: (inner ++ '}' :: rest) = text at hothers
    cases hothers with
    | done => exact absurd (List.cons.inj htext).1.symm hdollar
    | hidden => cases (List.cons.inj htext).1
    | other _ _ hopens' =>
      cases htext
      cases hopens'
    | region => cases (List.cons.inj htext).1
    | dollarRegion hclose' hrest =>
      obtain ⟨rfl, rfl⟩ := region_unique hclose hclose' (List.cons.inj (List.cons.inj htext).2).2
      rw [ih hrest]

/-- The end of a region comes before the end of the template. -/
theorem close_code_before {text : List Char} {since' : Nat}
    (hd : (code '{' '}' 0 since').close [template quote since] offset text = .ok d) :
    ∃ inner rest, text = inner ++ '}' :: rest ∧
      (code '{' '}' 0 since').close [] offset (inner ++ '}' :: rest) =
        .ok { offset := offset + byteSize inner + 1, rest } ∧
      (template quote since).close [] (offset + byteSize inner + 1) rest = .ok d := by
  rw [close_cons] at hd
  cases hclose : (code '{' '}' 0 since').close [] offset text with
  | error n =>
    rw [hclose] at hd
    cases hd
  | ok e =>
    rw [hclose] at hd
    obtain ⟨inner, htext, hoffset⟩ := close_last hclose
    obtain ⟨stop, rest⟩ := e
    obtain rfl : stop = offset + byteSize inner + 1 := hoffset
    obtain rfl : text = inner ++ '}' :: rest := htext
    exact ⟨inner, rest, rfl, hclose, hd⟩

/-- Every template that ends has its regions. -/
theorem exists_steps (hq : quote ∉ ['\\', '{', '$'])
    (hd : (template quote since).close [] offset rest = .ok d) :
    ∃ regions, Steps quote offset rest regions d := by
  simp only [List.mem_cons, List.not_mem_nil, or_false, not_or] at hq
  induction hn : rest.length using Nat.strongRecOn generalizing offset rest with
  | ind n ih =>
    subst hn
    cases rest with
    | nil => cases hd
    | cons c rest =>
    by_cases hc : c = '\\'
    · subst hc
      cases rest with
      | nil => cases hd
      | cons hidden rest =>
        rw [close_template_hidden] at hd
        have hlength : rest.length < ('\\' :: hidden :: rest).length := by
          rw [List.length_cons, List.length_cons]
          omega
        obtain ⟨regions, hsteps⟩ := ih _ hlength hd rfl
        exact ⟨regions, .hidden hsteps⟩
    by_cases hend : c = quote
    · subst hend
      rw [close_template_end hq.1] at hd
      obtain rfl := Except.ok.inj hd
      exact ⟨[], .done offset rest⟩
    cases rest with
    | nil =>
      rw [close.eq_def] at hd
      simp [hc, hend] at hd
    | cons x rest =>
    cases hopens : opens c (x :: rest) with
    | false =>
      rw [close_template hc hend hopens] at hd
      obtain ⟨regions, hsteps⟩ := ih _ (by simp) hd rfl
      exact ⟨regions, .other hc hend hopens hsteps⟩
    | true =>
      simp only [opens, List.head?_cons, Bool.or_eq_true, Bool.and_eq_true, beq_iff_eq,
        Option.some_inj] at hopens
      rcases hopens with ⟨rfl, rfl⟩ | ⟨rfl, rfl⟩
      · rw [close.eq_def] at hd
        simp only [beq_false_of_ne hend, Bool.false_eq_true, if_false] at hd
        obtain ⟨inner, after, htext, hclose, hafter⟩ := close_code_before hd
        have hlength := congrArg List.length htext
        simp only [List.length_cons, List.length_append] at hlength
        obtain ⟨regions, hsteps⟩ := ih after.length (by simp; omega) hafter rfl
        rw [htext]
        refine ⟨_, .region ?_ hclose hsteps⟩
        cases inner with
        | nil => cases htext
        | cons y inner => rw [(List.cons.inj htext).1, List.head?_cons]
      · rw [close.eq_def] at hd
        simp only [beq_false_of_ne hend, Bool.false_eq_true, if_false] at hd
        obtain ⟨inner, after, rfl, hclose, hafter⟩ := close_code_before hd
        obtain ⟨regions, hsteps⟩ := ih after.length (by simp; omega) hafter rfl
        exact ⟨_, .dollarRegion hclose hsteps⟩

end

/-! ### Balanced code -/

/-- Text whose braces and quotes pair off, as code or as text within a quote.  Code within
double quotes is part of it as long as no double quote or backslash stands in it. -/
inductive Balanced : (within : Option Char) → List Char → Prop
  | nil (within : Option Char) : Balanced within []
  | plain {c : Char} {rest : List Char} (hc : c ∉ ['{', '}', '\'', '"'])
    (hrest : Balanced none rest) : Balanced none (c :: rest)
  | braces {inner rest : List Char} (hinner : Balanced none inner) (hrest : Balanced none rest) :
    Balanced none ('{' :: (inner ++ '}' :: rest))
  | quoted {q : Char} {body rest : List Char} (hq : q = '\'' ∨ q = '"')
    (hbody : Balanced (some q) body) (hrest : Balanced none rest) :
    Balanced none (q :: (body ++ q :: rest))
  | hidden {q c : Char} {rest : List Char} (hrest : Balanced (some q) rest) :
    Balanced (some q) ('\\' :: c :: rest)
  | char {q c : Char} {rest : List Char} (hc : c ≠ '\\') (hq : c ≠ q)
    (hopens : q = '"' → opens c rest = false) (hrest : Balanced (some q) rest) :
    Balanced (some q) (c :: rest)
  | region {inner rest : List Char} (hopens : inner.head? = some '$')
    (hinner : Balanced none inner) (hquotes : ∀ x ∈ inner, x ≠ '"' ∧ x ≠ '\\')
    (hrest : Balanced (some '"') rest) : Balanced (some '"') ('{' :: (inner ++ '}' :: rest))
  | dollarRegion {inner rest : List Char} (hinner : Balanced none inner)
    (hquotes : ∀ x ∈ inner, x ≠ '"' ∧ x ≠ '\\') (hrest : Balanced (some '"') rest) :
    Balanced (some '"') ('$' :: '{' :: (inner ++ '}' :: rest))

section

variable {around : List Enclosure} {offset since depth : Nat} {c : Char} {text rest : List Char}

theorem close_code (hc : c ∉ ['{', '}', '\'', '"']) :
    (code '{' '}' depth since).close around offset (c :: rest) =
      (code '{' '}' depth since).close around (offset + c.utf8Size) rest := by
  simp only [List.mem_cons, List.not_mem_nil, or_false, not_or] at hc
  obtain ⟨hopen, hclose, hquote, hdouble⟩ := hc
  rw [close.eq_def]
  simp only [beq_false_of_ne hopen, beq_false_of_ne hclose, beq_false_of_ne hquote,
    beq_false_of_ne hdouble, Bool.false_eq_true, if_false]

theorem close_code_open :
    (code '{' '}' depth since).close around offset ('{' :: rest) =
      (code '{' '}' (depth + 1) since).close around (offset + 1) rest := by
  rw [close.eq_def]
  rfl

theorem close_code_close :
    (code '{' '}' (depth + 1) since).close around offset ('}' :: rest) =
      (code '{' '}' depth since).close around (offset + 1) rest := by
  rw [close.eq_def]
  rfl

theorem close_code_end :
    (code '{' '}' 0 since).close around offset ('}' :: rest) =
      resume around { offset := offset + 1, rest } := by
  rw [close.eq_def]
  cases around <;> rfl

theorem close_code_plain :
    (code '{' '}' depth since).close around offset ('\'' :: rest) =
      (Enclosure.plain offset).close (code '{' '}' depth since :: around) (offset + 1) rest := by
  rw [close.eq_def]
  rfl

theorem close_code_template :
    (code '{' '}' depth since).close around offset ('"' :: rest) =
      (template '"' offset).close (code '{' '}' depth since :: around) (offset + 1) rest := by
  rw [close.eq_def]
  rfl

theorem close_template_region (hopens : text.head? = some '$') :
    (template '"' since).close around offset ('{' :: (text ++ rest)) =
      (code '{' '}' 0 offset).close (template '"' since :: around) (offset + 1) (text ++ rest) := by
  obtain ⟨more, rfl⟩ := List.head?_eq_some_iff.1 hopens
  rw [close.eq_def]
  rfl

theorem close_template_dollarRegion :
    (template '"' since).close around offset ('$' :: '{' :: rest) =
      (code '{' '}' 0 (offset + 1)).close (template '"' since :: around) (offset + 2) rest := by
  rw [close.eq_def]
  rfl

end

/-- The scan passes over a text: in code it goes on after it, within a quote it leaves the
quote after it. -/
def Passed : (within : Option Char) → List Char → Prop
  | none, text => ∀ depth since around offset rest,
      (code '{' '}' depth since).close around offset (text ++ rest) =
        (code '{' '}' depth since).close around (offset + byteSize text) rest
  | some q, text =>
      (q = '\'' → ∀ since around offset rest,
        (plain since).close around offset (text ++ '\'' :: rest) =
          resume around { offset := offset + byteSize text + 1, rest }) ∧
      (q = '"' → ∀ since around offset rest,
        (template '"' since).close around offset (text ++ '"' :: rest) =
          resume around { offset := offset + byteSize text + 1, rest })

theorem byteSize_enclosed {opening closing : Char} (ho : opening.utf8Size = 1)
    (hc : closing.utf8Size = 1) (inner after : List Char) :
    byteSize (opening :: (inner ++ closing :: after)) =
      1 + byteSize inner + 1 + byteSize after := by
  rw [byteSize_cons, byteSize_append, byteSize_cons, ho, hc]
  omega

theorem Balanced.passed {within : Option Char} {text : List Char} (ht : Balanced within text) :
    Passed within text := by
  have hassoc : ∀ (x y : Char) (inner after rest : List Char),
      x :: (inner ++ y :: after) ++ rest = x :: (inner ++ y :: (after ++ rest)) := by simp
  induction ht with
  | nil within =>
    cases within with
    | none => exact fun depth since around offset rest => rfl
    | some q =>
      exact ⟨fun hq since around offset rest => close_plain_end,
        fun hq since around offset rest => close_template_end (by decide)⟩
  | plain hc _ ih =>
    intro depth since around offset rest
    rw [List.cons_append, close_code hc, ih, byteSize_cons, Nat.add_assoc]
  | @braces inner after _ _ ihi ihr =>
    intro depth since around offset rest
    rw [hassoc, close_code_open, ihi, close_code_close, ihr, byteSize_enclosed rfl rfl]
    simp only [Nat.add_assoc]
  | @quoted q body after hq _ _ ihb ihr =>
    intro depth since around offset rest
    rw [hassoc]
    rcases hq with rfl | rfl
    · rw [close_code_plain, ihb.1 rfl, resume, ihr, byteSize_enclosed rfl rfl]
      simp only [Nat.add_assoc]
    · rw [close_code_template, ihb.2 rfl, resume, ihr, byteSize_enclosed rfl rfl]
      simp only [Nat.add_assoc]
  | @hidden q c after _ ih =>
    have hsize : byteSize ('\\' :: c :: after) = 1 + c.utf8Size + byteSize after := by
      rw [byteSize_cons, byteSize_cons, Nat.add_assoc]
      rfl
    refine ⟨fun hq since around offset rest => ?_, fun hq since around offset rest => ?_⟩
    · rw [List.cons_append, List.cons_append, close_plain_hidden, ih.1 hq, hsize]
      simp only [Nat.add_assoc]
    · rw [List.cons_append, List.cons_append, close_template_hidden, ih.2 hq, hsize]
      simp only [Nat.add_assoc]
  | @char q c after hc hq hopens _ ih =>
    refine ⟨fun hquote since around offset rest => ?_, fun hquote since around offset rest => ?_⟩
    · rw [List.cons_append, close_plain hc (hquote ▸ hq), ih.1 hquote, byteSize_cons]
      simp only [Nat.add_assoc]
    · have hopens' : opens c (after ++ '"' :: rest) = false := by
        cases after with
        | nil => simp [opens]
        | cons x more => exact hopens hquote
      obtain ⟨x, more, hmore⟩ := List.exists_cons_of_ne_nil
        (List.append_ne_nil_of_right_ne_nil after (List.cons_ne_nil '"' rest))
      rw [hmore] at hopens'
      rw [List.cons_append, hmore, close_template hc (hquote ▸ hq) hopens', ← hmore,
        ih.2 hquote, byteSize_cons]
      simp only [Nat.add_assoc]
  | @region inner after hopens _ _ _ ihi ihr =>
    refine ⟨nofun, fun _ since around offset rest => ?_⟩
    rw [hassoc, close_template_region hopens, ihi, close_code_end, resume, ihr.2 rfl,
      byteSize_enclosed rfl rfl]
    simp only [Nat.add_assoc]
  | @dollarRegion inner after _ _ _ ihi ihr =>
    refine ⟨nofun, fun _ since around offset rest => ?_⟩
    rw [List.cons_append, hassoc, close_template_dollarRegion, ihi, close_code_end, resume,
      ihr.2 rfl, byteSize_cons, byteSize_enclosed rfl rfl]
    exact congrArg (fun stop => resume around { offset := stop, rest })
      (show offset + 2 + byteSize inner + 1 + byteSize after + 1 =
        offset + (1 + (1 + byteSize inner + 1 + byteSize after)) + 1 by omega)

/-- A region of balanced code ends at its brace. -/
theorem Balanced.close_region {inner : List Char} (hinner : Balanced none inner)
    (since offset : Nat) (rest : List Char) :
    (code '{' '}' 0 since).close [] offset (inner ++ '}' :: rest) =
      .ok { offset := offset + byteSize inner + 1, rest } := by
  have hpassed : Passed none inner := hinner.passed
  rw [hpassed, close_code_end]
  rfl

end Enclosure
end PhpCheck
