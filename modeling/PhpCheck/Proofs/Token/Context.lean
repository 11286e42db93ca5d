import PhpCheck.Proofs.Token.Enclosed
import PhpCheck.Proofs.Token.Peeking

/-!
What stands behind a token.

The end of an enclosure is looked for step by step (`Enclosure.close_eq_stepped`), and no step over
a text looks at what follows the text unless the end stands further on.
-/

namespace PhpCheck

/-- What is left in front of `after`, where no less than `after` follows a character. -/
theorem cons_of_append_eq {x : Char} {text after whole : List Char}
    (htext : text ++ after = x :: whole) (hle : after.length ≤ whole.length) :
    ∃ more, text = x :: more ∧ more ++ after = whole := by
  cases text with
  | nil =>
    rw [List.nil_append] at htext
    rw [htext, List.length_cons] at hle
    exact absurd hle (Nat.not_succ_le_self _)
  | cons y more =>
    obtain ⟨rfl, hmore⟩ := List.cons.inj htext
    exact ⟨more, rfl, hmore⟩

namespace Enclosure

/-- An enclosure without the place where it was opened. -/
def unplaced : Enclosure → Enclosure
  | plain _ => plain 0
  | template quote _ => template quote 0
  | code opening closing depth _ => code opening closing depth 0

theorem close_length_lt {top : Enclosure} {around : List Enclosure} {offset : Nat}
    {rest : List Char} {d : Cursor} (hd : top.close around offset rest = .ok d) :
    d.rest.length < rest.length := by
  obtain ⟨x, text, hp⟩ := close_passes hd
  have hrest : rest = x :: text ++ d.rest := hp.rest
  rw [hrest, List.cons_append, List.length_cons, List.length_append]
  omega

/-! ### One step of a scan -/

/-- What a scan does at a character, if it does not fail: which enclosures are open behind it, and
whether the character that follows is passed over as well. -/
def step (around : List Enclosure) (offset : Nat) (c : Char) (next : Option Char) :
    Enclosure → Option (List Enclosure × Bool)
  | plain since =>
    if c == '\\' then next.map fun _ => (plain since :: around, true)
    else if c == '\'' then some (around, false)
    else some (plain since :: around, false)
  | template quote since =>
    if c == '\\' then next.map fun _ => (template quote since :: around, true)
    else if c == quote then some (around, false)
    else next.map fun d =>
      if c == '{' && d == '$' then (code '{' '}' 0 offset :: template quote since :: around, false)
      else if c == '$' && d == '{' then
        (code '{' '}' 0 (offset + c.utf8Size) :: template quote since :: around, true)
      else (template quote since :: around, false)
  | code opening closing depth since =>
    if c == '\'' then some (plain offset :: code opening closing depth since :: around, false)
    else if c == '"' then
      some (template '"' offset :: code opening closing depth since :: around, false)
    else if c == opening then some (code opening closing (depth + 1) since :: around, false)
    else if c == closing then
      match depth with
      | 0 => some (around, false)
      | depth + 1 => some (code opening closing depth since :: around, false)
    else some (code opening closing depth since :: around, false)

/-- Where a scan goes on behind a character. -/
def behind (offset : Nat) (c : Char) (rest : List Char) (skips : Bool) : Cursor :=
  match skips, rest with
  | true, hidden :: rest => ⟨offset + c.utf8Size + hidden.utf8Size, rest⟩
  | _, rest => ⟨offset + c.utf8Size, rest⟩

theorem leave_eq (around : List Enclosure) (offset : Nat) (rest : List Char) :
    (match around with
      | [] => .ok { offset, rest }
      | outer :: others => outer.close others offset rest : Except Nat Cursor) =
    resume around { offset, rest } := by
  cases around <;> rfl

variable {around : List Enclosure} {offset : Nat} {c : Char} {rest : List Char}

/-- A step of a scan, and then the scan of what is open behind it. -/
def stepped (top : Enclosure) (around : List Enclosure) (offset : Nat) (c : Char)
    (rest : List Char) : Except Nat Cursor :=
  match top.step around offset c rest.head? with
  | none => .error top.since
  | some (stack, skips) => resume stack (behind offset c rest skips)

theorem close_plain_cons (since : Nat) : (plain since).close around offset (c :: rest) =
    (plain since).stepped around offset c rest := by
  unfold stepped step
  rw [close.eq_def]
  dsimp only
  split
  · cases rest <;> rfl
  split
  · exact leave_eq _ _ _
  · rfl

theorem close_template_cons (quote : Char) (since : Nat) :
    (template quote since).close around offset (c :: rest) =
      (template quote since).stepped around offset c rest := by
  unfold stepped step
  rw [close.eq_def]
  dsimp only
  split
  · cases rest <;> rfl
  split
  · exact leave_eq _ _ _
  cases rest with
  | nil => rfl
  | cons d more =>
    dsimp only [List.head?_cons, Option.map_some]
    split
    · rfl
    split
    · rename_i ho
      obtain rfl : d = '{' := by simpa using (Bool.and_eq_true_iff.1 ho).2
      rfl
    · rfl

theorem close_code_cons (opening closing : Char) (depth since : Nat) :
    (code opening closing depth since).close around offset (c :: rest) =
      (code opening closing depth since).stepped around offset c rest := by
  unfold stepped step
  rw [close.eq_def]
  dsimp only
  split
  · rfl
  split
  · rfl
  split
  · rfl
  split
  · cases depth with
    | zero => exact leave_eq _ _ _
    | succ depth => rfl
  · rfl

theorem close_eq_stepped (top : Enclosure) :
    top.close around offset (c :: rest) = top.stepped around offset c rest := by
  cases top with
  | plain since => exact close_plain_cons since
  | template quote since => exact close_template_cons quote since
  | code opening closing depth since => exact close_code_cons opening closing depth since

theorem behind_length_le (skips : Bool) :
    (behind offset c rest skips).rest.length ≤ rest.length := by
  cases skips with
  | false => exact Nat.le_refl _
  | true => cases rest <;> simp [behind]

/-- What is open behind a character depends on what was open in front of it, not on where that was
opened. -/
theorem step_unplaced {top u : Enclosure} {around w : List Enclosure}
    (htop : u.unplaced = top.unplaced) (haround : w.map unplaced = around.map unplaced)
    (o offset : Nat) (c : Char) (next : Option Char) :
    (u.step w o c next).map (·.map (List.map unplaced) id) =
      (top.step around offset c next).map (·.map (List.map unplaced) id) := by
  cases top <;> cases u <;> cases htop
  · simp only [step]
    split_ifs <;> cases next <;> simp [haround, unplaced]
  · simp only [step]
    split_ifs <;> cases next <;> simp [haround, unplaced]
    split_ifs <;> simp [haround, unplaced]
  · simp only [step]
    split_ifs <;> (try split) <;> simp [haround, unplaced]

/-- The character that follows matters only if an enclosure is open behind this one. -/
theorem step_leaving {top : Enclosure} {next : Option Char} {skips : Bool}
    (hstep : top.step around offset c next = some ([], skips)) :
    skips = false ∧ ∀ next, top.step around offset c next = some ([], false) := by
  cases top with
  | plain since =>
    simp only [step] at hstep ⊢
    split_ifs at hstep ⊢
    · simp at hstep
    · simpa [and_comm] using hstep
    · simp at hstep
  | template quote since =>
    simp only [step] at hstep ⊢
    split_ifs at hstep ⊢
    · simp at hstep
    · simpa [and_comm] using hstep
    · obtain ⟨d, -, hstep⟩ := Option.map_eq_some_iff.1 hstep
      split_ifs at hstep <;> simp at hstep
  | code opening closing depth since =>
    simp only [step] at hstep ⊢
    split_ifs at hstep ⊢
    · simp at hstep
    · simp at hstep
    · simp at hstep
    · cases depth <;> simp_all
    · simp at hstep

/-- A step over the first character of a text does not look at what follows the text, if the scan
ends no earlier than that. -/
theorem step_before {top : Enclosure} {stack : List Enclosure} {skips : Bool}
    {text after : List Char} {d : Cursor}
    (hstep : top.step around offset c (text ++ after).head? = some (stack, skips))
    (hd : resume stack (behind offset c (text ++ after) skips) = .ok d)
    (hlength : after.length ≤ d.rest.length) :
    ∃ more, more.length ≤ text.length ∧ ∀ after',
      top.step around offset c (text ++ after').head? = some (stack, skips) ∧
      ∀ o, (behind o c (text ++ after') skips).rest = more ++ after' := by
  cases stack with
  | nil =>
    obtain ⟨rfl, hany⟩ := step_leaving hstep
    exact ⟨text, Nat.le_refl _, fun after' => ⟨hany _, fun o => rfl⟩⟩
  | cons inner outer =>
    have hlt := close_length_lt hd
    cases text with
    | nil => exact absurd (Nat.lt_of_lt_of_le hlt (behind_length_le skips)) (Nat.not_lt.2 hlength)
    | cons x text =>
      cases skips with
      | false => exact ⟨x :: text, Nat.le_refl _, fun after' => ⟨hstep, fun o => rfl⟩⟩
      | true => exact ⟨text, Nat.le_succ _, fun after' => ⟨hstep, fun o => rfl⟩⟩

/-- The end of an enclosure is found in the text up to it, wherever that text stands and whatever
follows. -/
theorem close_before {top u : Enclosure} {around w : List Enclosure} {offset o : Nat}
    {text rest after after' : List Char} {d : Cursor} (htop : u.unplaced = top.unplaced)
    (haround : w.map unplaced = around.map unplaced)
    (hd : top.close around offset (text ++ after) = .ok d) (hrest : d.rest = rest ++ after) :
    ∃ e, u.close w o (text ++ after') = .ok e ∧ e.rest = rest ++ after' := by
  have hlength : after.length ≤ d.rest.length := by
    rw [hrest, List.length_append]
    exact Nat.le_add_left _ _
  induction hn : text.length using Nat.strong_induction_on
    generalizing text top u around w offset o with
  | _ n ih =>
  cases text with
  | nil => exact absurd (close_length_lt hd) (Nat.not_lt.2 hlength)
  | cons c text =>
    rw [List.cons_append, close_eq_stepped, stepped] at hd ⊢
    cases hstep : top.step around offset c (text ++ after).head? with
    | none =>
      rw [hstep] at hd
      cases hd
    | some found =>
      obtain ⟨stack, skips⟩ := found
      rw [hstep] at hd
      obtain ⟨more, hle, hmore⟩ := step_before hstep hd hlength
      obtain ⟨hstep', hbehind'⟩ := hmore after'
      have hsame := step_unplaced htop haround o offset c (text ++ after').head?
      rw [hstep'] at hsame
      obtain ⟨⟨stack', skips'⟩, hfound, hsame⟩ := Option.map_eq_some_iff.1 hsame
      obtain ⟨hstack, hskips⟩ := Prod.mk.inj hsame
      obtain rfl : skips' = skips := hskips
      rw [hfound]
      dsimp only at hd ⊢
      cases stack with
      | nil =>
        obtain rfl := List.map_eq_nil_iff.1 hstack
        obtain rfl := Except.ok.inj hd
        rw [(hmore after).2] at hrest
        exact ⟨_, rfl, (hbehind' o).trans (by rw [List.append_cancel_right hrest])⟩
      | cons inner outer =>
        obtain ⟨inner', outer', rfl, hinner, houter⟩ := List.map_eq_cons_iff.1 hstack
        rw [resume] at hd ⊢
        rw [(hmore after).2] at hd
        rw [hbehind']
        exact ih more.length (by rw [← hn, List.length_cons]; omega) hinner houter hd rfl

end Enclosure

/-! ### Characters that no token goes on with -/

/-- A character that no name, no number and no symbol goes on with. -/
def halts (c : Char) : Bool := c == ')' || c == ' ' || c == '\n'

section

variable {g : Char} (hg : halts g = true) (text more : List Char)

theorem dropWhile_halt {p : Char → Bool} (hp : p g = false) :
    (text ++ g :: more).dropWhile p = text.dropWhile p ++ g :: more := by
  induction text with
  | nil => rw [List.nil_append, List.dropWhile_cons_of_neg (by rw [hp]; nofun)]; rfl
  | cons x text ih =>
    rw [List.cons_append, List.dropWhile_cons, List.dropWhile_cons]
    split
    · exact ih
    · rfl

theorem takeWhile_halt {p : Char → Bool} (hp : p g = false) :
    (text ++ g :: more).takeWhile p = text.takeWhile p := by
  induction text with
  | nil => rw [List.nil_append, List.takeWhile_cons_of_neg (by rw [hp]; nofun)]; rfl
  | cons x text ih =>
    rw [List.cons_append, List.takeWhile_cons, List.takeWhile_cons, ih]

/-- What is looked for has to stand in front of a character that it does not hold. -/
theorem prefix_halt {word : List Char} (hword : g ∉ word) :
    word <+: text ++ g :: more ↔ word <+: text := by
  induction text generalizing word with
  | nil =>
    cases word with
    | nil => exact iff_of_true List.nil_prefix List.nil_prefix
    | cons y word =>
      rw [List.nil_append, List.cons_prefix_cons, List.prefix_nil]
      exact iff_of_false (fun h => hword (h.1 ▸ List.mem_cons_self)) nofun
  | cons x text ih =>
    cases word with
    | nil => exact iff_of_true List.nil_prefix List.nil_prefix
    | cons y word =>
      rw [List.cons_append, List.cons_prefix_cons, List.cons_prefix_cons,
        ih fun h => hword (List.mem_cons_of_mem _ h)]

include hg

theorem halts_cases : g = ')' ∨ g = ' ' ∨ g = '\n' := by
  simpa only [halts, Bool.or_eq_true, beq_iff_eq, or_assoc] using hg

theorem isNameChar_halt : isNameChar g = false := by
  rcases halts_cases hg with rfl | rfl | rfl <;> rfl

theorem isDigit_halt : g.isDigit = false := by
  rcases halts_cases hg with rfl | rfl | rfl <;> rfl

end

namespace Number

/-- A sign in front of the digits of an exponent is passed over. -/
def passSign : List Char → List Char
  | s :: more => if s == '+' || s == '-' then more else s :: more
  | [] => []

/-- The digits of an exponent are passed over; where there are none, nothing of `whole` is. -/
def passDigits (whole : List Char) : List Char → List Char
  | d :: more => if d.isDigit then more.dropWhile Char.isDigit else whole
  | [] => whole

theorem exponent_cons (e : Char) (rest : List Char) : exponent (e :: rest) =
    if e == 'e' || e == 'E' then passDigits (e :: rest) (passSign rest) else e :: rest := by
  cases rest <;> rfl

section

variable {g : Char} (hg : halts g = true) (text more : List Char)

include hg

theorem groups_halt {digit : Char → Bool} (hd : digit g = false) (hd' : digit '_' = false) :
    groups digit (text ++ g :: more) = groups digit text ++ g :: more := by
  have hstop : groups digit (g :: more) = g :: more := by
    rcases halts_cases hg with rfl | rfl | rfl <;> rw [groups, if_neg (by rw [hd]; nofun)] <;> nofun
  fun_induction groups digit text with
  | case1 x rest hx ih => rw [List.cons_append, List.cons_append, groups, if_pos hx, ih]
  | case2 x rest hx => rw [List.cons_append, List.cons_append, groups, if_neg hx]
  | case3 x rest hne hx ih =>
    have hx' : x ≠ '_' := fun h => by
      rw [h, hd'] at hx
      cases hx
    rw [List.cons_append, groups, if_pos hx, ih]
    exact fun _ _ h => absurd h hx'
  | case4 x rest hne hx =>
    by_cases hx' : x = '_'
    · subst hx'
      cases rest with
      | nil => rw [List.cons_append, List.nil_append, groups, if_neg (by rw [hd]; nofun)]
      | cons y rest => exact absurd rfl (hne y rest rfl)
    · rw [List.cons_append, groups, if_neg hx]
      exact fun _ _ h => absurd h hx'
  | case5 => exact hstop

theorem run?_halt {digit : Char → Bool} (hd : digit g = false) (hd' : digit '_' = false) :
    run? digit (text ++ g :: more) = (run? digit text).map (· ++ g :: more) := by
  cases text with
  | nil => simp [run?, hd]
  | cons x text =>
    rw [List.cons_append, run?, run?]
    split
    · rw [groups_halt hg text more hd hd']
      rfl
    · rfl

theorem passSign_halt : passSign (text ++ g :: more) = passSign text ++ g :: more := by
  cases text with
  | nil => rcases halts_cases hg with rfl | rfl | rfl <;> rfl
  | cons s rest =>
    rw [List.cons_append, passSign, passSign]
    split <;> rfl

theorem passDigits_halt (whole digits : List Char) :
    passDigits (whole ++ g :: more) (digits ++ g :: more) = passDigits whole digits ++
      g :: more := by
  cases digits with
  | nil => exact if_neg (by rw [isDigit_halt hg]; exact Bool.false_ne_true)
  | cons d after =>
    rw [List.cons_append, passDigits, passDigits]
    split
    · exact dropWhile_halt after more (isDigit_halt hg)
    · rfl

theorem exponent_halt : exponent (text ++ g :: more) = exponent text ++ g :: more := by
  cases text with
  | nil => rcases halts_cases hg with rfl | rfl | rfl <;> rfl
  | cons e rest =>
    rw [List.cons_append, exponent_cons, exponent_cons]
    split
    · rw [passSign_halt hg]
      exact passDigits_halt hg more (e :: rest) (passSign rest)
    · rfl

theorem fraction_halt : fraction (text ++ g :: more) = fraction text ++ g :: more := by
  rw [fraction, dropWhile_halt text more (isDigit_halt hg),
    groups_halt hg _ more (isDigit_halt hg) rfl,
    exponent_halt hg]
  rfl

theorem based?_halt : based? (text ++ g :: more) =
    (based? text).map fun found => (found.1, found.2 ++ g :: more) := by
  have hrun : ∀ {digit : Char → Bool} {kind : TokenKind} (text : List Char), digit g = false →
      digit '_' = false → (run? digit (text ++ g :: more)).map (kind, ·) =
        ((run? digit text).map (kind, ·)).map fun found => (found.1, found.2 ++ g :: more) := by
    intro digit kind text hd hd'
    rw [run?_halt hg text more hd hd', Option.map_map, Option.map_map]
    rfl
  have hnone : ∀ text : List Char, text.head? ≠ some '0' → based? text = none := by
    intro text htext
    unfold based?
    split
    · exact absurd rfl htext
    · rfl
  match text with
  | [] => rcases halts_cases hg with rfl | rfl | rfl <;> rfl
  | [x] =>
    have hone : based? [x] = none := by
      unfold based?
      split
      · rename_i heq
        cases (List.cons.inj heq).2
      · rfl
    by_cases hx : x = '0'
    · subst hx
      rcases halts_cases hg with rfl | rfl | rfl <;> rfl
    · rw [hone]
      exact hnone _ fun h => hx (Option.some.inj h)
  | x :: mark :: rest =>
    by_cases hx : x = '0'
    · subst hx
      have hd : isHexDigit g = false ∧ isBinaryDigit g = false ∧ isOctalDigit g = false := by
        rcases halts_cases hg with rfl | rfl | rfl <;> exact ⟨rfl, rfl, rfl⟩
      simp only [List.cons_append, based?]
      split
      · exact hrun rest hd.1 rfl
      split
      · exact hrun rest hd.2.1 rfl
      split
      · exact hrun rest hd.2.2 rfl
      · rfl
    · rw [hnone (x :: mark :: rest) fun h => hx (Option.some.inj h)]
      exact hnone _ fun h => hx (Option.some.inj h)

/-- The literal in base ten whose first digits end where `rest` begins. -/
def fromDigits (rest : List Char) : TokenKind × List Char :=
  match rest with
  | '.' :: rest => (.floatLiteral, fraction rest)
  | '_' :: rest => (.decimalLiteral, rest)
  | rest =>
    if (exponent rest).length < rest.length then (.floatLiteral, exponent rest)
    else (.decimalLiteral, rest)

omit hg in
theorem scan?_digits (hbased : based? text = none) (hdot : ∀ rest, text ≠ '.' :: rest) :
    scan? text = (run? Char.isDigit text).map fromDigits := by
  rw [scan?.eq_def, hbased]
  dsimp only
  split
  · exact absurd rfl (hdot _)
  split
  all_goals rename_i hrun; rw [hrun]
  · rfl
  · rfl
  · rfl
  · rename_i hpoint hunder
    rw [Option.map_some, fromDigits]
    · split <;> rfl
    · exact fun _ h => hpoint _ h
    · exact fun _ h => hunder _ h

theorem fromDigits_halt : fromDigits (text ++ g :: more) =
    ((fromDigits text).1, (fromDigits text).2 ++ g :: more) := by
  have hplain : ∀ {text : List Char}, (∀ rest, text ≠ '.' :: rest) → (∀ rest, text ≠ '_' :: rest) →
      fromDigits text = if (exponent text).length < text.length then (.floatLiteral, exponent text)
        else (.decimalLiteral, text) := fun hpoint hunder => by
    rw [fromDigits]
    · exact fun _ h => hpoint _ h
    · exact fun _ h => hunder _ h
  by_cases hpoint : ∃ rest, text = '.' :: rest
  · obtain ⟨rest, rfl⟩ := hpoint
    exact congrArg (fun after => (TokenKind.floatLiteral, after)) (fraction_halt hg rest more)
  by_cases hunder : ∃ rest, text = '_' :: rest
  · obtain ⟨rest, rfl⟩ := hunder
    rfl
  have hhead : ∀ {c rest}, halts c = false → text ++ g :: more = c :: rest →
    ∃ rest, text = c :: rest := by
    intro c rest hc heq
    cases text with
    | nil =>
      obtain ⟨rfl, -⟩ := List.cons.inj heq
      rw [hg] at hc
      cases hc
    | cons x text => exact ⟨text, by rw [(List.cons.inj heq).1]⟩
  rw [hplain (fun rest h => hpoint ⟨rest, h⟩) fun rest h => hunder ⟨rest, h⟩,
    hplain (fun rest h => hpoint (hhead rfl h)) fun rest h => hunder (hhead rfl h)]
  simp only [exponent_halt hg, List.length_append, Nat.add_lt_add_iff_right]
  split <;> rfl

theorem scan?_halt : scan? (text ++ g :: more) =
    (scan? text).map fun found => (found.1, found.2 ++ g :: more) := by
  have hd := isDigit_halt hg
  have hbased' := based?_halt hg text more
  cases hbased : based? text with
  | some found =>
    rw [hbased] at hbased'
    rw [scan?.eq_def, scan?.eq_def, hbased, hbased']
    rfl
  | none =>
    rw [hbased] at hbased'
    by_cases hdot : ∃ rest, text = '.' :: rest
    · obtain ⟨rest, rfl⟩ := hdot
      rw [scan?.eq_def, scan?.eq_def, hbased, hbased']
      simp only [List.cons_append, Option.map_none, run?_halt hg rest more hd rfl, Option.map_map]
      refine Option.map_congr fun r _ => ?_
      exact congrArg _ (exponent_halt hg r more)
    have hdot' : ∀ rest, text ++ g :: more ≠ '.' :: rest := by
      intro rest heq
      cases text with
      | nil => rcases halts_cases hg with rfl | rfl | rfl <;> cases (List.cons.inj heq).1
      | cons x text => exact hdot ⟨text, by rw [(List.cons.inj heq).1]⟩
    rw [scan?_digits _ hbased fun rest h => hdot ⟨rest, h⟩, scan?_digits _ hbased' hdot',
      run?_halt hg text more hd rfl, Option.map_map, Option.map_map]
    exact Option.map_congr fun rest _ => fromDigits_halt hg rest more

end

end Number

/-! ### Symbols, comments and heredocs -/

/-- No symbol goes on with such a character. -/
theorem symbols_halt : (symbols.all fun entry => entry.1.toList.tail.all (!halts ·)) = true := by
  decide +kernel

section

variable {g : Char} (hg : halts g = true) {text rest more more' : List Char}

include hg

theorem symbol?_halt (x : Char) (text more : List Char) : symbol? (x :: (text ++ g :: more)) =
    (symbol? (x :: text)).map fun found => (found.1, found.2 ++ g :: more) := by
  have hprefix : ∀ entry ∈ symbols, entry.1.toList.isPrefixOf (x :: (text ++ g :: more)) =
      entry.1.toList.isPrefixOf (x :: text) := by
    intro entry hentry
    have hhalt := List.all_eq_true.1 (List.all_eq_true.1 symbols_halt entry hentry)
    rw [Bool.eq_iff_iff, List.isPrefixOf_iff_prefix, List.isPrefixOf_iff_prefix]
    cases hword : entry.1.toList with
    | nil => exact iff_of_true List.nil_prefix List.nil_prefix
    | cons y word =>
      rw [hword] at hhalt
      rw [List.cons_prefix_cons, List.cons_prefix_cons, prefix_halt]
      intro hmem
      have hno := hhalt g hmem
      rw [hg] at hno
      cases hno
  have hfind : symbols.find? (fun entry => entry.1.toList.isPrefixOf (x :: (text ++ g :: more))) =
      symbols.find? fun entry => entry.1.toList.isPrefixOf (x :: text) :=
    List.find?_congr hprefix
  rw [symbol?, symbol?, hfind, Option.map_map]
  refine Option.map_congr fun entry hentry => ?_
  have hfound : entry.1.toList.isPrefixOf (x :: text) = true := by
    simpa using List.find?_some hentry
  have hle := (List.isPrefixOf_iff_prefix.1 hfound).length_le
  have hdrop : (x :: (text ++ g :: more)).drop entry.1.toList.length =
      (x :: text).drop entry.1.toList.length ++ g :: more := List.drop_append_of_le_length hle
  exact congrArg (Prod.mk entry.2) hdrop

theorem lineCommentEnd_halt (hrest : lineCommentEnd (text ++ g :: more) = rest ++ g :: more) :
    lineCommentEnd (text ++ g :: more') = rest ++ g :: more' := by
  induction text with
  | nil =>
    by_cases hline : g = '\n'
    · subst hline
      obtain rfl : rest = [] := List.append_left_eq_self.1 hrest.symm
      rfl
    · have hle := (lineCommentEnd_suffix more).length_le
      have hlength := congrArg List.length hrest
      have hpass : lineCommentEnd ([] ++ g :: more) = lineCommentEnd more := by
        rcases halts_cases hg with rfl | rfl | rfl
        · rfl
        · rfl
        · exact absurd rfl hline
      rw [hpass, List.length_append, List.length_cons] at hlength
      omega
  | cons x text ih =>
    by_cases hclose : x = '?' ∧ ∃ others, text = '>' :: others
    · obtain ⟨rfl, others, rfl⟩ := hclose
      obtain rfl : '?' :: '>' :: others = rest := List.append_cancel_right hrest
      rfl
    have hne : ∀ (more others : List Char), x :: (text ++ g :: more) ≠ '?' :: '>' :: others := by
      rintro more others heq
      obtain ⟨rfl, htext⟩ := List.cons.inj heq
      cases text with
      | nil =>
        rw [(List.cons.inj htext).1] at hg
        cases hg
      | cons y text => exact hclose ⟨rfl, text, by rw [(List.cons.inj htext).1]⟩
    have hpass : ∀ more, lineCommentEnd (x :: (text ++ g :: more)) =
        if x == '\n' then x :: (text ++ g :: more) else lineCommentEnd (text ++ g :: more) := by
      intro more
      rw [lineCommentEnd.eq_3 _ _ fun others hx htext => hne more others (by rw [hx, htext])]
    rw [List.cons_append, hpass] at hrest ⊢
    split at hrest
    · rename_i hline
      obtain rfl : x :: text = rest := List.append_cancel_right hrest
      rw [if_pos hline]
      rfl
    · rename_i hline
      rw [if_neg hline]
      exact ih hrest

omit hg in
theorem blockCommentEnd?_length_lt (hrest : blockCommentEnd? text = some rest) :
    rest.length < text.length := by
  fun_induction blockCommentEnd? text with
  | case1 => cases hrest
  | case2 others =>
    obtain rfl := Option.some.inj hrest
    exact Nat.lt_add_of_pos_right (Nat.zero_lt_two)
  | case3 x others _ ih => exact Nat.lt_succ_of_lt (ih hrest)

omit hg in
theorem blockCommentEnd?_before {after after' : List Char}
    (hrest : blockCommentEnd? (text ++ after) = some (rest ++ after)) :
    blockCommentEnd? (text ++ after') = some (rest ++ after') := by
  generalize hwhole : text ++ after = whole at hrest
  have hlt : ∀ {whole}, blockCommentEnd? whole = some (rest ++ after) →
    after.length < whole.length :=
    fun h => Nat.lt_of_le_of_lt (List.length_append ▸ Nat.le_add_left _ _)
      (blockCommentEnd?_length_lt h)
  fun_induction blockCommentEnd? whole generalizing text with
  | case1 => cases hrest
  | case2 others =>
    obtain rfl := Option.some.inj hrest
    obtain ⟨more, rfl, hmore⟩ := cons_of_append_eq hwhole (by simp; omega)
    obtain ⟨more', rfl, hmore'⟩ := cons_of_append_eq hmore (by simp)
    obtain rfl := List.append_cancel_right hmore'
    rfl
  | case3 x others hne ih =>
    obtain ⟨more, rfl, rfl⟩ := cons_of_append_eq hwhole (Nat.le_of_lt (hlt hrest))
    rw [List.cons_append, blockCommentEnd?.eq_3 _ _ ?_]
    · exact ih rfl hrest
    · rintro following rfl hslash
      cases more with
      | nil => exact absurd (hlt hrest) (Nat.lt_irrefl _)
      | cons y more => exact hne (more ++ after) rfl (by rw [(List.cons.inj hslash).1]; rfl)

end

/-- A line begins with the label of a heredoc, and no further character of a name. -/
def labelled (label line : List Char) : Bool :=
  label.isPrefixOf line && !(line.drop label.length).head?.any isNameChar

theorem heredocEnd?_eq (label text : List Char) (lineStart : Bool) :
    heredocEnd? label lineStart text =
    if lineStart && labelled label (text.dropWhile isIndent) then
      some ((text.dropWhile isIndent).drop label.length)
    else match text with
      | [] => none
      | c :: rest => heredocEnd? label (c == '\n') rest := by
  rw [labelled, ← Bool.and_assoc]
  exact heredocEnd?.eq_def label lineStart text

theorem drop_labelled {label line : List Char} (hline : labelled label line = true)
    (more : List Char) :
    (line ++ more).drop label.length = line.drop label.length ++ more :=
  List.drop_append_of_le_length
    (List.isPrefixOf_iff_prefix.1 (Bool.and_eq_true_iff.1 hline).1).length_le

section

variable {g : Char} (hg : halts g = true) (hindent : isIndent g = false) {label : List Char}
  (hlabel : ∀ c ∈ label, isNameChar c = true)

include hg hlabel

/-- Whether the label stands there is seen in front of such a character. -/
theorem labelled_halt (line more : List Char) :
    labelled label (line ++ g :: more) = labelled label line := by
  have hmem : g ∉ label := fun h => by
    have hname := hlabel g h
    rw [isNameChar_halt hg] at hname
    cases hname
  have hprefix : label.isPrefixOf (line ++ g :: more) = label.isPrefixOf line := by
    rw [Bool.eq_iff_iff, List.isPrefixOf_iff_prefix, List.isPrefixOf_iff_prefix,
      prefix_halt _ _ hmem]
  rw [labelled, labelled, hprefix]
  cases hp : label.isPrefixOf line with
  | false => rfl
  | true =>
    rw [List.drop_append_of_le_length (List.isPrefixOf_iff_prefix.1 hp).length_le]
    cases line.drop label.length with
    | nil => simp [isNameChar_halt hg]
    | cons => rfl

include hindent

theorem heredocEnd?_halt {text rest more more' : List Char} {lineStart : Bool}
    (hrest : heredocEnd? label lineStart (text ++ g :: more) = some (rest ++ g :: more)) :
    heredocEnd? label lineStart (text ++ g :: more') = some (rest ++ g :: more') := by
  induction text generalizing lineStart with
  | nil =>
    rw [heredocEnd?_eq, dropWhile_halt _ _ hindent, labelled_halt hg hlabel] at hrest ⊢
    split at hrest
    · rename_i hfound
      rw [drop_labelled (Bool.and_eq_true_iff.1 hfound).2] at hrest ⊢
      rw [if_pos hfound, ← List.append_cancel_right (Option.some.inj hrest)]
    · have hle := (heredocEnd?_suffix hrest).length_le
      rw [List.length_append, List.length_cons] at hle
      omega
  | cons c text ih =>
    rw [heredocEnd?_eq, dropWhile_halt _ _ hindent, labelled_halt hg hlabel] at hrest ⊢
    split at hrest
    · rename_i hfound
      rw [drop_labelled (Bool.and_eq_true_iff.1 hfound).2] at hrest ⊢
      rw [if_pos hfound, ← List.append_cancel_right (Option.some.inj hrest)]
    · rename_i hfound
      rw [if_neg hfound]
      exact ih hrest

end

end PhpCheck
