import PhpCheck.Proofs.Grammar.Running
import PhpCheck.Proofs.Token.Enclosed
import PhpCheck.Proofs.Token.Lossless

/-!
Quoted text is scanned twice, and both times its regions of code are the same.

The scan steps over regions to find where the text ends (`Enclosure.Steps`); the reading of the
token goes over its text again and extracts regions to read the code in them (`Extracts`).  The
scan takes a backslash and the character after it together, and closes code recursively; the
reading takes an escape as long as it is, and splits code off at a brace that it finds by
counting (`splitAtBrace`).  Where neither difference shows, both walks are over the same regions
(`Clear.steps`, `Clear.extracts`), and reading the token is reading its regions
(`scan_and_reading_agree`).  A brace after a backslash is where they part
(`templateString_escapedBrace`).
-/

namespace PhpCheck.Grammar

open Enclosure (opens Balanced Steps byteSize_enclosed)

/-! ### Splitting at a brace -/

section

variable {depth : Nat} {q c : Char} {text rest : List Char}

/-- A text in front of both halves of what a splitting gives. -/
def prepend (text : List Char) : List Char × List Char → List Char × List Char :=
  fun (inner, after) => (text ++ inner, after)

theorem splitAtBrace_code (hc : c ∉ ['{', '}', '\'', '"']) :
    splitAtBrace depth none (c :: rest) = (splitAtBrace depth none rest).map (prepend [c]) := by
  simp only [List.mem_cons, List.not_mem_nil, or_false, not_or] at hc
  obtain ⟨hopen, hclose, hquote, hdouble⟩ := hc
  change (if c == '{' then _ else if c == '}' then _ else if c == '\'' || c == '"' then _ else _)
    = _
  rw [beq_false_of_ne hopen, beq_false_of_ne hclose, beq_false_of_ne hquote,
    beq_false_of_ne hdouble]
  rfl

theorem splitAtBrace_open :
    splitAtBrace depth none ('{' :: rest) =
      (splitAtBrace (depth + 1) none rest).map (prepend ['{']) :=
  rfl

theorem splitAtBrace_close :
    splitAtBrace (depth + 1) none ('}' :: rest) =
      (splitAtBrace depth none rest).map (prepend ['}']) :=
  rfl

theorem splitAtBrace_quote (hq : q = '\'' ∨ q = '"') :
    splitAtBrace depth none (q :: rest) =
      (splitAtBrace depth (some q) rest).map (prepend [q]) := by
  rcases hq with rfl | rfl <;> rfl

theorem splitAtBrace_unquote :
    splitAtBrace depth (some q) (q :: rest) = (splitAtBrace depth none rest).map (prepend [q]) := by
  rw [splitAtBrace.eq_def]
  simp only [beq_self_eq_true, if_true]
  rfl

theorem splitAtBrace_hidden (hq : q ≠ '\\') :
    splitAtBrace depth (some q) ('\\' :: c :: rest) =
      (splitAtBrace depth (some q) rest).map (prepend ['\\', c]) := by
  change (if '\\' == q then _ else _) = _
  rw [beq_false_of_ne hq.symm]
  rfl

theorem splitAtBrace_quoted (hc : c ≠ '\\') (hq : c ≠ q) :
    splitAtBrace depth (some q) (c :: rest) =
      (splitAtBrace depth (some q) rest).map (prepend [c]) := by
  rw [splitAtBrace.eq_def]
  simp only [beq_false_of_ne hc, beq_false_of_ne hq, Bool.false_eq_true, if_false]
  rfl

/-- Without a closing brace there is nothing to split at. -/
theorem splitAtBrace_none {q : Option Char} (htext : '}' ∉ text) :
    splitAtBrace depth q text = none := by
  have htail : ∀ {c : Char} {rest : List Char}, '}' ∉ c :: rest → '}' ∉ rest :=
    fun h hmem => h (List.mem_cons_of_mem _ hmem)
  fun_induction splitAtBrace depth q text with
  | case1 | case3 => rfl
  | case2 _ _ _ _ _ _ ih | case5 _ _ _ _ _ _ _ ih | case6 _ _ _ _ _ ih
  | case9 _ _ _ _ _ _ _ ih | case10 _ _ _ _ _ _ _ ih =>
    exact Option.map_eq_none_iff.2 (ih _ _ (htail htext))
  | case4 _ _ _ _ _ _ _ _ ih => exact Option.map_eq_none_iff.2 (ih (htail (htail htext)))
  | case7 _ _ _ hclose | case8 _ _ _ _ hclose =>
    rw [beq_iff_eq.1 hclose] at htext
    exact absurd List.mem_cons_self htext

theorem map_prepend (more : List Char) (found : Option (List Char × List Char)) :
    (found.map (prepend more)).map (prepend text) = found.map (prepend (text ++ more)) := by
  cases found <;> simp [prepend]

/-- The text of a region is passed over as any other text within quotes. -/
theorem splitAtBrace_inQuotes (htext : ∀ x ∈ text, x ≠ q ∧ x ≠ '\\') :
    splitAtBrace depth (some q) (text ++ rest) =
      (splitAtBrace depth (some q) rest).map (prepend text) := by
  induction text with
  | nil => cases h : splitAtBrace depth (some q) rest <;> simp [h, prepend]
  | cons x text ih =>
    obtain ⟨hx, htext⟩ := List.forall_mem_cons.1 htext
    rw [List.cons_append, splitAtBrace_quoted hx.2 hx.1, ih htext, map_prepend]
    rfl

end

/-- A splitting passes over a text: in code it goes on after it, within a quote it goes on
after the quote that follows. -/
def PassedFlat : (within : Option Char) → List Char → Prop
  | none, text => ∀ depth rest,
      splitAtBrace depth none (text ++ rest) = (splitAtBrace depth none rest).map (prepend text)
  | some q, text => (q = '\'' ∨ q = '"') → ∀ depth rest,
      splitAtBrace depth (some q) (text ++ q :: rest) =
        (splitAtBrace depth none rest).map (prepend (text ++ [q]))

theorem passedFlat {within : Option Char} {text : List Char} (ht : Balanced within text) :
    PassedFlat within text := by
  have hassoc : ∀ (x y : Char) (inner after rest : List Char),
      x :: (inner ++ y :: after) ++ rest = x :: (inner ++ y :: (after ++ rest)) := by simp
  induction ht with
  | nil within =>
    cases within with
    | none =>
      intro depth rest
      cases h : splitAtBrace depth none rest <;> simp [h, prepend]
    | some q => exact fun _ depth rest => splitAtBrace_unquote
  | plain hc _ ih =>
    intro depth rest
    rw [List.cons_append, splitAtBrace_code hc, ih, map_prepend]
    rfl
  | @braces inner after _ _ ihi ihr =>
    intro depth rest
    rw [hassoc, splitAtBrace_open, ihi, splitAtBrace_close, ihr]
    simp only [map_prepend]
    simp
  | @quoted q body after hq _ _ ihb ihr =>
    intro depth rest
    rw [hassoc, splitAtBrace_quote hq, ihb hq, ihr]
    simp only [map_prepend]
    simp
  | @hidden q c after _ ih =>
    intro hq depth rest
    have hne : q ≠ '\\' := by rcases hq with rfl | rfl <;> decide
    rw [List.cons_append, List.cons_append, splitAtBrace_hidden hne, ih hq]
    simp only [map_prepend]
    simp
  | @char q c after hc hcq _ _ ih =>
    intro hq depth rest
    rw [List.cons_append, splitAtBrace_quoted hc hcq, ih hq]
    simp only [map_prepend]
    simp
  | @region inner after _ _ hquotes _ _ ih =>
    intro hq depth rest
    have htext : ∀ x ∈ '{' :: (inner ++ ['}']), x ≠ '"' ∧ x ≠ '\\' :=
      List.forall_mem_cons.2 ⟨by decide, List.forall_mem_append.2
        ⟨hquotes, List.forall_mem_singleton.2 (by decide)⟩⟩
    have hsplit : '{' :: (inner ++ '}' :: after) ++ '"' :: rest =
        '{' :: (inner ++ ['}']) ++ (after ++ '"' :: rest) := by simp
    rw [hsplit, splitAtBrace_inQuotes htext, ih hq]
    simp only [map_prepend]
    simp
  | @dollarRegion inner after _ hquotes _ _ ih =>
    intro hq depth rest
    have htext : ∀ x ∈ '$' :: '{' :: (inner ++ ['}']), x ≠ '"' ∧ x ≠ '\\' :=
      List.forall_mem_cons.2 ⟨by decide, List.forall_mem_cons.2 ⟨by decide,
        List.forall_mem_append.2 ⟨hquotes, List.forall_mem_singleton.2 (by decide)⟩⟩⟩
    have hsplit : '$' :: '{' :: (inner ++ '}' :: after) ++ '"' :: rest =
        '$' :: '{' :: (inner ++ ['}']) ++ (after ++ '"' :: rest) := by simp
    rw [hsplit, splitAtBrace_inQuotes htext, ih hq]
    simp only [map_prepend]
    simp

/-- Balanced code is split off at the brace after it. -/
theorem splitAtBrace_balanced {inner : List Char} (hinner : Balanced none inner)
    (rest : List Char) : splitAtBrace 0 none (inner ++ '}' :: rest) = some (inner, rest) := by
  have hpassed : PassedFlat none inner := passedFlat hinner
  rw [hpassed, splitAtBrace.eq_def]
  simp [prepend]

/-! ### Reading regions -/

/-- Reads a region: the name of a variable as it stands, other code as an expression. -/
def readRegion (below : Below) (src : Source) (r : Region) : Parse Node :=
  if r.dollar then
    let span := src.span (r.start - 2) (r.stop + 1)
    if !r.inner.isEmpty && r.inner.all isNameChar then
      pure (Node.leaf .variableName span (String.ofList r.inner))
    else do
      let name ← below (.code r.start r.stop)
      return Node.ofKind .variableVariable span [name.inField "name"]
  else below (.code r.start r.stop)

/-- The reading of a quoted text from an offset on splits off regions. -/
inductive Extracts (quote : Char) : Nat → List Char → List Region → Prop
  | nil (offset : Nat) : Extracts quote offset [] []
  | last (offset : Nat) (c : Char) : Extracts quote offset [c] []
  | escape {offset : Nat} {c x : Char} {skipped after : List Char} {regions : List Region}
    (hdecode : decodeEscape? (some quote) (c :: (skipped ++ after)) = some (x, after))
    (hafter : Extracts quote (offset + byteSize ('\\' :: c :: skipped)) after regions) :
    Extracts quote offset ('\\' :: c :: (skipped ++ after)) regions
  | backslash {offset : Nat} {c : Char} {rest : List Char} {regions : List Region}
    (hdecode : decodeEscape? (some quote) (c :: rest) = none)
    (hrest : Extracts quote (offset + 1) (c :: rest) regions) :
    Extracts quote offset ('\\' :: c :: rest) regions
  | named {offset : Nat} {c : Char} {skipped after : List Char} {regions : List Region}
    (hname : isNameStart c = true)
    (hskipped : ∀ src start, (simpleInterpolation src start (c :: (skipped ++ after))).2 = after)
    (hafter : Extracts quote (offset + byteSize ('$' :: c :: skipped)) after regions) :
    Extracts quote offset ('$' :: c :: (skipped ++ after)) regions
  | region {offset : Nat} {inner rest : List Char} {regions : List Region}
    (hopens : inner.head? = some '$')
    (hsplit : splitAtBrace 0 none (inner ++ '}' :: rest) = some (inner, rest))
    (hrest : Extracts quote (offset + 1 + byteSize inner + 1) rest regions) :
    Extracts quote offset ('{' :: (inner ++ '}' :: rest))
      ({ dollar := false, start := offset + 1, inner } :: regions)
  | dollarRegion {offset : Nat} {inner rest : List Char} {regions : List Region}
    (hsplit : splitAtBrace 0 none (inner ++ '}' :: rest) = some (inner, rest))
    (hrest : Extracts quote (offset + 2 + byteSize inner + 1) rest regions) :
    Extracts quote offset ('$' :: '{' :: (inner ++ '}' :: rest))
      ({ dollar := true, start := offset + 2, inner } :: regions)
  | other {offset : Nat} {c x : Char} {rest : List Char} {regions : List Region}
    (hc : c ≠ '\\') (hname : c = '$' → isNameStart x = false) (hopens : opens c (x :: rest) = false)
    (hrest : Extracts quote (offset + c.utf8Size) (x :: rest) regions) :
    Extracts quote offset (c :: x :: rest) regions

namespace Pieces

/-- Nothing has been read of a text from an offset on. -/
def start (offset : Nat) (text : List Char) : Pieces :=
  { parts := [], literal := [], since := offset, margin := 0, offset, rest := text }

variable {src : Source} {below : Below} {quote c x : Char} {stop : Nat} {p : Pieces} {s : State}
  {rest after : List Char}

/-- Keeps a character as literal text and goes on at `after`. -/
def keep (p : Pieces) (c : Char) (after : List Char) : Pieces :=
  { p with
    literal := c :: p.literal
    margin := 0
    offset := p.offset + byteSize (p.rest.take (p.rest.length - after.length))
    rest := after }

/-- Adds a part and goes on at `after`. -/
def put (src : Source) (p : Pieces) (node : Node) (after : List Char) : Pieces :=
  let offset := p.offset + byteSize (p.rest.take (p.rest.length - after.length))
  let p := p.flush src p.offset
  { p with parts := node :: p.parts, since := offset, margin := 0, offset, rest := after }

theorem step_last (hm : p.margin = 0) :
    p.step below 0 (some quote) stop c [] src s = .ok (p.keep c []) s := by
  unfold step
  rw [hm]
  rfl

/-- After a backslash an escape is read, if there is one. -/
theorem step_hidden (hm : p.margin = 0) :
    p.step below 0 (some quote) stop '\\' (c :: rest) src s =
      (match decodeEscape? (some quote) (c :: rest) with
        | some (decoded, after) => .ok (p.keep decoded after) s
        | none => .ok (p.keep '\\' (c :: rest)) s) := by
  unfold step
  rw [hm]
  cases decodeEscape? (some quote) (c :: rest) <;> simp [keep] <;> rfl

theorem step_escape (hm : p.margin = 0)
    (hdecode : decodeEscape? (some quote) (c :: rest) = some (x, after)) :
    p.step below 0 (some quote) stop '\\' (c :: rest) src s = .ok (p.keep x after) s := by
  rw [step_hidden hm, hdecode]

theorem step_backslash (hm : p.margin = 0)
    (hdecode : decodeEscape? (some quote) (c :: rest) = none) :
    p.step below 0 (some quote) stop '\\' (c :: rest) src s = .ok (p.keep '\\' (c :: rest)) s := by
  rw [step_hidden hm, hdecode]

theorem step_variable (hm : p.margin = 0) (hname : isNameStart c = true) :
    p.step below 0 (some quote) stop '$' (c :: rest) src s =
      .ok (p.put src (simpleInterpolation src p.offset (c :: rest)).1
        (simpleInterpolation src p.offset (c :: rest)).2) s := by
  unfold step
  rw [hm]
  show (if isNameStart c = true then _ else _ : Parse Pieces) src s = _
  rw [if_pos hname]
  rfl

/-- At a brace before a dollar sign the code up to the brace that closes it is read. -/
theorem step_brace (hm : p.margin = 0) :
    p.step below 0 (some quote) stop '{' ('$' :: rest) src s =
      (match splitAtBrace 0 none ('$' :: rest) with
        | none => throw { fault := .unterminatedString, span := src.span p.offset stop }
        | some (inner, after) =>
          readRegion below src { dollar := false, start := p.offset + 1, inner } >>= fun node =>
            pure (p.put src node after) : Parse Pieces) src s := by
  unfold step
  rw [hm]
  rfl

theorem step_region {inner : List Char} (hm : p.margin = 0) (hopens : inner.head? = some '$')
    (hsplit : splitAtBrace 0 none (inner ++ '}' :: rest) = some (inner, rest)) :
    p.step below 0 (some quote) stop '{' (inner ++ '}' :: rest) src s =
      (readRegion below src { dollar := false, start := p.offset + 1, inner } >>= fun node =>
        pure (p.put src node rest)) src s := by
  obtain ⟨more, rfl⟩ := List.head?_eq_some_iff.1 hopens
  rw [List.cons_append] at hsplit ⊢
  rw [step_brace hm, hsplit]

theorem step_unclosed (hm : p.margin = 0) (hsplit : splitAtBrace 0 none ('$' :: rest) = none) :
    p.step below 0 (some quote) stop '{' ('$' :: rest) src s =
      .error { fault := .unterminatedString, span := src.span p.offset stop } s := by
  rw [step_brace hm, hsplit]
  rfl

/-- At a dollar sign before a brace the code up to the brace that closes it is read. -/
theorem step_dollarBrace (hm : p.margin = 0) :
    p.step below 0 (some quote) stop '$' ('{' :: rest) src s =
      (match splitAtBrace 0 none rest with
        | none => throw { fault := .unterminatedString, span := src.span p.offset stop }
        | some (inner, after) =>
          readRegion below src { dollar := true, start := p.offset + 2, inner } >>= fun node =>
            pure (p.put src node after) : Parse Pieces) src s := by
  unfold step
  rw [hm]
  cases hsplit : splitAtBrace 0 none rest with
  | none =>
    simp only [hsplit]
    rfl
  | some found =>
    obtain ⟨inner, after⟩ := found
    by_cases hname : (!inner.isEmpty && inner.all isNameChar) = true
    · simp only [hsplit, readRegion, hname, if_true]
      rfl
    · simp only [hsplit, readRegion, hname, if_true, Bool.false_eq_true, if_false, bind_assoc,
        pure_bind]
      rfl

theorem step_dollarRegion {inner : List Char} (hm : p.margin = 0)
    (hsplit : splitAtBrace 0 none (inner ++ '}' :: rest) = some (inner, rest)) :
    p.step below 0 (some quote) stop '$' ('{' :: (inner ++ '}' :: rest)) src s =
      (readRegion below src { dollar := true, start := p.offset + 2, inner } >>= fun node =>
        pure (p.put src node rest)) src s := by
  rw [step_dollarBrace hm, hsplit]

theorem step_other (hm : p.margin = 0) (hc : c ≠ '\\') (hname : c = '$' → isNameStart x = false)
    (hopens : opens c (x :: rest) = false) :
    p.step below 0 (some quote) stop c (x :: rest) src s = .ok (p.keep c (x :: rest)) s := by
  simp only [opens, List.head?_cons, Bool.or_eq_false_iff, Option.some_beq_some] at hopens
  have hvariable : (c == '$' && isNameStart x) = false := by
    cases hdollar : c == '$' with
    | false => rfl
    | true => exact hname (beq_iff_eq.1 hdollar)
  unfold step
  rw [hm]
  simp only [beq_false_of_ne hc, hvariable, hopens.1, hopens.2, Bool.false_eq_true, if_false]
  show (if c == '\n' then _ else _ : Parse Pieces) src s = _
  split <;> rfl

theorem offset_after {skipped : List Char} (hrest : p.rest = skipped ++ after) :
    p.offset + byteSize (p.rest.take (p.rest.length - after.length)) =
      p.offset + byteSize skipped := by
  rw [hrest, List.length_append, Nat.add_sub_cancel, List.take_left]

theorem parts_flush (src : Source) (p : Pieces) (stop : Nat) :
    p.parts.reverse.Sublist (p.flush src stop).parts.reverse := by
  rw [flush]
  split
  · exact List.Sublist.refl _
  · exact (List.sublist_cons_self _ _).reverse

theorem parts_put (src : Source) (p : Pieces) (node : Node) (after : List Char) :
    (p.parts.reverse ++ [node]).Sublist (p.put src node after).parts.reverse := by
  show (p.parts.reverse ++ [node]).Sublist (node :: (p.flush src p.offset).parts).reverse
  rw [List.reverse_cons]
  exact (parts_flush src p p.offset).append_right [node]

/-- From `p` on, reading does nothing but read some regions, each of which becomes a part. -/
def Gathers (src : Source) (quote : Char) (stop fuel : Nat) (p : Pieces) (regions : List Region) :
    Prop :=
  ∃ build : List Node → Pieces,
    (∀ nodes : List Node, nodes.length = regions.length →
      (p.parts.reverse ++ nodes).Sublist (build nodes).parts.reverse) ∧
    ∀ below s, run below 0 (some quote) stop fuel p src s =
      (regions.mapM (readRegion below src) >>= fun nodes => pure (build nodes)) src s

variable {fuel : Nat} {regions : List Region}

theorem run_cons (hrest : p.rest = c :: rest) :
    run below 0 (some quote) stop (fuel + 1) p =
      p.step below 0 (some quote) stop c rest >>= run below 0 (some quote) stop fuel := by
  rw [run, hrest]

theorem gathers_nil (hrest : p.rest = []) : Gathers src quote stop fuel p [] := by
  refine ⟨fun _ => p, fun nodes hnodes => ?_, fun below s => ?_⟩
  · simp only [List.length_eq_zero_iff.1 hnodes, List.append_nil, List.Sublist.refl]
  · cases fuel <;>
    · rw [run, hrest]
      rfl

theorem Gathers.of_step {q : Pieces} (hrest : p.rest = c :: rest)
    (hstep : ∀ below s, p.step below 0 (some quote) stop c rest src s = .ok q s)
    (hparts : p.parts.reverse.Sublist q.parts.reverse)
    (hq : Gathers src quote stop fuel q regions) :
    Gathers src quote stop (fuel + 1) p regions := by
  obtain ⟨build, hbuild, hrun⟩ := hq
  refine ⟨build, fun nodes hnodes => (hparts.append_right nodes).trans (hbuild nodes hnodes),
    fun below s => ?_⟩
  rw [run_cons hrest, bind_ok (hstep below s)]
  exact hrun below s

theorem Gathers.of_region {r : Region} (hrest : p.rest = c :: rest)
    (hstep : ∀ below s, p.step below 0 (some quote) stop c rest src s =
      (readRegion below src r >>= fun node => pure (p.put src node after)) src s)
    (hq : ∀ node, Gathers src quote stop fuel (p.put src node after) regions) :
    Gathers src quote stop (fuel + 1) p (r :: regions) := by
  obtain ⟨build, hbuild⟩ := Classical.skolem.1 hq
  refine ⟨fun nodes => nodes.head?.elim p (build · nodes.tail), ?_, fun below s => ?_⟩
  · rintro (_ | ⟨node, nodes⟩) hnodes
    · cases hnodes
    · have hall := (hbuild node).1 nodes (Nat.succ.inj hnodes)
      have hput := (parts_put src p node after).append_right nodes
      rw [List.append_assoc] at hput
      exact hput.trans hall
  · rw [run_cons hrest, bind_congr (hstep below s), List.mapM_cons]
    simp only [bind_assoc, pure_bind]
    exact bind_congr_right fun node s => (hbuild node).2 below s

end Pieces

/-- Where regions are split off, reading does nothing but read them. -/
theorem Extracts.gathers {quote : Char} {offset : Nat} {text : List Char} {regions : List Region}
    (hextracts : Extracts quote offset text regions) (src : Source) (stop : Nat) {fuel : Nat}
    {p : Pieces} (hrest : p.rest = text) (hoffset : p.offset = offset) (hmargin : p.margin = 0)
    (hfuel : text.length ≤ fuel) : p.Gathers src quote stop fuel regions := by
  have hsucc : ∀ {n fuel : Nat}, n + 1 ≤ fuel → ∃ k, fuel = k + 1 ∧ n ≤ k := fun h =>
    ⟨_, (Nat.succ_pred_eq_of_pos (Nat.lt_of_lt_of_le (Nat.succ_pos _) h)).symm, Nat.le_pred_of_lt h⟩
  induction hextracts generalizing fuel p with
  | nil => exact Pieces.gathers_nil hrest
  | last offset c =>
    obtain ⟨k, rfl, -⟩ := hsucc hfuel
    exact .of_step hrest (fun _ _ => Pieces.step_last hmargin) (List.Sublist.refl _)
      (Pieces.gathers_nil rfl)
  | @escape offset c x skipped after regions hdecode _ ih =>
    obtain ⟨k, rfl, hk⟩ := hsucc hfuel
    have hlength : after.length ≤ k := by
      rw [List.length_cons, List.length_append] at hk
      omega
    have hrest' : p.rest = '\\' :: c :: skipped ++ after := hrest
    exact .of_step hrest (fun _ _ => Pieces.step_escape hmargin hdecode) (List.Sublist.refl _)
      (ih rfl (hoffset ▸ Pieces.offset_after hrest') rfl hlength)
  | @backslash offset c rest regions hdecode _ ih =>
    obtain ⟨k, rfl, hk⟩ := hsucc hfuel
    have hrest' : p.rest = ['\\'] ++ (c :: rest) := hrest
    exact .of_step hrest (fun _ _ => Pieces.step_backslash hmargin hdecode) (List.Sublist.refl _)
      (ih rfl (hoffset ▸ Pieces.offset_after hrest') rfl hk)
  | @named offset c skipped after regions hname hskipped _ ih =>
    obtain ⟨k, rfl, hk⟩ := hsucc hfuel
    have hlength : after.length ≤ k := by
      rw [List.length_cons, List.length_append] at hk
      omega
    have hrest' : p.rest = '$' :: c :: skipped ++ after := hrest
    have hstep : ∀ below s, p.step below 0 (some quote) stop '$' (c :: (skipped ++ after)) src s =
        .ok (p.put src (simpleInterpolation src p.offset (c :: (skipped ++ after))).1 after) s := by
      intro below s
      rw [Pieces.step_variable hmargin hname, hskipped]
    exact .of_step hrest hstep
      ((List.sublist_append_left _ _).trans (Pieces.parts_put src p _ after))
      (ih rfl (hoffset ▸ Pieces.offset_after hrest') rfl hlength)
  | @region offset inner rest regions hopens hsplit _ ih =>
    obtain ⟨k, rfl, hk⟩ := hsucc hfuel
    subst hoffset
    have hrest' : p.rest = '{' :: (inner ++ ['}']) ++ rest := by simp [hrest]
    have hoffset := Pieces.offset_after hrest'
    rw [byteSize_cons, byteSize_append, byteSize_cons] at hoffset
    refine .of_region hrest (fun _ _ => Pieces.step_region hmargin hopens hsplit) fun node => ?_
    refine ih rfl (hoffset.trans ?_) rfl ?_
    · show p.offset + (1 + (byteSize inner + (1 + 0))) = _
      omega
    · rw [List.length_append, List.length_cons] at hk
      omega
  | @dollarRegion offset inner rest regions hsplit _ ih =>
    obtain ⟨k, rfl, hk⟩ := hsucc hfuel
    subst hoffset
    have hrest' : p.rest = '$' :: '{' :: (inner ++ ['}']) ++ rest := by simp [hrest]
    have hoffset := Pieces.offset_after hrest'
    rw [byteSize_cons, byteSize_cons, byteSize_append, byteSize_cons] at hoffset
    refine .of_region hrest (fun _ _ => Pieces.step_dollarRegion hmargin hsplit) fun node => ?_
    refine ih rfl (hoffset.trans ?_) rfl ?_
    · show p.offset + (1 + (1 + (byteSize inner + (1 + 0)))) = _
      omega
    · rw [List.length_cons, List.length_append, List.length_cons] at hk
      omega
  | @other offset c x rest regions hc hname hopens _ ih =>
    obtain ⟨k, rfl, hk⟩ := hsucc hfuel
    have hrest' : p.rest = [c] ++ (x :: rest) := hrest
    have hsize : byteSize [c] = c.utf8Size := by rw [byteSize_cons, byteSize_nil, Nat.add_zero]
    have hoffset' : (p.keep c (x :: rest)).offset = offset + c.utf8Size := by
      rw [← hoffset, ← hsize]
      exact Pieces.offset_after hrest'
    exact .of_step hrest (fun _ _ => Pieces.step_other hmargin hc hname hopens)
      (List.Sublist.refl _) (ih rfl hoffset' rfl hk)

/-! ### Where both agree -/

/-- No region begins within a text, and none of its characters ends the text around it. -/
def passive (quote : Char) : (text after : List Char) → Bool
  | [], _ => true
  | '\\' :: _ :: text, after => passive quote text after
  | c :: text, after =>
    c != '\\' && c != quote && !opens c (text ++ after) && passive quote text after

/-- Quoted text of which scan and reading find the same regions: no region begins where an
escape or a variable is read, and none with a brace after a backslash, and the code in the
regions is balanced. -/
inductive Clear (quote : Char) : Nat → List Char → List Region → Prop
  | nil (offset : Nat) : Clear quote offset [] []
  | escape {offset : Nat} {c x : Char} {skipped after : List Char} {regions : List Region}
    (hdecode : decodeEscape? (some quote) (c :: (skipped ++ after)) = some (x, after))
    (hpassive : passive quote skipped after = true)
    (hafter : Clear quote (offset + byteSize ('\\' :: c :: skipped)) after regions) :
    Clear quote offset ('\\' :: c :: (skipped ++ after)) regions
  | backslash {offset : Nat} {c : Char} {rest : List Char} {regions : List Region}
    (hdecode : decodeEscape? (some quote) (c :: rest) = none) (hopens : opens c rest = false)
    (hrest : Clear quote (offset + 1 + c.utf8Size) rest regions) :
    Clear quote offset ('\\' :: c :: rest) regions
  | named {offset : Nat} {c : Char} {skipped after : List Char} {regions : List Region}
    (hname : isNameStart c = true)
    (hskipped : ∀ src start, (simpleInterpolation src start (c :: (skipped ++ after))).2 = after)
    (hpassive : passive quote (c :: skipped) after = true)
    (hafter : Clear quote (offset + byteSize ('$' :: c :: skipped)) after regions) :
    Clear quote offset ('$' :: c :: (skipped ++ after)) regions
  | region {offset : Nat} {inner rest : List Char} {regions : List Region}
    (hopens : inner.head? = some '$') (hinner : Balanced none inner)
    (hrest : Clear quote (offset + 1 + byteSize inner + 1) rest regions) :
    Clear quote offset ('{' :: (inner ++ '}' :: rest))
      ({ dollar := false, start := offset + 1, inner } :: regions)
  | dollarRegion {offset : Nat} {inner rest : List Char} {regions : List Region}
    (hinner : Balanced none inner)
    (hrest : Clear quote (offset + 2 + byteSize inner + 1) rest regions) :
    Clear quote offset ('$' :: '{' :: (inner ++ '}' :: rest))
      ({ dollar := true, start := offset + 2, inner } :: regions)
  | other {offset : Nat} {c : Char} {rest : List Char} {regions : List Region}
    (hc : c ≠ '\\') (hq : c ≠ quote) (hname : c = '$' → rest.head?.any isNameStart = false)
    (hopens : opens c rest = false) (hrest : Clear quote (offset + c.utf8Size) rest regions) :
    Clear quote offset (c :: rest) regions

section

variable {quote c : Char} {offset : Nat} {text after rest : List Char} {regions : List Region}
  {d : Cursor}

theorem opens_append (hq : quote ∉ ['\\', '{', '$']) (hopens : opens c text = false)
    (rest : List Char) : opens c (text ++ quote :: rest) = false := by
  cases text with
  | cons x text => exact hopens
  | nil =>
    simp only [List.mem_cons, List.not_mem_nil, or_false, not_or] at hq
    simp [opens, hq.2.1, hq.2.2]

theorem steps_other (hq : quote ∉ ['\\', '{', '$']) (hc : c ≠ '\\') (hcq : c ≠ quote)
    (hopens : opens c text = false)
    (hsteps : Steps quote (offset + c.utf8Size) (text ++ quote :: rest) regions d) :
    Steps quote offset (c :: (text ++ quote :: rest)) regions d := by
  have hopens' := opens_append hq hopens rest
  obtain ⟨x, more, hmore⟩ := List.exists_cons_of_ne_nil
    (List.append_ne_nil_of_right_ne_nil text (List.cons_ne_nil quote rest))
  rw [hmore] at hopens' hsteps ⊢
  exact .other hc hcq hopens' hsteps

theorem steps_passive (hq : quote ∉ ['\\', '{', '$']) (hpassive : passive quote text after = true)
    (hsteps : Steps quote (offset + byteSize text) (after ++ quote :: rest) regions d) :
    Steps quote offset (text ++ (after ++ quote :: rest)) regions d := by
  fun_induction passive quote text after generalizing offset with
  | case1 => exact hsteps
  | case2 after hidden text ih =>
    rw [byteSize_cons, byteSize_cons, ← Nat.add_assoc, ← Nat.add_assoc] at hsteps
    exact .hidden (ih hpassive hsteps)
  | case3 after c text _ ih =>
    simp only [Bool.and_eq_true, bne_iff_ne, Bool.not_eq_true'] at hpassive
    obtain ⟨⟨⟨hc, hcq⟩, hopens⟩, hpassive⟩ := hpassive
    rw [byteSize_cons, ← Nat.add_assoc] at hsteps
    have hrest := ih hpassive hsteps
    rw [← List.append_assoc] at hrest
    have hall := steps_other hq hc hcq hopens hrest
    rwa [List.append_assoc] at hall

/-- The scan steps over the regions. -/
theorem Clear.steps (hclear : Clear quote offset text regions) (hq : quote ∉ ['\\', '{', '$'])
    {stop : Nat} (hstop : offset + byteSize text + quote.utf8Size = stop) :
    Steps quote offset (text ++ quote :: rest) regions { offset := stop, rest } := by
  have hassoc : ∀ (x : Char) (inner more : List Char),
      inner ++ x :: more ++ quote :: rest = inner ++ x :: (more ++ quote :: rest) := by simp
  induction hclear with
  | nil offset =>
    subst hstop
    exact .done offset rest
  | @escape offset c x skipped after regions _ hpassive _ ih =>
    have hsize : byteSize ('\\' :: c :: skipped) = 1 + c.utf8Size + byteSize skipped := by
      rw [byteSize_cons, byteSize_cons, Nat.add_assoc]
      rfl
    rw [← List.cons_append, ← List.cons_append, byteSize_append, hsize] at hstop
    rw [hsize] at ih
    have hafter := ih (by omega)
    simp only [← Nat.add_assoc] at hafter
    have hall := Steps.hidden (steps_passive hq hpassive hafter)
    rwa [← List.append_assoc] at hall
  | @backslash offset c more regions _ _ _ ih =>
    rw [byteSize_cons, byteSize_cons, show ('\\' : Char).utf8Size = 1 from rfl] at hstop
    exact .hidden (ih (by omega))
  | @named offset c skipped after regions hname _ hpassive _ ih =>
    have hbrace : c ≠ '{' := by
      rintro rfl
      exact absurd hname (by decide)
    have hdollar : opens '$' (c :: skipped ++ after) = false := by simp [opens, hbrace]
    have hquote : '$' ≠ quote := by
      rintro rfl
      exact absurd hq (by decide)
    rw [byteSize_cons] at ih
    rw [← List.cons_append, ← List.cons_append, byteSize_append, byteSize_cons] at hstop
    have hafter := ih (by omega)
    simp only [← Nat.add_assoc] at hafter
    have hpassed := steps_passive hq hpassive hafter
    rw [← List.append_assoc] at hpassed
    exact steps_other hq (by decide) hquote hdollar hpassed
  | @region offset inner more regions hopens hinner _ ih =>
    rw [byteSize_enclosed rfl rfl] at hstop
    rw [List.cons_append, hassoc]
    exact .region hopens (hinner.close_region _ _ _) (ih (by omega))
  | @dollarRegion offset inner more regions hinner _ ih =>
    rw [byteSize_cons, byteSize_enclosed rfl rfl, show ('$' : Char).utf8Size = 1 from rfl] at hstop
    rw [List.cons_append, List.cons_append, hassoc]
    exact .dollarRegion (hinner.close_region _ _ _) (ih (by omega))
  | @other offset c more regions hc hcq _ hopens _ ih =>
    rw [byteSize_cons] at hstop
    exact steps_other hq hc hcq hopens (ih (by omega))

/-- The reading splits off the regions. -/
theorem Clear.extracts (hclear : Clear quote offset text regions) :
    Extracts quote offset text regions := by
  induction hclear with
  | nil offset => exact .nil offset
  | escape hdecode _ _ ih => exact .escape hdecode ih
  | @backslash offset c more regions hdecode hopens _ ih =>
    have hc : c ≠ '\\' := by
      rintro rfl
      cases hdecode
    have hdollar : c ≠ '$' := by
      rintro rfl
      cases hdecode
    refine .backslash hdecode ?_
    cases more with
    | nil =>
      cases ih
      exact .last _ c
    | cons x more => exact .other hc (fun h => absurd h hdollar) hopens ih
  | named hname hskipped _ _ ih => exact .named hname hskipped ih
  | region hopens hinner _ ih => exact .region hopens (splitAtBrace_balanced hinner _) ih
  | dollarRegion hinner _ ih => exact .dollarRegion (splitAtBrace_balanced hinner _) ih
  | @other offset c more regions hc _ hname hopens _ ih =>
    cases more with
    | nil =>
      cases ih
      exact .last offset c
    | cons x more => exact .other hc hname hopens ih

end

/-! ### Tokens -/

section

variable {src : Source} {c : Cursor} {quote : Char} {body rest : List Char} {regions : List Region}

theorem headToken_double : Scanner.headToken src c '"' rest =
    match (Enclosure.template '"' c.offset).close [] (c.offset + 1) (c.rest.drop 1) with
    | .ok last => (.ok (Scanner.token src .templateString c last), last)
    | .error since =>
      (.error { fault := .unterminatedString, span := src.span since src.size },
        Scanner.atEnd src) := rfl

theorem headToken_back : Scanner.headToken src c '\x60' rest =
    match (Enclosure.template '\x60' c.offset).close [] (c.offset + 1) (c.rest.drop 1) with
    | .ok last => (.ok (Scanner.token src .shellCommand c last), last)
    | .error since =>
      (.error { fault := .unterminatedString, span := src.span since src.size },
        Scanner.atEnd src) := rfl

/-- The token of a text that begins with a quote, and ends at the quote that closes it. -/
theorem headToken_template {last : Cursor} (hquote : quote = '"' ∨ quote = '\x60')
    (hc : c.rest = quote :: (body ++ quote :: rest))
    (hclose : (Enclosure.template quote c.offset).close [] (c.offset + 1) (body ++ quote :: rest) =
      .ok last) :
    ∃ kind ∈ [TokenKind.templateString, .shellCommand],
      Scanner.headToken src c quote (body ++ quote :: rest) =
        (.ok (Scanner.token src kind c last), last) := by
  have hdrop : c.rest.drop 1 = body ++ quote :: rest := by rw [hc, List.drop_one, List.tail_cons]
  rw [← hdrop] at hclose
  rcases hquote with rfl | rfl
  · refine ⟨.templateString, List.mem_cons_self, ?_⟩
    rw [headToken_double, hclose]
  · refine ⟨.shellCommand, List.mem_cons_of_mem _ List.mem_cons_self, ?_⟩
    rw [headToken_back, hclose]

/-- The node of quoted text with its parts. -/
def quotedNode (span : Span) (parts : List Node) : Node :=
  if parts.all (·.kind == .stringFragment) then
    Node.leaf .stringLiteral span (String.join (parts.map Node.textD))
  else Node.ofKind .interpolatedString span parts

/-- Reading a token of quoted text gathers the parts of the text between its quotes. -/
theorem templateString_run {kind : TokenKind} {last : Cursor} {tok : Token} {s : State}
    (hquote : quote.utf8Size = 1) (hwithin : c.Within src)
    (hc : c.rest = quote :: (body ++ quote :: rest))
    (hlast : last = { offset := c.offset + 1 + byteSize body + 1, rest })
    (htok : tok = Scanner.token src kind c last) (hs : s.current = some tok) (below : Below) :
    templateString below src s =
      (Pieces.run below 0 (some quote) (c.offset + 1 + byteSize body) body.length
          (Pieces.start (c.offset + 1) body) >>= fun p =>
        pure (quotedNode tok.span (p.flush src (c.offset + 1 + byteSize body)).parts.reverse))
        src s.advance := by
  subst hlast htok
  have hopen : c.Passes [quote] { offset := c.offset + 1, rest := body ++ quote :: rest } :=
    ⟨hc, by rw [byteSize_cons, hquote]; rfl⟩
  have hinner : Cursor.Passes { offset := c.offset + 1, rest := body ++ quote :: rest } body
      { offset := c.offset + 1 + byteSize body, rest := quote :: rest } := ⟨rfl, rfl⟩
  have hend : Cursor.Passes { offset := c.offset + 1 + byteSize body, rest := quote :: rest }
      [quote] { offset := c.offset + 1 + byteSize body + 1, rest } :=
    ⟨rfl, by rw [byteSize_cons, hquote]; rfl⟩
  have hbody : src.slice (c.offset + 1) (c.offset + 1 + byteSize body) = body :=
    ((hwithin.passes hopen).hasAt hinner).slice
  have htext : (String.ofList (c.rest.take (c.rest.length - rest.length))).toList.head? =
      some quote := by
    rw [((hopen.trans hinner).trans hend).take_eq, String.toList_ofList]
    rfl
  have hstop : max (c.offset + 1 + byteSize body + 1 - 1) (c.offset + 1) =
      c.offset + 1 + byteSize body := by omega
  have hadvance : advance src s = .ok s.current s.advance := rfl
  rw [hs] at hadvance
  rw [templateString, bind_ok hadvance]
  show interpolated below _ (c.offset + 1) (max (c.offset + 1 + byteSize body + 1 - 1)
    (c.offset + 1)) 0 (String.ofList (c.rest.take (c.rest.length - rest.length))).toList.head? src
    s.advance = _
  rw [hstop, htext]
  show (Pieces.run below 0 (some quote) (c.offset + 1 + byteSize body)
      (src.slice (c.offset + 1) (c.offset + 1 + byteSize body)).length
      (Pieces.start (c.offset + 1) (src.slice (c.offset + 1) (c.offset + 1 + byteSize body))) >>=
    fun p => _) src s.advance = _
  rw [hbody]
  refine bind_congr_right fun p s => ?_
  rw [quotedNode]
  split <;> rfl

/-- Reading a token of quoted text does nothing but read its regions. -/
theorem templateString_extracts {kind : TokenKind} {last : Cursor} {tok : Token}
    (hquote : quote.utf8Size = 1) (hwithin : c.Within src)
    (hc : c.rest = quote :: (body ++ quote :: rest))
    (hlast : last = { offset := c.offset + 1 + byteSize body + 1, rest })
    (htok : tok = Scanner.token src kind c last)
    (hextracts : Extracts quote (c.offset + 1) body regions) :
    ∃ parts : List Node → List Node,
      (∀ nodes : List Node, nodes.length = regions.length → nodes.Sublist (parts nodes)) ∧
      ∀ below (s : State), s.current = some tok →
        templateString below src s = (regions.mapM (readRegion below src) >>= fun nodes =>
          pure (quotedNode tok.span (parts nodes))) src s.advance := by
  obtain ⟨build, hbuild, hrun⟩ := hextracts.gathers src (c.offset + 1 + byteSize body)
    (p := Pieces.start (c.offset + 1) body) rfl rfl rfl (Nat.le_refl _)
  refine ⟨fun nodes => ((build nodes).flush src (c.offset + 1 + byteSize body)).parts.reverse,
    fun nodes hnodes => (hbuild nodes hnodes).trans (Pieces.parts_flush src _ _),
    fun below s hs => ?_⟩
  rw [templateString_run hquote hwithin hc hlast htok hs, bind_congr (hrun below s.advance)]
  simp only [bind_assoc, pure_bind]

end

/-! ### Code in regions -/

/-- Notes the faults of a reading of its own; its failure leaves an error node. -/
def noteAll : EStateM.Result SyntaxError State Node → Parse Node
  | .ok value after => do
    modify fun s => { s with errors := s.errors ++ after.errors }
    return value
  | .error e after => do
    modify fun s => { s with errors := s.errors ++ after.errors ++ [e] }
    return Node.ofKind .error e.span []

theorem embedded_eq (below : Below) (start stop : Nat) (src : Source) :
    embedded below start stop src =
      noteAll (wholeExpression below (src.truncate stop)
        (State.ofLexemes (tokenizeCode (src.truncate stop) start))) src := by
  funext s
  rfl

/-- Code in quoted text is read without failing: its faults are noted. -/
theorem descend_code (levels depth start stop : Nat) (src : Source) (s : State) :
    ∃ node s', descend (embeddedCode levels) depth (.code start stop) src s = .ok node s' := by
  have hcode : ∃ node s', embeddedCode levels start stop src s = .ok node s' := by
    cases levels with
    | zero => exact ⟨_, _, rfl⟩
    | succ levels =>
      rw [embeddedCode, embedded_eq]
      generalize wholeExpression _ _ _ = r
      cases r <;> exact ⟨_, _, rfl⟩
  cases depth <;> exact hcode

theorem readRegion_ok (levels depth : Nat) (src : Source) (r : Region) (s : State) :
    ∃ node s', readRegion (descend (embeddedCode levels) depth) src r src s = .ok node s' := by
  obtain ⟨node, s', hcode⟩ := descend_code levels depth r.start r.stop src s
  rw [readRegion]
  split
  · split
    · exact ⟨_, _, rfl⟩
    · rw [bind_ok hcode]
      exact ⟨_, _, rfl⟩
  · exact ⟨node, s', hcode⟩

theorem mapM_ok {α β : Type} {src : Source} {f : α → Parse β}
    (hf : ∀ a s, ∃ b s', f a src s = .ok b s') (as : List α) (s : State) :
    ∃ bs s', as.mapM f src s = .ok bs s' ∧ bs.length = as.length := by
  induction as generalizing s with
  | nil => exact ⟨[], s, rfl, rfl⟩
  | cons a as ih =>
    obtain ⟨b, s', hb⟩ := hf a s
    obtain ⟨bs, s'', hbs, hlength⟩ := ih s'
    rw [List.mapM_cons, bind_ok hb, bind_ok hbs]
    exact ⟨b :: bs, s'', rfl, congrArg (· + 1) hlength⟩

/-! ### Agreement -/

/-- Reading the current token reads the code of the regions, one after the other, and the node
of the token has what is read among its parts, in that order. -/
def ReadsRegions (below : Below) (src : Source) (tok : Token) (s : State) (regions : List Region) :
    Prop :=
  ∃ nodes s' parts, regions.mapM (readRegion below src) src s.advance = .ok nodes s' ∧
    nodes.length = regions.length ∧ nodes.Sublist parts ∧
    templateString below src s = .ok (quotedNode tok.span parts) s'

section

variable {src : Source} {c : Cursor} {quote : Char} {body text rest : List Char}
  {regions : List Region}

/-- Clear text in double quotes or back quotes is cut off as one token, and the regions that
the scan steps over are those that the reading of the token extracts; the reading does not
fail. -/
theorem scan_and_reading_agree (hquote : quote = '"' ∨ quote = '\x60') (hwithin : c.Within src)
    (hc : c.rest = quote :: (body ++ quote :: rest))
    (hclear : Clear quote (c.offset + 1) body regions) :
    ∃ tok last, Scanner.headToken src c quote (body ++ quote :: rest) = (.ok tok, last) ∧
      last = { offset := c.offset + 1 + byteSize body + 1, rest } ∧
      (∀ others d, Steps quote (c.offset + 1) (body ++ quote :: rest) others d ↔
        others = regions ∧ d = last) ∧
      ∀ levels depth s, s.current = some tok →
        ReadsRegions (descend (embeddedCode levels) depth) src tok s regions := by
  have hq : quote ∉ ['\\', '{', '$'] := by rcases hquote with rfl | rfl <;> decide
  have hsize : quote.utf8Size = 1 := by rcases hquote with rfl | rfl <;> rfl
  have hsteps : Steps quote (c.offset + 1) (body ++ quote :: rest) regions _ :=
    hclear.steps hq (congrArg (c.offset + 1 + byteSize body + ·) hsize)
  obtain ⟨kind, -, hhead⟩ := headToken_template hquote hc (hsteps.close hq)
  refine ⟨_, _, hhead, rfl, fun others d => ⟨hsteps.unique hq, ?_⟩, fun levels depth s hs => ?_⟩
  · rintro ⟨rfl, rfl⟩
    exact hsteps
  · obtain ⟨parts, hparts, hread⟩ :=
      templateString_extracts hsize hwithin hc rfl rfl hclear.extracts
    obtain ⟨nodes, s', hnodes, hlength⟩ :=
      mapM_ok (readRegion_ok levels depth src) regions s.advance
    refine ⟨nodes, s', parts nodes, hnodes, hlength, hparts nodes hlength, ?_⟩
    rw [hread _ s hs, bind_ok hnodes]
    rfl

/-- An escape, code with a brace in quotes, a variable with an index, and a name in braces. -/
theorem scan_and_reading_agree_mixed :
    let src := Source.ofString "<?php \"\\t\x7b$a['\x7d']\x7d $b[0]$\x7bc\x7d\";"
    let c : Cursor := { offset := 6, rest := src.chars.drop 6 }
    let body := (src.chars.drop 7).take 21
    let regions : List Region :=
      [{ dollar := false, start := 10, inner := "$a['\x7d']".toList },
        { dollar := true, start := 26, inner := ['c'] }]
    c.Within src ∧ c.rest = '"' :: (body ++ '"' :: [';']) ∧ Clear '"' 7 body regions ∧
      ∃ tok last, Scanner.headToken src c '"' (body ++ '"' :: [';']) = (.ok tok, last) ∧
        last = { offset := 29, rest := [';'] } ∧
        (∀ others d, Steps '"' 7 (body ++ '"' :: [';']) others d ↔ others = regions ∧ d = last) ∧
        ∀ levels depth s, s.current = some tok →
          ReadsRegions (descend (embeddedCode levels) depth) src tok s regions := by
  intro src c body regions
  have hwithin : c.Within src := ⟨"<?php ".toList, by decide +kernel, by decide +kernel⟩
  have hc : c.rest = '"' :: (body ++ '"' :: [';']) := by decide +kernel
  have hbody : body = '\\' :: 't' :: ([] ++ '{' :: ("$a['\x7d']".toList ++ '}' :: ' ' ::
      '$' :: 'b' :: (['[', '0', ']'] ++ '$' :: '{' :: (['c'] ++ '}' :: [])))) := by
    decide +kernel
  have hinner : Balanced none "$a['\x7d']".toList := by
    have hquoted : Balanced (some '\'') ['}'] :=
      .char (by decide) (by decide) (fun h => absurd h (by decide)) (.nil _)
    exact .plain (by decide) (.plain (by decide) (.plain (by decide)
      (.quoted (.inl rfl) hquoted (.plain (by decide) (.nil none)))))
  have hclear : Clear '"' 7 body regions := by
    rw [hbody]
    refine .escape rfl rfl (.region rfl hinner (.other (by decide) (by decide) (by decide) rfl
      (.named rfl (fun _ _ => rfl) rfl (.dollarRegion ?_ (.nil _)))))
    exact .plain (by decide) (.nil none)
  exact ⟨hwithin, hc, hclear, scan_and_reading_agree (.inl rfl) hwithin hc hclear⟩

/-- The scan takes a brace after a backslash for a hidden character, the reading takes it for
the beginning of a region when a dollar sign follows: where no brace closes it, the reading of
the token that was cut off fails. -/
theorem templateString_escapedBrace (hquote : quote = '"' ∨ quote = '\x60')
    (hwithin : c.Within src)
    (hc : c.rest = quote :: ('\\' :: '{' :: '$' :: text ++ quote :: rest))
    (hpassive : passive quote ('$' :: text) [] = true) (hclose : '}' ∉ text) :
    ∃ tok last, Scanner.headToken src c quote ('\\' :: '{' :: '$' :: text ++ quote :: rest) =
        (.ok tok, last) ∧
      Steps quote (c.offset + 1) ('\\' :: '{' :: '$' :: text ++ quote :: rest) [] last ∧
      ∀ below s, s.current = some tok → templateString below src s =
        .error { fault := .unterminatedString, span := src.span (c.offset + 2) (last.offset - 1) }
          s.advance := by
  have hq : quote ∉ ['\\', '{', '$'] := by rcases hquote with rfl | rfl <;> decide
  have hsize : quote.utf8Size = 1 := by rcases hquote with rfl | rfl <;> rfl
  have hsteps : Steps quote (c.offset + 1) ('\\' :: '{' :: '$' :: text ++ quote :: rest) []
      { offset := c.offset + 1 + byteSize ('\\' :: '{' :: '$' :: text) + 1, rest } := by
    have hdone : Steps quote _ (quote :: rest) [] _ :=
      .done (c.offset + 1 + 1 + 1 + byteSize ('$' :: text)) rest
    have hall := Steps.hidden (c := '{') (steps_passive hq hpassive hdone)
    rw [hsize] at hall
    rw [byteSize_cons, byteSize_cons, ← Nat.add_assoc, ← Nat.add_assoc]
    exact hall
  obtain ⟨kind, -, hhead⟩ := headToken_template hquote hc (hsteps.close hq)
  refine ⟨_, _, hhead, hsteps, fun below s hs => ?_⟩
  have hdecode : decodeEscape? (some quote) ('{' :: '$' :: text) = none := by
    rcases hquote with rfl | rfl <;> rfl
  rw [templateString_run hsize hwithin hc rfl rfl hs]
  have hsplit : splitAtBrace 0 none ('$' :: text) = none :=
    splitAtBrace_none (List.not_mem_cons_of_ne_of_not_mem (by decide) hclose)
  let first := Pieces.start (c.offset + 1) ('\\' :: '{' :: '$' :: text)
  let second := first.keep '\\' ('{' :: '$' :: text)
  have hfirst : first.rest = '\\' :: '{' :: '$' :: text := rfl
  have hskipped : first.rest = ['\\'] ++ ('{' :: '$' :: text) := rfl
  have hoffset : second.offset = c.offset + 2 := Pieces.offset_after hskipped
  have hsecond : second.rest = '{' :: '$' :: text := rfl
  refine bind_error ?_
  show Pieces.run below 0 (some quote) _ (text.length + 1 + 1 + 1) first src s.advance = _
  rw [Pieces.run_cons hfirst, bind_ok (Pieces.step_backslash rfl hdecode)]
  show Pieces.run below 0 (some quote) _ (text.length + 1 + 1) second src s.advance = _
  rw [Pieces.run_cons hsecond, bind_error (Pieces.step_unclosed rfl hsplit), hoffset]
  rfl

end

end PhpCheck.Grammar
