import PhpCheck.Proofs.Grammar.Interpolation
import PhpCheck.Proofs.Grammar.Reading.Nodes

/-!
Numbers and quoted text, read from the tokens of a text.

The offsets within quoted text are not those of tokens: they are counted along the text of the
token.  A reading of quoted text stands in the source text as long as what is left of it stands
there up to the same end (`Pieces.Stands`), and each step takes some characters from its front.
-/

namespace PhpCheck.Grammar

/-! ### What is left of a text -/

theorem forall_mem_ite {α : Type} {P : α → Prop} {p : Prop} [Decidable p] {a b : Option α}
    (ha : p → ∀ x ∈ a, P x) (hb : ¬p → ∀ x ∈ b, P x) : ∀ x ∈ (if p then a else b), P x := by
  split
  · exact ha ‹_›
  · exact hb ‹_›

/-- An escape takes some characters from the front of a text. -/
theorem suffix_of_decodeEscape? (quote : Option Char) (text : List Char) :
    ∀ found ∈ decodeEscape? quote text, found.2 <:+ text := by
  cases text with
  | nil => exact fun _ h => absurd h (Option.not_mem_none _)
  | cons x rest =>
    have hsome : ∀ {c : Char} {after : List Char}, after <:+ x :: rest →
        ∀ found ∈ some (c, after), found.2 <:+ x :: rest := by
      intro c after hafter found hfound
      obtain rfl := Option.some.inj hfound
      exact hafter
    have hrest : rest <:+ x :: rest := List.suffix_cons x rest
    have hnone : ∀ found ∈ (none : Option (Char × List Char)), found.2 <:+ x :: rest :=
      fun _ h => absurd h (Option.not_mem_none _)
    unfold decodeEscape?
    refine forall_mem_ite (fun _ => hsome hrest) fun _ => ?_
    refine forall_mem_ite (fun _ => hsome hrest) fun _ => ?_
    refine forall_mem_ite (fun _ => hsome hrest) fun _ => ?_
    refine forall_mem_ite (fun _ => hsome hrest) fun _ => ?_
    refine forall_mem_ite (fun _ => hsome hrest) fun _ => ?_
    refine forall_mem_ite (fun _ => hsome hrest) fun _ => ?_
    refine forall_mem_ite (fun _ => hsome hrest) fun _ => ?_
    refine forall_mem_ite (fun _ => hsome hrest) fun _ => ?_
    refine forall_mem_ite (fun _ => hsome hrest) fun _ => ?_
    refine forall_mem_ite (fun _ => hsome (List.drop_suffix _ _)) fun _ => ?_
    refine forall_mem_ite (fun _ => forall_mem_ite (fun _ => hnone) fun _ => ?_) fun _ => ?_
    · exact hsome ((List.drop_suffix _ _).trans hrest)
    refine forall_mem_ite (fun _ => forall_mem_ite (fun _ => hnone) fun _ => ?_) fun _ => hnone
    exact hsome (((List.drop_suffix _ _).trans (List.drop_suffix _ _)).trans
      ((List.drop_suffix _ _).trans hrest))

/-- A text is split at a closing brace. -/
theorem eq_of_splitAtBrace (depth : Nat) (quote : Option Char) (text : List Char) :
    ∀ found ∈ splitAtBrace depth quote text, text = found.1 ++ '}' :: found.2 := by
  have hstep : ∀ (more : List Char) {rest : List Char} {r : Option (List Char × List Char)},
      (∀ found ∈ r, rest = found.1 ++ '}' :: found.2) →
        ∀ found ∈ r.map (prepend more), more ++ rest = found.1 ++ '}' :: found.2 := by
    intro more rest r hr found hfound
    obtain ⟨found', hfound', rfl⟩ := Option.map_eq_some_iff.1 hfound
    rw [hr found' hfound', prepend, List.append_assoc]
  fun_induction splitAtBrace depth quote text with
  | case1 | case3 => exact fun found h => absurd h (Option.not_mem_none found)
  | case2 _ c rest _ q _ ih => exact hstep [c] (ih _ _)
  | case4 _ c q _ _ hidden rest _ ih => exact hstep [c, hidden] ih
  | case5 _ c rest _ q _ _ ih => exact hstep [c] (ih _ _)
  | case6 _ c rest _ _ ih => exact hstep [c] (ih _ _)
  | case7 c rest _ hclose _ =>
    intro found hfound
    obtain rfl := Option.some.inj hfound
    rw [beq_iff_eq.1 hclose]
    rfl
  | case8 c rest _ _ _ _ ih => exact hstep [c] (ih _ _)
  | case9 _ c rest _ _ _ _ ih => exact hstep [c] (ih _ _)
  | case10 _ c rest _ _ _ _ ih => exact hstep [c] (ih _ _)

theorem takeWhile_append_drop (p : Char → Bool) (text : List Char) :
    text.takeWhile p ++ text.drop (text.takeWhile p).length = text :=
  List.prefix_iff_eq_append.1 (List.takeWhile_prefix p)

/-- What follows the text before a character begins with the character, if there is any. -/
theorem drop_takeWhile_ne {x : Char} {text : List Char}
    (hne : text.drop (text.takeWhile (· != x)).length ≠ []) :
    ∃ more, text.drop (text.takeWhile (· != x)).length = x :: more := by
  have hdrop : text.drop (text.takeWhile (· != x)).length = text.dropWhile (· != x) :=
    List.append_cancel_left ((takeWhile_append_drop _ text).trans
      List.takeWhile_append_dropWhile.symm)
  rw [hdrop] at hne ⊢
  have hhead := List.head_dropWhile_not (· != x) hne
  refine ⟨(text.dropWhile (· != x)).tail, ?_⟩
  rw [← List.cons_head_tail hne]
  simp only [bne_eq_false_iff_eq] at hhead
  rw [hhead, List.tail_cons]

/-! ### Variables in quoted text -/

section

variable {G : Ground} {start a b : Nat} {text front back : List Char}

theorem fits_between (ha : Result.Fits G a) (hb : Result.Fits G b) (hle : a ≤ b) :
    Result.Fits G (G.src.span a b) := fun hG => Source.span_fits (ha hG) (hb hG) hle

theorem simpleIndex_fits {span : Span} (hspan : Result.Fits G span) (inner : List Char) :
    Result.Fits G (simpleIndex span inner) ∧ Result.errors (simpleIndex span inner) = 0 := by
  have hleaf : ∀ {kind : NodeKind} (text : String), kind ≠ .error →
      Result.Fits G (Node.leaf kind span text) ∧ Result.errors (Node.leaf kind span text) = 0 :=
    fun text hkind => ⟨fits_leaf.2 hspan, errors_leaf hkind _ _⟩
  unfold simpleIndex
  extract_lets text
  split
  · exact hleaf _ (by nofun)
  · split <;> exact hleaf _ (by nofun)

/-- A variable in quoted text is read from the front of what is left. -/
theorem simpleInterpolation_fits (hat : G.known → G.src.HasAt start ('$' :: text)) :
    Result.Fits G (simpleInterpolation G.src start text).1 ∧
      Result.errors (simpleInterpolation G.src start text).1 = 0 ∧
      (simpleInterpolation G.src start text).2 <:+ text := by
  have hplace : ∀ (front back : List Char) {o : Nat}, text = front ++ back →
      o = start + 1 + byteSize front → Result.Fits G o := by
    rintro front back o rfl rfl hG
    have hplace := (hat hG).isPlace ('$' :: front)
    rwa [byteSize_cons, ← Nat.add_assoc] at hplace
  have hstart : Result.Fits G start := fun hG => (hat hG).isPlace_start
  generalize hfound : simpleInterpolation G.src start text = found
  unfold simpleInterpolation at hfound
  extract_lets name rest stop variableNode at hfound
  have htext : name ++ rest = text := takeWhile_append_drop _ _
  have hstop : Result.Fits G stop := hplace _ _ htext.symm rfl
  have hle : start ≤ stop := by omega
  have hvariable : Result.Fits G variableNode := fits_leaf.2 (fits_between hstart hstop hle)
  have herrors : Result.errors variableNode = 0 := errors_leaf (by nofun) _ _
  have hrest : rest <:+ text := ⟨name, htext⟩
  clear_value variableNode rest
  split at hfound
  · rename_i _ more
    extract_lets inner after close index at hfound
    have hinner : inner ++ after = more := takeWhile_append_drop _ _
    split at hfound
    · subst hfound
      exact ⟨hvariable, herrors, hrest⟩
    rename_i hafter
    subst hfound
    obtain ⟨tail, htail⟩ : ∃ tail, after = ']' :: tail :=
      drop_takeWhile_ne fun h => hafter (List.isEmpty_iff.2 h)
    have hopen : Result.Fits G (stop + 1) := by
      refine hplace (name ++ ['[']) more (by rw [← htext]; simp) ?_
      rw [byteSize_append]
      rfl
    have hclose : Result.Fits G close := by
      refine hplace (name ++ '[' :: inner) after
        (by rw [← htext, ← hinner]; simp) ?_
      rw [byteSize_append, byteSize_cons, show ('[' : Char).utf8Size = 1 from rfl]
      omega
    have hend : Result.Fits G (close + 1) := by
      refine hplace (name ++ '[' :: (inner ++ [']'])) tail
        (by rw [← htext, ← hinner, htail]; simp) ?_
      rw [byteSize_append, byteSize_cons, byteSize_append, show ('[' : Char).utf8Size = 1 from rfl,
        show byteSize [']'] = 1 from rfl]
      omega
    obtain ⟨hindex, hindexErrors⟩ := simpleIndex_fits (fits_between hopen hclose (by omega)) inner
    refine ⟨?_, ?_, ?_⟩
    · have hspan : Result.Fits G (G.src.span start (close + 1)) :=
        fits_between hstart hend (by omega)
      simp [hspan, hvariable, hindex, index]
    · simp [herrors, hindexErrors, index]
    · rw [List.drop_one]
      have hmore' : more <:+ text := (List.suffix_cons _ _).trans hrest
      exact (List.tail_suffix _).trans ((List.drop_suffix _ _).trans hmore')
  · rename_i _ more
    have hmore' : more <:+ text :=
      ((List.suffix_cons _ _).trans (List.suffix_cons _ _)).trans hrest
    split at hfound
    · extract_lets property stop' nameNode at hfound
      subst hfound
      have hproperty : property ++ more.drop property.length = more := takeWhile_append_drop _ _
      have harrow : Result.Fits G (stop + 2) := by
        refine hplace (name ++ ['-', '>']) more (by rw [← htext]; simp) ?_
        rw [byteSize_append]
        rfl
      have hend : Result.Fits G stop' := by
        refine hplace (name ++ '-' :: '>' :: property) (more.drop property.length)
          (by rw [← htext]; simp [hproperty]) ?_
        rw [byteSize_append, byteSize_cons, byteSize_cons, show ('-' : Char).utf8Size = 1 from rfl,
          show ('>' : Char).utf8Size = 1 from rfl]
        omega
      refine ⟨?_, ?_, (List.drop_suffix _ _).trans hmore'⟩
      · have hspan : Result.Fits G (G.src.span start stop') :=
          fits_between hstart hend (by omega)
        have hnameSpan : Result.Fits G (G.src.span (stop + 2) stop') :=
          fits_between harrow hend (by omega)
        simp [hspan, hvariable, hnameSpan, nameNode]
      · simp [herrors, nameNode]
    · subst hfound
      exact ⟨hvariable, herrors, hrest⟩
  · subst hfound
    exact ⟨hvariable, herrors, hrest⟩

end

/-! ### Quoted text -/

/-- A reading of quoted text up to `stop`: what is left of the text stands in the source text,
and ends at `stop`. -/
structure Pieces.Stands (G : Ground) (stop : Nat) (p : Pieces) : Prop where
  parts : Result.Fits G p.parts
  since : Result.Fits G p.since
  lo : G.known → G.lo ≤ p.offset
  hasAt : G.known → G.src.HasAt p.offset p.rest
  stop : G.known → p.offset + byteSize p.rest = stop

/-- What a step over quoted text up to `stop` results in where fewer than `n` characters are to
be left. -/
@[reducible]
def Pieces.result (stop n : Nat) : Result Pieces where
  Fits G p := p.Stands G stop ∧ p.rest.length < n
  errors p := Result.errors p.parts

namespace Pieces

section

variable {G : Ground} {stop n : Nat} {p : Pieces} {c d : Char} {rest after : List Char}
  {node : Node}

theorem Stands.fits_offset (hp : p.Stands G stop) : Result.Fits G p.offset :=
  fun hG => (hp.hasAt hG).isPlace_start

theorem Stands.fits_stop (hp : p.Stands G stop) : Result.Fits G stop := by
  intro hG
  rw [← hp.stop hG]
  exact (hp.hasAt hG).isPlace_stop

theorem Stands.fits_place (hp : p.Stands G stop) (text more : List Char) {o : Nat}
    (hrest : p.rest = text ++ more) (ho : o = p.offset + byteSize text) : Result.Fits G o := by
  intro hG
  have hat := hp.hasAt hG
  rw [hrest] at hat
  exact ho ▸ hat.isPlace

/-- Code before a closing brace stands between places. -/
theorem Stands.code_places (hp : p.Stands G stop) (mark : List Char) (start : Nat)
    {inner : List Char}
    (hrest : p.rest = mark ++ (inner ++ '}' :: after)) (hstart : start = p.offset + byteSize mark)
    (hlt : p.offset < start) : G.known → G.lo < start ∧ G.src.IsPlace start ∧
      G.src.IsPlace (start + byteSize inner) ∧ start ≤ start + byteSize inner := by
  refine fun hG => ⟨Nat.lt_of_le_of_lt (hp.lo hG) hlt, hp.fits_place mark _ hrest hstart hG,
    hp.fits_place (mark ++ inner) ('}' :: after) (by rw [hrest]; simp) ?_ hG,
    Nat.le_add_right _ _⟩
  rw [byteSize_append, hstart, Nat.add_assoc]

/-- Some text is taken from the front of what is left. -/
theorem Stands.rest_after (hp : p.Stands G stop) {q : Pieces} (hrest : q.rest <:+ p.rest)
    (hoffset : q.offset = p.offset + byteSize (p.rest.take (p.rest.length - q.rest.length)))
    (hparts : Result.Fits G q.parts) (hsince : Result.Fits G q.offset → Result.Fits G q.since) :
    q.Stands G stop := by
  obtain ⟨skipped, hskipped⟩ := hrest
  rw [offset_after hskipped.symm] at hoffset
  have hasAt : G.known → G.src.HasAt q.offset q.rest := by
    intro hG
    have hat := hp.hasAt hG
    rw [← hskipped] at hat
    rw [hoffset]
    exact hat.drop
  refine ⟨hparts, hsince fun hG => (hasAt hG).isPlace_start, fun hG => ?_, hasAt, fun hG => ?_⟩
  · rw [hoffset]
    exact Nat.le_trans (hp.lo hG) (Nat.le_add_right _ _)
  · rw [hoffset, ← hp.stop hG, ← hskipped, byteSize_append, Nat.add_assoc]

theorem Stands.keep (hp : p.Stands G stop) (hrest : p.rest = c :: rest) (hafter : after <:+ rest) :
    (p.keep d after).Stands G stop ∧ (p.keep d after).rest.length < p.rest.length := by
  refine ⟨hp.rest_after (hrest ▸ hafter.trans (List.suffix_cons c rest)) rfl hp.parts fun _ =>
    hp.since,
    ?_⟩
  rw [hrest]
  exact Nat.lt_succ_of_le hafter.length_le

theorem fits_flush (hparts : Result.Fits G p.parts) (hsince : Result.Fits G p.since)
    (hstop : Result.Fits G stop) : Result.Fits G (p.flush G.src stop).parts := by
  have hmax : Result.Fits G (max stop p.since) := by
    rcases Nat.le_total stop p.since with h | h
    · rwa [Nat.max_eq_right h]
    · rwa [Nat.max_eq_left h]
  rw [flush]
  split
  · exact hparts
  · exact fits_cons.2 ⟨fits_leaf.2 (fits_between hsince hmax (Nat.le_max_right _ _)), hparts⟩

theorem errors_flush (src : Source) (p : Pieces) (stop : Nat) :
    Result.errors (p.flush src stop).parts = Result.errors p.parts := by
  rw [flush]
  split
  · rfl
  · simp

theorem Stands.put (hp : p.Stands G stop) (hrest : p.rest = c :: rest) (hafter : after <:+ rest)
    (hnode : Result.Fits G node) :
    (p.put G.src node after).Stands G stop ∧
      (p.put G.src node after).rest.length < p.rest.length := by
  have hparts : Result.Fits G (p.put G.src node after).parts :=
    fits_cons.2 ⟨hnode, fits_flush hp.parts hp.since hp.fits_offset⟩
  refine ⟨hp.rest_after (hrest ▸ hafter.trans (List.suffix_cons c rest)) rfl hparts id, ?_⟩
  rw [hrest]
  exact Nat.lt_succ_of_le hafter.length_le

theorem errors_put (src : Source) (p : Pieces) (node : Node) (after : List Char) :
    Result.errors (p.put src node after).parts = Result.errors node + Result.errors p.parts := by
  show Result.errors (node :: (p.flush src p.offset).parts) = _
  rw [errors_cons, errors_flush]

theorem utf8Size_of_isIndent (hc : isIndent c = true) : c.utf8Size = 1 := by
  rcases Bool.or_eq_true_iff.1 hc with h | h <;> rw [beq_iff_eq.1 h] <;> rfl

end

section

variable {G : Ground} {below : Below} {atToken : Bool} {w indent stop : Nat} {quote : Option Char}
  {p : Pieces} {c : Char} {rest : List Char}

/-- Each step takes some characters from the front of what is left. -/
theorem step_reads (hbelow : below.Reads G) (hp : p.Stands G stop) (hrest : p.rest = c :: rest) :
    @Reads Pieces (result stop p.rest.length) G atToken false (Result.errors p.parts)
      (p.step below indent quote stop c rest) := by
  let _ := result stop p.rest.length
  unfold step
  refine .read ?_
  have hkeep : ∀ (d : Char) {after : List Char}, after <:+ rest →
      Reads G atToken false (Result.errors p.parts) (pure (p.keep d after)) :=
    fun d after hafter => .pure (hp.keep hrest hafter) (Nat.le_refl _)
  have hput : ∀ {atToken : Bool} {w : Nat} {node : Node} {after : List Char}, after <:+ rest →
      Result.Fits G node → Result.errors node + Result.errors p.parts ≤ w →
        Reads G atToken false w (pure (p.put G.src node after)) :=
    fun hafter hnode hw => .pure (hp.put hrest hafter hnode) ((errors_put _ _ _ _).trans_le hw)
  have hopen : Reads G atToken false (Result.errors p.parts)
      (throw { fault := .unterminatedString, span := G.src.span p.offset stop } : Parse Pieces) :=
    .throw (fun hG => fits_between hp.fits_offset hp.fits_stop
      (hp.stop hG ▸ Nat.le_add_right _ _) hG) (by nofun)
  refine .ite (fun h => ?_) fun _ => ?_
  · have hc : c.utf8Size = 1 := utf8Size_of_isIndent (Bool.and_eq_true_iff.1 h).2
    have hrest' : p.rest = [c] ++ rest := hrest
    refine .pure ⟨hp.rest_after (hrest ▸ List.suffix_cons c rest) ?_ hp.parts fun _ => hp.since, ?_⟩
      (Nat.le_refl _)
    · rw [offset_after hrest', byteSize_cons, hc]
      rfl
    · rw [hrest]
      exact Nat.lt_succ_self _
  cases rest with
  | nil => exact hkeep c (List.suffix_refl _)
  | cons d more =>
    refine .ite (fun _ => ?_) fun _ => ?_
    · have hsuffix := suffix_of_decodeEscape? quote (d :: more)
      cases hdecode : decodeEscape? quote (d :: more) with
      | none => exact hkeep c (List.suffix_refl _)
      | some found => exact hkeep found.1 (hsuffix found hdecode)
    refine .ite (fun h => ?_) fun _ => ?_
    · obtain rfl := beq_iff_eq.1 (Bool.and_eq_true_iff.1 h).1
      obtain ⟨hfits, herrors, hsuffix⟩ := simpleInterpolation_fits fun hG => hrest ▸ hp.hasAt hG
      have hread : Reads G atToken false (Result.errors p.parts) _ :=
        hput hsuffix hfits (by omega)
      exact hread
    refine .ite (fun h => ?_) fun _ => ?_
    · obtain rfl := beq_iff_eq.1 (Bool.and_eq_true_iff.1 h).1
      cases hsplit : splitAtBrace 0 none (d :: more) with
      | none => exact hopen
      | some found =>
        have hfound := eq_of_splitAtBrace 0 none _ found hsplit
        have hsuffix : found.2 <:+ d :: more := ⟨found.1 ++ ['}'], by rw [hfound]; simp⟩
        have hplaces := hp.code_places ['{'] (p.offset + 1)
          (by rw [hrest, hfound]; rfl) rfl (Nat.lt_succ_self _)
        exact .bind (hbelow.code hplaces) fun node hnode => hput hsuffix hnode (by omega)
    refine .ite (fun h => ?_) fun _ => ?_
    · obtain ⟨hc, hd⟩ := Bool.and_eq_true_iff.1 h
      rw [beq_iff_eq] at hc hd
      subst hc hd
      cases hsplit : splitAtBrace 0 none more with
      | none => exact hopen
      | some found =>
        have hfound := eq_of_splitAtBrace 0 none _ found hsplit
        have hsuffix : found.2 <:+ '{' :: more :=
          ⟨'{' :: (found.1 ++ ['}']), by rw [hfound]; simp⟩
        have hend : Result.Fits G (p.offset + 2 + byteSize found.1 + 1) := by
          refine hp.fits_place ('$' :: '{' :: (found.1 ++ ['}'])) found.2
            (by rw [hrest, hfound]; simp) ?_
          rw [byteSize_cons, byteSize_cons, byteSize_append, show byteSize ['}'] = 1 from rfl,
            show ('$' : Char).utf8Size = 1 from rfl, show ('{' : Char).utf8Size = 1 from rfl]
          omega
        have hspan := fits_between hp.fits_offset hend (by omega)
        have hplaces := hp.code_places ['$', '{'] (p.offset + 2)
          (by rw [hrest, hfound]; rfl) rfl (by omega)
        refine .ite (fun _ => hput hsuffix (fits_leaf.2 hspan) (by simp)) fun _ => ?_
        refine .bind (hbelow.code hplaces) fun node hnode => ?_
        exact hput hsuffix (by simp [hspan, hnode]) (by simp [Nat.add_comm])
    refine .ite (fun _ => ?_) fun _ => hkeep c (List.suffix_refl _)
    obtain ⟨hstands, hlt⟩ := hp.keep (d := c) hrest (List.suffix_refl _)
    exact .pure ⟨⟨hstands.parts, hstands.since, hstands.lo, hstands.hasAt, hstands.stop⟩, hlt⟩
      (Nat.le_refl _)

/-- The bound is not reached where no more characters are left than that. -/
theorem run_reads (hbelow : below.Reads G) {n fuel : Nat} (hp : p.Stands G stop)
    (hn : p.rest.length < n) (hfuel : p.rest.length ≤ fuel) :
    @Reads Pieces (result stop n) G atToken false (w + Result.errors p.parts)
      (run below indent quote stop fuel p) := by
  let _ := result stop n
  induction fuel generalizing p atToken w with
  | zero =>
    have hrest := List.length_eq_zero_iff.1 (Nat.le_zero.1 hfuel)
    rw [run, if_pos (List.isEmpty_iff.2 hrest)]
    exact .pure ⟨hp, hn⟩ (Nat.le_add_left _ _)
  | succ fuel ih =>
    cases hrest : p.rest with
    | nil =>
      rw [run, hrest]
      exact .pure ⟨hp, hn⟩ (Nat.le_add_left _ _)
    | cons c rest =>
      rw [run, hrest]
      refine @Reads.carry _ _ (result stop p.rest.length) _ _ _ _ _ _ _ _ _
        (step_reads hbelow hp hrest) fun q hq => ?_
      exact ih hq.1 (Nat.lt_trans hq.2 hn) (Nat.le_of_lt_succ (Nat.lt_of_lt_of_le hq.2 hfuel))

end

end Pieces

section

variable {G : Ground} {below : Below} {atToken : Bool} {w start stop indent : Nat}
  {quote : Option Char} {span : Span}

theorem interpolated_reads (hbelow : below.Reads G) (hspan : Result.Fits G span)
    (hplaces : G.known → G.lo ≤ start ∧ G.src.IsPlace start ∧ G.src.IsPlace stop ∧ start ≤ stop) :
    Reads G atToken false w (interpolated below span start stop indent quote) := by
  have hp : Pieces.Stands G stop
      { parts := [], literal := [], since := start, margin := indent, offset := start,
        rest := G.src.slice start stop } := by
    have hslice : G.known → G.src.HasAt start (G.src.slice start stop) ∧
        start + byteSize (G.src.slice start stop) = stop := by
      intro hG
      obtain ⟨-, hstart, hstop, hle⟩ := hplaces hG
      exact hstart.slice hstop hle
    exact ⟨fits_nil, fun hG => (hplaces hG).2.1, fun hG => (hplaces hG).1,
      fun hG => (hslice hG).1, fun hG => (hslice hG).2⟩
  unfold interpolated
  refine .read (@Reads.bind _ _ (Pieces.result stop _) _ _ _ _ _ _ _ _
    (Pieces.run_reads hbelow hp (Nat.lt_succ_self _) (Nat.le_refl _)) fun p hp => ?_)
  extract_lets parts
  have hparts : Result.Fits G parts :=
    fits_reverse.2 (Pieces.fits_flush hp.1.parts hp.1.since hp.1.fits_stop)
  refine .ite (fun _ => .pure (fits_leaf.2 hspan) (by simp)) fun _ => .pure ?_ ?_
  · exact fits_ofKind.2 ⟨hspan, hparts⟩
  · rw [errors_ofKind (by nofun), errors_reverse, Pieces.errors_flush]
    exact Nat.le_add_left _ _

theorem number_reads : Reads G true true w number := by
  unfold number
  refine .next fun tok htok => .pure (fits_leaf.2 (fits_tokenSpan htok)) ?_
  rw [errors_leaf (by split <;> nofun)]
  exact Nat.zero_le _

theorem plainString_reads : Reads G atToken true w plainString := by
  unfold plainString
  refine .took expect_reads fun tok htok => ?_
  exact .pure (fits_leaf.2 (fits_tokenSpan htok)) (by simp)

theorem templateString_fair (hbelow : below.Reads G) {s : State} {t : Token} (hs : s.Stands G)
    (ht : s.current = some t) (hkind : t.kind.isTemplate = true) :
    Fair G s true w (templateString below G.src s) := by
  unfold templateString
  have hplaced := fun hG => hs.current hG t ht
  refine fair_next hs ht (interpolated_reads hbelow (fits_tokenSpan hplaced) fun hG => ?_)
  obtain ⟨quote, body, htext, hquote⟩ := (hplaced hG).quoted hkind
  have hat := (hplaced hG).hasAt
  have hstop := (hplaced hG).stop
  rw [htext, byteSize_cons, byteSize_append, byteSize_cons, hquote, byteSize_nil] at hstop
  rw [htext] at hat
  have hbody : t.span.start + byteSize (quote :: body) =
      max (t.span.stop - 1) (t.span.start + 1) := by
    rw [byteSize_cons, hquote]
    omega
  have hopen : t.span.start + byteSize [quote] = t.span.start + 1 := by
    rw [byteSize_cons, hquote]
    rfl
  refine ⟨Nat.le_trans (hplaced hG).le_start (Nat.le_add_right _ _), ?_, ?_, Nat.le_max_right _ _⟩
  · exact hopen ▸ Source.HasAt.isPlace [quote] hat
  · exact hbody ▸ Source.HasAt.isPlace (quote :: body) hat

/-- The body of a heredoc begins and ends where characters of its text do. -/
theorem heredocBody?_places {text : List Char} {body : HeredocBody}
    (hbody : heredocBody? text = some body) :
    (∃ front, front <+: text ∧ byteSize front = body.offset) ∧
      ∃ front, front <+: text ∧ byteSize front = body.offset + body.size := by
  unfold heredocBody? at hbody
  extract_lets first closing upToLast offset size at hbody
  split at hbody
  · cases hbody
  rename_i hlength
  obtain rfl := Option.some.inj hbody
  have hstart : ∃ front, front <+: text ∧ byteSize front = offset := by
    obtain ⟨more, hmore⟩ : ∃ more, text.drop first.length = '\n' :: more := by
      refine drop_takeWhile_ne fun hnil => hlength ?_
      have hle := List.drop_eq_nil_iff.1 hnil
      exact Nat.le_antisymm (List.takeWhile_prefix _).length_le hle
    have htext : text = first ++ '\n' :: more := by
      rw [← hmore]
      exact (takeWhile_append_drop _ text).symm
    refine ⟨first ++ ['\n'], ⟨more, by rw [htext]; simp⟩, ?_⟩
    rw [byteSize_append]
    rfl
  have hstop : ∃ front, front <+: text ∧ byteSize front = size := by
    have hlast : upToLast <+: text := List.take_prefix _ _
    refine ⟨_, ?_, rfl⟩
    split
    · exact (List.dropLast_prefix _).trans hlast
    · exact hlast
  refine ⟨hstart, ?_⟩
  show ∃ front, front <+: text ∧ byteSize front = offset + (size - offset)
  rcases Nat.le_total offset size with h | h
  · rwa [Nat.add_sub_cancel' h]
  · rwa [Nat.sub_eq_zero_of_le h]

theorem heredocString_reads (hbelow : below.Reads G) :
    Reads G true true w (heredocString below) := by
  unfold heredocString
  refine .next fun tok htok => ?_
  dsimp only
  cases hbody : heredocBody? tok.text.toList with
  | none => exact .unexpected
  | some body =>
    obtain ⟨⟨front, hfront, hstart⟩, front', hfront', hstop⟩ := heredocBody?_places hbody
    refine .ite (fun _ => ?_) fun _ => ?_
    · exact .read (.pure (fits_leaf.2 (fits_tokenSpan htok)) (by simp))
    · have hplace : ∀ {front : List Char} {o : Nat}, front <+: tok.text.toList →
        byteSize front = o →
          Result.Fits G (tok.span.start + o) := by
        rintro front o ⟨more, hmore⟩ rfl hG
        have hat := (htok hG).hasAt
        rw [← hmore] at hat
        exact hat.isPlace front
      refine interpolated_reads hbelow (fits_tokenSpan htok) fun hG => ?_
      refine ⟨Nat.le_trans (htok hG).le_start (Nat.le_add_right _ _), hplace hfront hstart hG, ?_,
        Nat.le_add_right _ _⟩
      rw [Nat.add_assoc]
      exact hplace hfront' hstop hG

end

end PhpCheck.Grammar
