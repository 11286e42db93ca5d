import PhpCheck.Proofs.Grammar.InStep.Steps

/-!
Names, numbers and quoted text, in step.

The offsets within quoted text are counted along it.  Two readings of the same quoted text stand
at the same place of it (`Pieces.Twin`), and so they do after one step.
-/

namespace PhpCheck.Grammar

/-! ### Names -/

section

variable {B : Bond} {C : Option TokenKind → Prop}

theorem simpleVariable_inStep : InStep B .inside C simpleVariable simpleVariable := by
  unfold simpleVariable
  exact .bind expect_inStep fun tok tok' htok => .pure (by simp [(unplaced_token.1 htok).2])

theorem qualifiedName_inStep : InStep B .inside C qualifiedName qualifiedName := by
  have hmoves := fun (s : State) (hs : s.Stands (.unknown B.left)) =>
    (qualifiedName_reads (w := 0)).moves hs
  unfold qualifiedName at hmoves ⊢
  refine .hereAt hmoves fun start start' hstart => .branch ?_ ?_
  · exact .bind expect_inStep fun tok tok' htok => .pure (by simp)
  refine .bind eats_inStep fun rooted rooted' hrooted => ?_
  obtain rfl : rooted = rooted' := hrooted
  extract_lets parts first parts' first'
  have hparts : ∀ {C}, InStep B .inside C (parts ()) (parts' ()) := by
    refine .bind discard_advance_inStep fun _ _ _ => .loop rfl (fun _ _ _ => ?_) fun _ _ _ =>
      spanText_inStep hstart
    refine .guarded (by decide) ?_ (.pure rfl)
    exact .bind discard_advance_inStep fun _ _ _ => .bind discard_advance_inStep fun _ _ _ =>
      .pure rfl
  have hfirst : ∀ {C}, InStep B .inside C (first ()) (first' ()) :=
    .test fun named => .ite (fun _ => .unexpected_bind _) fun _ => hparts
  refine .ite (fun _ => ?_) fun _ => ?_
  · exact .bind (.discard expect_inStep) fun _ _ _ => hfirst
  · exact .bind (.discard eat_inStep) fun _ _ _ => hfirst

theorem nameList_inStep : InStep B .inside C nameList nameList := by
  unfold nameList
  refine .here fun start start' =>
    .bind (separated_inStep qualifiedName_inStep) fun names names' hnames => ?_
  exact nodeFrom_inStep hnames

theorem memberName_inStep : InStep B .inside C memberName memberName := by
  unfold memberName
  refine .current (fun s s' hs hs' => ?_) fun s s' tok tok' hs hs' htok => ?_ <;> rw [hs, hs'] <;>
    dsimp only
  · exact .unexpected _
  · obtain ⟨hkind, htext⟩ := unplaced_token.1 htok
    rw [← hkind]
    refine .ite (fun _ => .bind discard_advance_inStep fun _ _ _ => .pure ?_) fun _ => .unexpected _
    simp [htext]

theorem modifiers_inStep : InStep B .inside C modifiers modifiers := by
  unfold modifiers
  refine .loop rfl (fun words words' hwords => ?_)
    fun words words' hwords => .pure (by simp [hwords])
  refine .current (fun s s' hs hs' => ?_) fun s s' tok tok' hs hs' htok => ?_ <;> rw [hs, hs'] <;>
    dsimp only
  · exact .pure (by simp [hwords])
  · obtain ⟨hkind, htext⟩ := unplaced_token.1 htok
    rw [← hkind]
    refine .ite (fun _ => .bind discard_advance_inStep fun _ _ _ => .pure ?_) fun _ => .pure ?_
    · simp [htext, hwords]
    · simp [hwords]

theorem typeAtom_inStep : InStep B .inside C typeAtom typeAtom := by
  unfold typeAtom
  exact .branch discard_advance_inStep (.discard qualifiedName_inStep)

theorem typeHint_inStep : InStep B .inside C typeHint typeHint := by
  have hmoves := fun (s : State) (hs : s.Stands (.unknown B.left)) =>
    (typeHint_reads (w := 0)).moves hs
  unfold typeHint at hmoves ⊢
  refine .hereAt hmoves fun start start' hstart => .bind (.discard eat_inStep) fun _ _ _ => ?_
  refine .loop rfl (fun _ _ _ => ?_) fun _ _ _ =>
    spanText_inStep hstart
  refine .bind eats_inStep fun grouped grouped' hgrouped => ?_
  obtain rfl : grouped = grouped' := hgrouped
  extract_lets last
  have hlast : ∀ {C}, InStep B .inside C (last ()) (last ()) := by
    refine .eats (.pure rfl) (.guarded (by decide) ?_ (.pure rfl))
    exact .bind discard_advance_inStep fun _ _ _ => .pure rfl
  refine .ite (fun _ => ?_) fun _ => .bind typeAtom_inStep fun _ _ _ => hlast
  refine .bind typeAtom_inStep fun _ _ _ => .loop rfl (fun _ _ _ => ?_)
    fun _ _ _ => .bind (.discard expect_inStep) fun _ _ _ => hlast
  exact .eats (.bind typeAtom_inStep fun _ _ _ => .pure rfl) (.pure rfl)

end

/-! ### Names where there can be none -/

section

variable {G : Ground} {s : State} {t : Token} (hs : s.Stands G) (ht : s.current = some t)
  (hk : t.kind ∈ closing)

include hk ht

theorem check_closing {k : TokenKind} (hne : k ∉ closing) : check k G.src s = .ok false s := by
  have hkind : (some t.kind == some k) = false :=
    beq_false_of_ne fun h => hne (Option.some.inj h ▸ hk)
  show EStateM.Result.ok (s.current.map (·.kind) == some k) s = _
  rw [ht, Option.map_some, hkind]

theorem eat_closing {k : TokenKind} (hne : k ∉ closing) : eat k G.src s = .ok none s := by
  rw [eat, bind_ok (check_closing ht hk hne)]
  rfl

theorem eats_closing {k : TokenKind} (hne : k ∉ closing) : eats k G.src s = .ok false s := by
  rw [eats, bind_ok (eat_closing ht hk hne)]
  rfl

omit ht in
theorem isMemberName_closing : t.kind.isMemberName = false := by
  have hnone : ∀ k ∈ closing, k.isMemberName = false := by decide
  exact hnone _ hk

include hs

theorem memberName_closing : ∃ e, memberName G.src s = .error e s := by
  obtain ⟨e, he, -⟩ := unexpected_error (γ := Node) hs "name"
  refine ⟨e, ?_⟩
  rw [memberName, bind_ok (show (get : Parse State) G.src s = .ok s s from rfl), ht]
  dsimp only
  rw [if_neg (Bool.eq_false_iff.1 (isMemberName_closing hk))]
  exact he

theorem qualifiedName_closing : ∃ e, qualifiedName G.src s = .error e s := by
  obtain ⟨e, he, -⟩ := unexpected_error (γ := PUnit) hs "name"
  have hhere : here G.src s = .ok ((s.current.map (·.span.start)).getD G.src.size) s := rfl
  have hname : atMemberName G.src s = .ok false s := by
    show EStateM.Result.ok ((s.current.map (·.kind)).any TokenKind.isMemberName) s = _
    rw [ht, Option.map_some, Option.any_some, isMemberName_closing hk]
  refine ⟨e, ?_⟩
  rw [qualifiedName, bind_ok hhere, bind_ok (check_closing ht hk (by decide)), if_neg nofun,
    bind_ok (eats_closing ht hk (by decide)), if_neg nofun,
    bind_ok (discard_ok (eat_closing ht hk (by decide)))]
  exact (bind_ok hname).trans (bind_error he)

theorem typeHint_closing : ∃ e s', typeHint G.src s = .error e s' := by
  obtain ⟨e, he⟩ := qualifiedName_closing hs ht hk
  have hhere : here G.src s = .ok ((s.current.map (·.span.start)).getD G.src.size) s := rfl
  have hany : checkAny [.kwArray, .kwCallable] G.src s = .ok false s := by
    have hnone : ∀ k ∈ closing, [TokenKind.kwArray, .kwCallable].contains k = false := by decide
    show EStateM.Result.ok ((s.current.map (·.kind)).any _) s = _
    rw [ht, Option.map_some, Option.any_some, hnone _ hk]
  have hdiscard : (discard qualifiedName : Parse Unit) G.src s = .error e s := by
    show EStateM.map _ (qualifiedName G.src) s = _
    rw [EStateM.map, he]
  refine ⟨e, s, ?_⟩
  rw [typeHint, bind_ok hhere, bind_ok (discard_ok (eat_closing ht hk (by decide)))]
  refine bind_error ?_
  rw [repeated_eq]
  refine rounds_error ?_
  rw [bind_ok (eats_closing ht hk (by decide)), if_neg nofun, typeAtom]
  refine bind_error ?_
  rw [bind_ok hany, if_neg nofun]
  exact hdiscard

end

/-- The grammar one nesting level further down is in step, and so is the reading of code between
the same places. -/
structure Below.InStep (below₁ below₂ : Below) (B : Bond) : Prop where
  reads : below₁.Reads (.unknown B.left)
  expression : ∀ {C} (min : Precedence),
    Grammar.InStep B .inside C (below₁ (.expression min)) (below₂ (.expression min))
  statement : ∀ {C}, Grammar.InStep B .ends C (below₁ .statement) (below₂ .statement)
  code : ∀ {C o₁ o₂ e₁ e₂}, B.Place o₁ o₂ → B.Place e₁ e₂ → o₁ ≤ e₁ →
    Grammar.InStep B .inside C (below₁ (.code o₁ e₁)) (below₂ (.code o₂ e₂))

theorem map_of_unplaced {γ : Type} {nodes nodes' : List Node} {g : Node → γ}
    (h : unplaced nodes = unplaced nodes') (hg : ∀ n n', unplaced n = unplaced n' → g n = g n') :
    nodes.map g = nodes'.map g := by
  induction nodes generalizing nodes' with
  | nil =>
    cases nodes' with
    | nil => rfl
    | cons n' nodes' => cases h
  | cons n nodes ih =>
    cases nodes' with
    | nil => cases h
    | cons n' nodes' =>
      obtain ⟨hn, hnodes⟩ := List.cons.inj h
      rw [List.map_cons, List.map_cons, hg n n' hn, ih hnodes]

theorem isEmpty_of_unplaced {nodes nodes' : List Node} (h : unplaced nodes = unplaced nodes') :
    nodes.isEmpty = nodes'.isEmpty := by
  cases nodes <;> cases nodes' <;> first | rfl | cases h

/-! ### Variables in quoted text -/

section

variable {src src' : Source} {o o' stop stop' : Nat} {text : List Char}

theorem unplaced_simpleIndex (span span' : Span) (inner : List Char) :
    unplaced (simpleIndex span inner) = unplaced (simpleIndex span' inner) := by
  unfold simpleIndex
  extract_lets text
  split
  · simp
  · split <;> simp

/-- What a variable in quoted text is read as does not depend on where it stands. -/
theorem unplaced_simpleInterpolation :
    unplaced (simpleInterpolation src o text).1 = unplaced (simpleInterpolation src' o' text).1 ∧
      (simpleInterpolation src o text).2 = (simpleInterpolation src' o' text).2 := by
  let Same (x y : Node × List Char) : Prop := unplaced x.1 = unplaced y.1 ∧ x.2 = y.2
  show Same _ _
  unfold simpleInterpolation
  extract_lets name rest stop variableNode stop' variableNode'
  have hvariable : unplaced variableNode = unplaced variableNode' := by
    simp [variableNode, variableNode']
  clear_value variableNode variableNode' rest
  split
  · extract_lets inner after
    split
    · exact ⟨hvariable, rfl⟩
    · rename_i close index close' index' _
      have hindex : unplaced index = unplaced index' := unplaced_simpleIndex _ _ _
      exact ⟨by simp [hvariable, hindex], rfl⟩
  · split
    · exact ⟨by simp [hvariable], rfl⟩
    · exact ⟨hvariable, rfl⟩
  · exact ⟨hvariable, rfl⟩

end

/-! ### Quoted text -/

namespace Pieces

/-- Two readings of the same quoted text, as far along it. -/
structure Twin (B : Bond) (p₁ p₂ : Pieces) : Prop where
  parts : unplaced p₁.parts = unplaced p₂.parts
  literal : p₁.literal = p₂.literal
  margin : p₁.margin = p₂.margin
  rest : p₁.rest = p₂.rest
  stands : ∃ front back, B.text = front ++ p₁.rest ++ back ∧ p₁.offset = B.lo₁ + byteSize front ∧
    p₂.offset = B.lo₂ + byteSize front

/-- What the first production makes of quoted text, the second one makes of it. -/
def InStep (B : Bond) (p q : Parse Pieces) : Prop :=
  ∀ s₁ s₂ q₁ s₁', B.Twin s₁ s₂ → p B.left s₁ = .ok q₁ s₁' → s₁'.errors = [] → B.Free s₁' →
    ∃ q₂ s₂', q B.right s₂ = .ok q₂ s₂' ∧ Twin B q₁ q₂ ∧ B.Twin s₁' s₂'

section

variable {B : Bond} {p₁ p₂ : Pieces} {c d : Char} {rest after inner : List Char}
  {node node' : Node}

namespace Twin

/-- Between two characters of what is left is a place of the text. -/
theorem place (h : Twin B p₁ p₂) (text : List Char) {more : List Char}
    (hrest : p₁.rest = text ++ more) :
    B.Place (p₁.offset + byteSize text) (p₂.offset + byteSize text) := by
  obtain ⟨front, back, htext, ho₁, ho₂⟩ := h.stands
  refine ⟨front ++ text, more ++ back, ?_, ?_, ?_⟩
  · rw [htext, hrest]
    simp only [List.append_assoc]
  · rw [ho₁, byteSize_append, Nat.add_assoc]
  · rw [ho₂, byteSize_append, Nat.add_assoc]

/-- Code before a closing brace stands between places. -/
theorem code_places (h : Twin B p₁ p₂) (mark : List Char)
    (hrest : p₁.rest = mark ++ (inner ++ '}' :: after)) :
    B.Place (p₁.offset + byteSize mark) (p₂.offset + byteSize mark) ∧
      B.Place (p₁.offset + byteSize mark + byteSize inner)
        (p₂.offset + byteSize mark + byteSize inner) := by
  have hstop := h.place (mark ++ inner) (show p₁.rest = _ ++ '}' :: after by rw [hrest]; simp)
  rw [byteSize_append, ← Nat.add_assoc, ← Nat.add_assoc] at hstop
  exact ⟨h.place mark hrest, hstop⟩

/-- The same text is taken from the front of what is left. -/
theorem moved (h : Twin B p₁ p₂) {q₁ q₂ : Pieces} {skipped : List Char}
    (hrest : p₁.rest = skipped ++ after)
    (ho₁ : q₁.offset = p₁.offset + byteSize skipped)
    (ho₂ : q₂.offset = p₂.offset + byteSize skipped)
    (hrest₁ : q₁.rest = after) (hrest₂ : q₂.rest = after)
    (hparts : unplaced q₁.parts = unplaced q₂.parts)
    (hliteral : q₁.literal = q₂.literal) (hmargin : q₁.margin = q₂.margin) : Twin B q₁ q₂ := by
  obtain ⟨front, back, htext, hfront₁, hfront₂⟩ := h.stands
  refine ⟨hparts, hliteral, hmargin, hrest₁.trans hrest₂.symm, front ++ skipped, back, ?_, ?_, ?_⟩
  · rw [htext, hrest, hrest₁]
    simp only [List.append_assoc]
  · rw [ho₁, hfront₁, byteSize_append, Nat.add_assoc]
  · rw [ho₂, hfront₂, byteSize_append, Nat.add_assoc]

theorem keep (h : Twin B p₁ p₂) (hrest : p₁.rest = c :: rest) (hafter : after <:+ rest) :
    Twin B (p₁.keep d after) (p₂.keep d after) := by
  obtain ⟨skipped, rfl⟩ := hafter
  have hrest₁ : p₁.rest = (c :: skipped) ++ after := hrest
  exact h.moved hrest₁ (offset_after hrest₁) (offset_after (h.rest ▸ hrest₁)) rfl rfl h.parts
    (congrArg (d :: ·) h.literal) rfl

theorem unplaced_flush (h : Twin B p₁ p₂) (src src' : Source) (stop stop' : Nat) :
    unplaced (p₁.flush src stop).parts = unplaced (p₂.flush src' stop').parts ∧
      (p₁.flush src stop).literal = (p₂.flush src' stop').literal := by
  rw [flush, flush, ← h.literal]
  split
  · exact ⟨h.parts, h.literal⟩
  · exact ⟨by simp [h.parts], rfl⟩

theorem put (h : Twin B p₁ p₂) {src src' : Source} (hrest : p₁.rest = c :: rest)
    (hafter : after <:+ rest)
    (hnode : unplaced node = unplaced node') :
    Twin B (p₁.put src node after) (p₂.put src' node' after) := by
  obtain ⟨skipped, rfl⟩ := hafter
  have hrest₁ : p₁.rest = (c :: skipped) ++ after := hrest
  obtain ⟨hparts, hliteral⟩ := h.unplaced_flush src src' p₁.offset p₂.offset
  refine h.moved hrest₁ (offset_after hrest₁) (offset_after (h.rest ▸ hrest₁)) rfl rfl ?_
    hliteral rfl
  show unplaced (node :: _) = unplaced (node' :: _)
  rw [unplaced_cons, unplaced_cons, hnode, hparts]

end Twin

namespace InStep

theorem pure {q₁ q₂ : Pieces} (h : Twin B q₁ q₂) : InStep B (pure q₁) (pure q₂) := by
  intro s₁ s₂ a₁ s₁' htwin hr _ _
  cases hr
  exact ⟨q₂, s₂, rfl, h, htwin⟩

theorem throw (e : SyntaxError) {q : Parse Pieces} : InStep B (throw e) q := by
  intro s₁ s₂ a₁ s₁' htwin hr
  cases hr

theorem ite {cond : Prop} [Decidable cond] {p q p' q' : Parse Pieces} (hp : cond → InStep B p q)
    (hq : ¬cond → InStep B p' q') :
    InStep B (if cond then p else p') (if cond then q else q') := by
  split
  · exact hp ‹_›
  · exact hq ‹_›

theorem read {f g : Source → Parse Pieces} (h : InStep B (f B.left) (g B.right)) :
    InStep B (MonadReader.read >>= f) (MonadReader.read >>= g) := h

/-- A node becomes a part. -/
theorem ofNode {p q : Parse Node} {f g : Node → Pieces} (hp : Grammar.InStep B .inside Any p q)
    (hf : ∀ n n', unplaced n = unplaced n' → Twin B (f n) (g n')) :
    InStep B (p >>= fun n => Pure.pure (f n)) (q >>= fun n => Pure.pure (g n)) := by
  intro s₁ s₂ a₁ s₁' htwin hr herrors hfree
  cases hp' : p B.left s₁ with
  | error e s' =>
    rw [bind_error hp'] at hr
    cases hr
  | ok n s' =>
    rw [bind_ok hp'] at hr
    cases hr
    obtain ⟨n', s₂', hq, hn, htwin'⟩ := hp.run s₁ s₂ n s₁' htwin trivial hp' herrors hfree
    exact ⟨g n', s₂', by rw [bind_ok hq]; rfl, hf n n' hn, htwin'⟩

end InStep

end

section

variable {B : Bond} {below₁ below₂ : Below} {p₁ p₂ : Pieces} {c : Char} {rest : List Char}
  {indent stop stop' : Nat} {quote : Option Char}

theorem step_inStep (hbelow : below₁.InStep below₂ B) (h : Twin B p₁ p₂)
    (hrest : p₁.rest = c :: rest) :
    InStep B (p₁.step below₁ indent quote stop c rest)
      (p₂.step below₂ indent quote stop' c rest) := by
  unfold step
  refine .read ?_
  have hkeep : ∀ (d : Char) {after : List Char}, after <:+ rest →
      InStep B (pure (p₁.keep d after)) (pure (p₂.keep d after)) :=
    fun d after hafter => .pure (h.keep hrest hafter)
  have hput : ∀ {node node' : Node} {after : List Char}, after <:+ rest →
    unplaced node = unplaced node' →
      Twin B (p₁.put B.left node after) (p₂.put B.right node' after) :=
    fun hafter hnode => h.put hrest hafter hnode
  rw [← h.margin]
  refine .ite (fun hblank => ?_) fun _ => ?_
  · have hc : c.utf8Size = 1 := utf8Size_of_isIndent (Bool.and_eq_true_iff.1 hblank).2
    have hone : byteSize [c] = 1 := by rw [byteSize_cons, hc]; rfl
    have hrest₁ : p₁.rest = [c] ++ rest := hrest
    exact .pure (h.moved hrest₁ (by rw [hone]) (by rw [hone]) rfl rfl h.parts h.literal rfl)
  cases rest with
  | nil => exact hkeep c (List.suffix_refl _)
  | cons d more =>
    refine .ite (fun _ => ?_) fun _ => ?_
    · have hsuffix := suffix_of_decodeEscape? quote (d :: more)
      cases hdecode : decodeEscape? quote (d :: more) with
      | none => exact hkeep c (List.suffix_refl _)
      | some found => exact hkeep found.1 (hsuffix found hdecode)
    refine .ite (fun hname => ?_) fun _ => ?_
    · obtain rfl := beq_iff_eq.1 (Bool.and_eq_true_iff.1 hname).1
      have hsame := @unplaced_simpleInterpolation B.left B.right p₁.offset p₂.offset (d :: more)
      have hsuffix : (simpleInterpolation B.left p₁.offset (d :: more)).2 <:+ d :: more :=
        (simpleInterpolation_fits (G := .unknown B.left) (absurd · not_false)).2.2
      generalize simpleInterpolation B.left p₁.offset (d :: more) = found at hsame hsuffix ⊢
      generalize simpleInterpolation B.right p₂.offset (d :: more) = found' at hsame ⊢
      obtain ⟨node, after⟩ := found
      obtain ⟨node', after'⟩ := found'
      obtain ⟨hnode, rfl⟩ := hsame
      exact .pure (hput hsuffix hnode)
    refine .ite (fun hopens => ?_) fun _ => ?_
    · obtain rfl := beq_iff_eq.1 (Bool.and_eq_true_iff.1 hopens).1
      cases hsplit : splitAtBrace 0 none (d :: more) with
      | none => exact .throw _
      | some found =>
        have hfound := eq_of_splitAtBrace 0 none _ found hsplit
        have hsuffix : found.2 <:+ d :: more := ⟨found.1 ++ ['}'], by rw [hfound]; simp⟩
        obtain ⟨hstart, hstop⟩ := h.code_places ['{'] (by rw [hrest, hfound]; rfl)
        exact .ofNode (hbelow.code hstart hstop (Nat.le_add_right _ _)) fun n n' hn =>
          hput hsuffix hn
    refine .ite (fun hopens => ?_) fun _ => ?_
    · obtain ⟨hc, hd⟩ := Bool.and_eq_true_iff.1 hopens
      rw [beq_iff_eq] at hc hd
      subst hc hd
      cases hsplit : splitAtBrace 0 none more with
      | none => exact .throw _
      | some found =>
        have hfound := eq_of_splitAtBrace 0 none _ found hsplit
        have hsuffix : found.2 <:+ '{' :: more :=
          ⟨'{' :: (found.1 ++ ['}']), by rw [hfound]; simp⟩
        obtain ⟨hstart, hstop⟩ := h.code_places ['$', '{'] (by rw [hrest, hfound]; rfl)
        refine .ite (fun _ => .pure (hput hsuffix (by simp))) fun _ => ?_
        exact .ofNode (hbelow.code hstart hstop (Nat.le_add_right _ _)) fun n n' hn =>
          hput hsuffix (by simp [hn])
    refine .ite (fun _ => .pure ?_) fun _ => hkeep c (List.suffix_refl _)
    have hkept := h.keep (d := c) hrest (List.suffix_refl _)
    exact ⟨hkept.parts, hkept.literal, rfl, hkept.rest, hkept.stands⟩

/-- A reading of quoted text of whose places nothing is known. -/
theorem stands_unknown (src : Source) (stop : Nat) (p : Pieces) : p.Stands (.unknown src) stop :=
  have hunknown : ¬(Ground.unknown src).known := not_false
  ⟨fun _ _ hG => absurd hG hunknown, (absurd · hunknown), (absurd · hunknown), (absurd · hunknown),
    (absurd · hunknown)⟩

theorem run_inStep (hbelow : below₁.InStep below₂ B) {fuel : Nat} (h : Twin B p₁ p₂)
    (hfuel : p₁.rest.length ≤ fuel) :
    InStep B (run below₁ indent quote stop fuel p₁) (run below₂ indent quote stop' fuel p₂) := by
  induction fuel generalizing p₁ p₂ with
  | zero =>
    have hrest := List.isEmpty_iff.2 (List.length_eq_zero_iff.1 (Nat.le_zero.1 hfuel))
    rw [run, run, ← h.rest, if_pos hrest, if_pos hrest]
    exact .pure h
  | succ fuel ih =>
    cases hrest : p₁.rest with
    | nil =>
      rw [run, run, ← h.rest, hrest]
      exact .pure h
    | cons c rest =>
      rw [run, run, ← h.rest, hrest]
      dsimp only
      intro s₁ s₂ q₁ s₁' htwin hr herrors hfree
      have hstands := stands_unknown B.left stop
      have hfair := @step_reads _ _ false indent stop quote _ _ _ hbelow.reads (hstands p₁) hrest s₁
        htwin.stands (absurd · Bool.false_ne_true)
      cases hstep : p₁.step below₁ indent quote stop c rest B.left s₁ with
      | error e t₁ =>
        rw [bind_error hstep] at hr
        cases hr
      | ok q t₁ =>
        rw [bind_ok hstep] at hr
        rw [show (Ground.unknown B.left).src = B.left from rfl, hstep] at hfair
        obtain ⟨hmoved, -, hlt⟩ : Step (.unknown B.left) s₁ t₁ ∧ q.Stands (.unknown B.left) stop ∧
            q.rest.length < p₁.rest.length := by
          cases hfair with
          | ok step fits consumed errors => exact ⟨step, fits⟩
        have hq : q.rest.length ≤ fuel := Nat.le_of_lt_succ (Nat.lt_of_lt_of_le hlt hfuel)
        have hfair' := @run_reads _ _ false 0 indent stop quote _ hbelow.reads _ _ (hstands q)
          (Nat.lt_succ_self _) hq t₁ hmoved.stands
          (absurd · Bool.false_ne_true)
        rw [show (Ground.unknown B.left).src = B.left from rfl, hr] at hfair'
        have hmoved' : Step (.unknown B.left) t₁ s₁' := by
          cases hfair' with
          | ok step fits consumed errors => exact step
        obtain ⟨q', t₂, hstep', hq', htwin'⟩ := step_inStep hbelow h hrest s₁ s₂ q t₁ htwin hstep
          (hmoved'.errors_nil herrors) (hfree.mono hmoved'.pending)
        rw [bind_ok hstep']
        exact ih hq' hq t₁ t₂ q₁ s₁' htwin' hr herrors hfree

end

end Pieces

section

variable {B : Bond} {below₁ below₂ : Below} {C : Option TokenKind → Prop}
  {start start' stop stop' : Nat}
  {indent : Nat} {quote : Option Char} {span span' : Span}

theorem interpolated_inStep (hbelow : below₁.InStep below₂ B) (hstart : B.Place start start')
    (hstop : B.Place stop stop') :
    InStep B .inside C (interpolated below₁ span start stop indent quote)
      (interpolated below₂ span' start' stop' indent quote) := by
  have hunknown : ¬(Ground.unknown B.left).known := not_false
  have hreads : Reads (.unknown B.left) false false 0
      (interpolated below₁ span start stop indent quote) :=
    interpolated_reads hbelow.reads (fun hG => absurd hG hunknown) (absurd · hunknown)
  refine ⟨fun s hs => hreads.moves hs, nofun, fun s₁ s₂ n s₁' htwin _ hr herrors hfree => ?_⟩
  obtain ⟨front, text, back, htext, ho₁, ho₂, hslice₁, hslice₂, -⟩ := hstart.between hstop
  have h : Pieces.Twin B
      { parts := [], literal := [], since := start, margin := indent, offset := start,
        rest := text }
      { parts := [], literal := [], since := start', margin := indent, offset := start',
        rest := text } :=
    ⟨rfl, rfl, rfl, rfl, front, back, htext, ho₁, ho₂⟩
  have hrun := @Pieces.run_inStep _ _ _ _ _ indent stop stop' quote hbelow _ h (Nat.le_refl _)
  have hread : ∀ (src : Source) (s : State), (MonadReader.read : Parse Source) src s = .ok src s :=
    fun _ _ => rfl
  rw [interpolated, bind_ok (hread _ _)] at hr ⊢
  rw [hslice₁] at hr
  rw [hslice₂]
  cases hp : Pieces.run below₁ indent quote stop text.length
      { parts := [], literal := [], since := start, margin := indent, offset := start,
        rest := text }
      B.left s₁ with
  | error e t₁ =>
    rw [bind_error hp] at hr
    cases hr
  | ok p₁ t₁ =>
    rw [bind_ok hp] at hr
    generalize hleft : (p₁.flush B.left stop).parts.reverse = parts at hr
    -- What is made of the parts does not move.
    obtain rfl : t₁ = s₁' := by split at hr <;> cases hr <;> rfl
    obtain ⟨p₂, t₂, hp', hpieces, htwin'⟩ := hrun s₁ s₂ p₁ t₁ htwin hp herrors hfree
    rw [bind_ok hp']
    generalize hright : (p₂.flush B.right stop').parts.reverse = parts'
    have hparts : unplaced parts = unplaced parts' := by
      rw [← hleft, ← hright, unplaced_reverse, unplaced_reverse,
        (hpieces.unplaced_flush B.left B.right stop stop').1]
    have hkinds : parts.all (·.kind == .stringFragment) =
      parts'.all (·.kind == .stringFragment) := by
      have hall : ∀ nodes : List Node, nodes.all (·.kind == .stringFragment) =
          (nodes.map Node.kind).all (· == .stringFragment) := fun nodes => by
        rw [List.all_map]
        rfl
      rw [hall, hall, map_of_unplaced hparts fun _ _ => kind_of_unplaced]
    rw [← hkinds]
    split at hr
    · rw [if_pos ‹_›]
      obtain ⟨rfl, -⟩ := EStateM.Result.ok.inj hr
      refine ⟨_, t₂, rfl, ?_, htwin'⟩
      rw [unplaced_leaf, unplaced_leaf, map_of_unplaced hparts fun _ _ => textD_of_unplaced]
    · rw [if_neg ‹_›]
      obtain ⟨rfl, -⟩ := EStateM.Result.ok.inj hr
      exact ⟨_, t₂, rfl, by rw [unplaced_ofKind, unplaced_ofKind, hparts], htwin'⟩

/-! ### Literals -/

theorem number_inStep : InStep B .inside C number number := by
  unfold number
  refine .next (.unexpected _) fun tok tok' htok => .pure ?_
  obtain ⟨hkind, htext⟩ := unplaced_token.1 htok
  simp [hkind, htext]

theorem plainString_inStep : InStep B .inside C plainString plainString := by
  unfold plainString
  exact .bind expect_inStep fun tok tok' htok => .pure (by simp [(unplaced_token.1 htok).2])

/-- Text in double quotes or in back quotes. -/
theorem templateString_inStep (hbelow : below₁.InStep below₂ B)
    (hC : ∀ k, C (some k) → k.isTemplate = true) :
    InStep B .inside C (templateString below₁) (templateString below₂) := by
  have hunknown : ¬(Ground.unknown B.left).known := not_false
  have hreads : Reads (.unknown B.left) false false 0 (templateString below₁) := by
    unfold templateString
    refine .bind advance_reads fun tok htok => ?_
    cases tok with
    | none => exact .unexpected
    | some tok =>
      exact interpolated_reads hbelow.reads (fun hG => absurd hG hunknown) (absurd · hunknown)
  have hmoves := fun s hs => hreads.moves (s := s) hs
  unfold templateString at hmoves ⊢
  refine .nextAt hmoves (.unexpected _) fun tok tok' htok hkind => ?_
  obtain ⟨quote, body, htext, hquote⟩ := htok.quoted (hC _ hkind)
  have hone : byteSize [quote] = 1 := by rw [byteSize_cons, hquote]; rfl
  have hstart := htok.place (show [quote] <+: _ by rw [htext]; exact ⟨body ++ [quote], rfl⟩)
  have hstop := htok.place (show quote :: body <+: _ by rw [htext]; exact ⟨[quote], rfl⟩)
  have hend : ∀ {tok : Token},
    tok.span.stop = tok.span.start + byteSize (quote :: (body ++ [quote])) →
      max (tok.span.stop - 1) (tok.span.start + 1) = tok.span.start + byteSize (quote :: body) := by
    intro tok hstop
    rw [hstop, byteSize_cons, byteSize_append, hone, byteSize_cons, hquote]
    omega
  rw [hone] at hstart
  rw [← hend (htext ▸ htok.stop₁), ← hend (by rw [← htext, htok.text]; exact htok.stop₂)] at hstop
  dsimp only
  rw [← htok.text]
  exact interpolated_inStep hbelow hstart hstop

theorem heredocString_inStep (hbelow : below₁.InStep below₂ B) :
    InStep B .inside C (heredocString below₁) (heredocString below₂) := by
  have hunknown : ¬(Ground.unknown B.left).known := not_false
  have hreads : Reads (.unknown B.left) false false 0 (heredocString below₁) := by
    unfold heredocString
    refine .bind advance_reads fun tok htok => ?_
    cases tok with
    | none => exact .unexpected
    | some tok =>
      dsimp only
      split
      · exact .unexpected
      · refine .ite (fun _ => .read (.pure (fun hG => absurd hG hunknown) (by simp))) fun _ => ?_
        exact interpolated_reads hbelow.reads (fun hG => absurd hG hunknown) (absurd · hunknown)
  have hmoves := fun s hs => hreads.moves (s := s) hs
  unfold heredocString at hmoves ⊢
  refine .nextAt hmoves (.unexpected _) fun tok tok' htok _ => ?_
  dsimp only
  rw [← htok.text, ← htok.kind]
  cases hbody : heredocBody? tok.text.toList with
  | none => exact .unexpected _
  | some body =>
    obtain ⟨⟨front, hfront, hoffset⟩, front', hfront', hsize⟩ := heredocBody?_places hbody
    have hstart := htok.place hfront
    have hstop := htok.place hfront'
    rw [hoffset] at hstart
    rw [hsize, ← Nat.add_assoc, ← Nat.add_assoc] at hstop
    refine .ite (fun _ => .read (.pure ?_)) fun _ => interpolated_inStep hbelow hstart hstop
    rw [hstart.slice hstop, unplaced_leaf, unplaced_leaf]

end

end PhpCheck.Grammar
