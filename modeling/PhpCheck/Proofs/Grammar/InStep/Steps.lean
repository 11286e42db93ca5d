import PhpCheck.Proofs.Grammar.InStep.Basic
import PhpCheck.Proofs.Grammar.Starts

/-!
The steps that productions are made of, in step: consuming tokens, taking places, repeating
rounds, and going on after a failure.
-/

namespace PhpCheck.Grammar

/-! ### Tokens -/

section

variable {α β : Type} [Unplaced α] [Unplaced β] {B : Bond} {m m₁ m₂ : Manner}
  {C : Option TokenKind → Prop} {s s' s₁ s₂ : State} {t : Token} {k : TokenKind}

/-- The two results are there or not together. -/
theorem unplaced_cases {a a' : Option α} (h : unplaced a = unplaced a') :
    (a = none ∧ a' = none) ∨ ∃ x x', a = some x ∧ a' = some x' ∧ unplaced x = unplaced x' := by
  cases a with
  | none =>
    cases a' with
    | none => exact .inl ⟨rfl, rfl⟩
    | some x' => cases h
  | some x =>
    cases a' with
    | none => cases h
    | some x' => exact .inr ⟨x, x', rfl, rfl, Option.some.inj h⟩

theorem moves_advance (hs : s.Stands (.unknown B.left)) :
    Moves B.left s (advance B.left s) := Step.advance hs

theorem advance_inStep : InStep B .inside C advance advance := by
  refine ⟨fun s hs => moves_advance hs, nofun, fun s₁ s₂ a₁ s₁' htwin _ hr _ hfree => ?_⟩
  obtain ⟨rfl, rfl⟩ := EStateM.Result.ok.inj hr
  have hfree' : B.Free s₁ := Bond.Free.mono hfree (Step.advance htwin.stands).pending
  exact ⟨s₂.current, s₂.advance, rfl, htwin.unplaced_current hfree', htwin.advance hfree'⟩

theorem discard_advance_inStep : InStep B .inside C (discard advance) (discard advance) :=
  .discard advance_inStep

theorem eat_inStep : InStep B .inside C (eat k) (eat k) := by
  unfold eat
  exact .branch advance_inStep (.pure rfl)

theorem eats_inStep : InStep B .inside C (eats k) (eats k) := by
  unfold eats
  refine .bind eat_inStep fun a a' ha => .pure ?_
  obtain ⟨rfl, rfl⟩ | ⟨x, x', rfl, rfl, -⟩ := unplaced_cases ha <;> rfl

namespace InStep

theorem next [Manner.Before .inside m] {f g : Option Token → Parse β}
    (hnone : InStep B m Any (f none) (g none))
    (hsome : ∀ t t', unplaced t = unplaced t' → InStep B m Any (f (some t)) (g (some t'))) :
    InStep B m C (advance >>= f) (advance >>= g) := by
  refine .bind advance_inStep fun a a' ha => ?_
  obtain ⟨rfl, rfl⟩ | ⟨t, t', rfl, rfl, ht⟩ := unplaced_cases ha
  · exact hnone
  · exact hsome t t' ht

theorem eat [Manner.Before .inside m] {f g : Option Token → Parse β}
    (hsome : ∀ t t', unplaced t = unplaced t' → InStep B m Any (f (some t)) (g (some t')))
    (hnone : InStep B m Any (f none) (g none)) :
    InStep B m C (eat k >>= f) (eat k >>= g) := by
  refine .bind eat_inStep fun a a' ha => ?_
  obtain ⟨rfl, rfl⟩ | ⟨t, t', rfl, rfl, ht⟩ := unplaced_cases ha
  · exact hnone
  · exact hsome t t' ht

/-- Whether a token was eaten is the same in both texts. -/
theorem ate [Manner.Before .inside m] {f g : Bool → Parse β}
    (hf : ∀ x, InStep B m Any (f x) (g x)) :
    InStep B m C (Grammar.eats k >>= f) (Grammar.eats k >>= g) := by
  refine .bind eats_inStep fun x x' hx => ?_
  obtain rfl : x = x' := hx
  exact hf x

theorem eats [Manner.Before .inside m] {p q p' q' : Parse β} (hp : InStep B m Any p q)
    (hq : InStep B m Any p' q') :
    InStep B m C (Grammar.eats k >>= fun x => if x = true then p else p')
      (Grammar.eats k >>= fun x => if x = true then q else q') :=
  .ate fun _ => .ite (fun _ => hp) fun _ => hq

end InStep

theorem expect_inStep {what : String} : InStep B .inside C (expect k what) (expect k what) := by
  unfold expect
  exact .eat (fun t t' ht => .pure ht) (.unexpected _)

theorem expect_eq {src : Source} {what : String} (ht : s.current = some t) (hk : t.kind = k) :
    expect k what src s = .ok t s.advance := by
  have heat := eat_eq k src s
  rw [if_pos (by rw [ht, Option.map_some, hk]; exact beq_self_eq_true _), ht] at heat
  rw [expect, bind_ok heat]
  rfl

/-- A token that can end something was there before it was consumed. -/
theorem Bond.Within.free (hwithin : B.Within s.advance) (ht : s.current = some t)
    (hk : t.kind ∈ closing) : B.Free s := by
  obtain ⟨more, hmore⟩ := hwithin
  refine .inr ⟨t, more, hk, ?_⟩
  rw [pending_advance s, ht, hmore]
  exact List.suffix_refl _

theorem expect_ends {what : String} (hk : k ∈ closing) :
    InStep B .ends C (expect k what) (expect k what) := by
  have hleaves : ∀ s a s', expect k what B.left s = .ok a s' → B.Within s' → B.Free s := by
    intro s t s' hr hwithin
    obtain ⟨ht, hkind, rfl⟩ := expect_ok hr
    exact hwithin.free ht (hkind ▸ hk)
  refine ⟨(expect_inStep (C := C)).moves, fun _ s a s' _ => hleaves s a s',
    fun s₁ s₂ t₁ s₁' htwin _ hr _ hwithin => ?_⟩
  have hfree := hleaves s₁ t₁ s₁' hr hwithin
  obtain ⟨ht, hkind, rfl⟩ := expect_ok hr
  obtain ⟨hnone, -⟩ | ⟨u₁, u₂, hu₁, hu₂, hu⟩ := htwin.current hfree
  · rw [hnone] at ht
    cases ht
  · obtain rfl := Option.some.inj (ht.symm.trans hu₁)
    exact ⟨u₂, s₂.advance, expect_eq hu₂ (hu.kind ▸ hkind), hu.unplaced, htwin.advance hfree⟩

theorem eats_eq (k : TokenKind) (src : Source) (s : State) : eats k src s =
    if (s.current.map (·.kind) == some k) = true then .ok true s.advance else .ok false s := by
  have heat := eat_eq k src s
  by_cases hk : (s.current.map (·.kind) == some k) = true
  · rw [if_pos hk] at heat ⊢
    rw [eats, bind_ok heat, isSome_of_map_eq hk]
    rfl
  · rw [if_neg hk] at heat ⊢
    rw [eats, bind_ok heat]
    rfl

/-- No token behind the shared ones is a closing tag. -/
theorem Bond.Within.free_closeTag (hwithin : B.Within s) (ht : s.current = some t)
    (hk : t.kind = .closeTag) : B.Free s := by
  rw [Bond.Within, State.pending_of_current ht, List.suffix_cons_iff] at hwithin
  cases htail : B.tail₁ with
  | nil => exact .inl htail
  | cons u us =>
    obtain ⟨hcode, hclose, -⟩ := B.head₁ u (htail ▸ rfl)
    rcases hwithin with heq | ⟨more, hmore⟩
    · rw [Bond.after, htail, significant_cons hcode] at heq
      obtain ⟨rfl, -⟩ := List.cons.inj heq
      exact absurd hk hclose
    · refine .inr ⟨t, more, hk ▸ by decide, ?_⟩
      rw [State.pending_of_current ht, ← hmore]

/-- At the end of a text that has not been passed there are no tokens behind the shared ones. -/
theorem Bond.Within.free_atEnd {G : Ground} (hwithin : B.Within s) (hs : s.Stands G)
    (hnone : s.current = none) : B.Free s := by
  rw [Bond.Within, State.pending, hnone, hs.settled hnone] at hwithin
  cases htail : B.tail₁ with
  | nil => exact .inl htail
  | cons u us =>
    have hnil := List.suffix_nil.1 hwithin
    rw [Bond.after, htail, significant_cons (B.head₁ u (htail ▸ rfl)).1] at hnil
    cases hnil

/-- The three ways in which a statement may end. -/
theorem expectSemicolon_eq (src : Source) (s : State) : expectSemicolon src s =
    if (s.current.map (·.kind) == some .semicolon) = true then .ok () s.advance
    else if (s.current.map (·.kind) == some .closeTag || s.current.isNone) = true then .ok () s
    else unexpected "';'" src s := by
  have heats := eats_eq .semicolon src s
  by_cases hk : (s.current.map (·.kind) == some .semicolon) = true
  · rw [if_pos hk] at heats ⊢
    rw [expectSemicolon, bind_ok heats]
    rfl
  · rw [if_neg hk] at heats ⊢
    rw [expectSemicolon, bind_ok heats]
    show (if (false || s.current.map (·.kind) == some .closeTag || s.current.isNone) = true then
      pure ()
      else unexpected "';'" : Parse Unit) src s = _
    rw [Bool.false_or]
    split <;> rfl

theorem expectSemicolon_ends : InStep B .ends C expectSemicolon expectSemicolon := by
  have hleaves : ∀ s a s', s.Stands (.unknown B.left) → expectSemicolon B.left s = .ok a s' →
      B.Within s' → B.Free s := by
    intro s u s' hs hr hwithin
    rw [expectSemicolon_eq] at hr
    split at hr
    · rename_i hk
      obtain ⟨t, ht, hkind⟩ := Option.map_eq_some_iff.1 (beq_iff_eq.1 hk)
      obtain ⟨-, rfl⟩ := EStateM.Result.ok.inj hr
      exact hwithin.free ht (hkind ▸ by decide)
    split at hr
    · rename_i hk
      obtain ⟨-, rfl⟩ := EStateM.Result.ok.inj hr
      rcases Bool.or_eq_true_iff.1 hk with hclose | hnone
      · obtain ⟨t, ht, hkind⟩ := Option.map_eq_some_iff.1 (beq_iff_eq.1 hclose)
        exact hwithin.free_closeTag ht hkind
      · exact hwithin.free_atEnd hs (Option.isNone_iff_eq_none.1 hnone)
    · exact absurd hr unexpected_ne_ok
  refine ⟨fun s hs => (expectSemicolon_reads (w := 0)).moves hs, fun _ => hleaves,
    fun s₁ s₂ u s₁' htwin _ hr _ hwithin => ?_⟩
  have hfree := hleaves s₁ u s₁' htwin.stands hr hwithin
  have hkind := htwin.kind hfree
  have hnone : s₁.current.isNone = s₂.current.isNone := by
    rw [← Option.isNone_map (f := (·.kind)), hkind, Option.isNone_map]
  have hright := expectSemicolon_eq B.right s₂
  rw [← hkind, ← hnone] at hright
  rw [expectSemicolon_eq] at hr
  split at hr
  · rw [if_pos ‹_›] at hright
    obtain ⟨rfl, rfl⟩ := EStateM.Result.ok.inj hr
    exact ⟨(), s₂.advance, hright, rfl, htwin.advance hfree⟩
  rw [if_neg ‹_›] at hright
  split at hr
  · rw [if_pos ‹_›] at hright
    obtain ⟨rfl, rfl⟩ := EStateM.Result.ok.inj hr
    exact ⟨(), s₂, hright, rfl, htwin⟩
  · exact absurd hr unexpected_ne_ok

end

/-! ### Places and nodes -/

section

variable {α β : Type} [Unplaced α] [Unplaced β] {B : Bond} {m m₁ m₂ : Manner}
  {C : Option TokenKind → Prop} {s s' s₁ s₂ : State} {start start' : Nat} {kind : NodeKind}
  {children children' : List Node}

theorem currentSpan_ok (src : Source) (s : State) : ∃ span, currentSpan src s = .ok span s := by
  rw [currentSpan, bind_ok (show (get : Parse State) src s = .ok s s from rfl)]
  cases s.current <;> exact ⟨_, rfl⟩

namespace InStep

theorem here {f g : Nat → Parse β} (hf : ∀ start start', InStep B m C (f start) (g start')) :
    InStep B m C (here >>= f) (here >>= g) :=
  place (fun _ _ => ⟨_, rfl⟩) (fun _ _ => ⟨_, rfl⟩) hf

theorem spanFrom {f g : Span → Parse β} (hf : ∀ span span', InStep B m C (f span) (g span')) :
    InStep B m C (spanFrom start >>= f) (spanFrom start' >>= g) :=
  place (fun _ _ => ⟨_, rfl⟩) (fun _ _ => ⟨_, rfl⟩) hf

theorem currentSpan {f g : Span → Parse β} (hf : ∀ span span', InStep B m C (f span) (g span')) :
    InStep B m C (currentSpan >>= f) (currentSpan >>= g) :=
  place currentSpan_ok currentSpan_ok hf

theorem takeDoc {f g : Option Node → Parse β}
    (hf : ∀ doc doc', unplaced doc = unplaced doc' → InStep B m C (f doc) (g doc')) :
    InStep B m C (takeDoc >>= f) (takeDoc >>= g) := by
  have hself : ∀ doc, InStep B m C (f doc) (g doc) := fun doc => hf doc doc rfl
  have hstep : ∀ {s}, s.Stands (.unknown B.left) →
      Step (.unknown B.left) s { s with doc := none } := fun hs =>
    ⟨⟨hs.settled, hs.current, fun hG => absurd hG (unknown_not_known _), hs.prevEnd, hs.rest,
      hs.errors⟩, List.suffix_refl _, Nat.le_refl _, Nat.le_refl _⟩
  refine ⟨fun s hs => ?_, fun hends s a s' hs hr hwithin => ?_,
    fun s₁ s₂ a₁ s₁' htwin hC hr herrors hholds => ?_⟩
  · exact ((hself _).moves _ (hstep hs).stands).trans (hstep hs)
  · exact (hself _).leaves hends { s with doc := none } a s' (hstep hs).stands hr hwithin
  · have hdoc : unplaced (s₁.doc.map fun tok => Node.leaf .docComment tok.span tok.text) =
        unplaced (s₂.doc.map fun tok => Node.leaf .docComment tok.span tok.text) := by
      obtain ⟨h₁, h₂⟩ | ⟨t, t', h₁, h₂, ht⟩ := unplaced_cases htwin.doc
      · rw [h₁, h₂]
      · rw [h₁, h₂, Option.map_some, Option.map_some, unplaced_some, unplaced_some, unplaced_leaf,
          unplaced_leaf, (unplaced_token.1 ht).2]
    have htwin' : B.Twin { s₁ with doc := none } { s₂ with doc := none } :=
      ⟨htwin.errors₁, htwin.errors₂, htwin.prevEnd, rfl, by
        obtain ⟨ts₁, ts₂, hts, hfaces₁, hfaces₂⟩ := htwin.faces
        exact ⟨ts₁, ts₂, hts, ⟨hfaces₁.current, hfaces₁.rest, hfaces₁.code⟩,
          ⟨hfaces₂.current, hfaces₂.rest, hfaces₂.code⟩⟩⟩
    exact (hf _ _ hdoc).run _ _ a₁ s₁' htwin' hC hr herrors hholds

end InStep

theorem nodeFrom_inStep [m.Idle] (hchildren : unplaced children = unplaced children') :
    InStep B m C (nodeFrom kind start children) (nodeFrom kind start' children') := by
  unfold nodeFrom
  exact .spanFrom fun span span' => .pure (by rw [unplaced_ofKind, unplaced_ofKind, hchildren])

namespace InStep

variable {c : Prop} [Decidable c] {field : String} {p q : Parse Node} {f g : List Node → Parse β}

/-- A part that there is under a condition. -/
theorem partIf [m₁.Before m] (hp : InStep B m₁ C p q)
    (hf : ∀ {C} (parts parts' : List Node), unplaced parts = unplaced parts' →
      InStep B m C (f parts) (g parts')) :
    InStep B m C
      (if c then p >>= fun n => Pure.pure [n.inField field] >>= f else Pure.pure [] >>= f)
      (if c then q >>= fun n => Pure.pure [n.inField field] >>= g else Pure.pure [] >>= g) :=
  .ite (fun _ => .bind hp fun n n' hn => .given (hf _ _ (by simp [hn]))) fun _ =>
    .given (hf _ _ rfl)

/-- A part that there is unless a condition holds. -/
theorem partUnless [m₁.Before m] (hp : InStep B m₁ C p q)
    (hf : ∀ {C} (parts parts' : List Node), unplaced parts = unplaced parts' →
      InStep B m C (f parts) (g parts')) :
    InStep B m C
      (if c then Pure.pure [] >>= f else p >>= fun n => Pure.pure [n.inField field] >>= f)
      (if c then Pure.pure [] >>= g else q >>= fun n => Pure.pure [n.inField field] >>= g) := by
  rw [← ite_not, ← ite_not (p := c)]
  exact partIf hp hf

/-- What ends something is a part, or something else that gives none. -/
theorem partOr {p' q' : Parse Unit} (hp : InStep B .ends C p q) (hq : InStep B .ends C p' q')
    (hf : ∀ parts parts' : List Node, unplaced parts = unplaced parts' →
      InStep B .plain Any (f parts) (g parts')) :
    InStep B .ends C
      (if c then p >>= fun n => Pure.pure [n.inField field] >>= f
        else p' >>= fun _ => Pure.pure [] >>= f)
      (if c then q >>= fun n => Pure.pure [n.inField field] >>= g
        else q' >>= fun _ => Pure.pure [] >>= g) :=
  .ite (fun _ => .close hp fun n n' hn => .given (hf _ _ (by simp [hn])))
    fun _ => .close hq fun _ _ _ => .given (hf _ _ rfl)

end InStep

/-- A node whose text is what stands between two places. -/
theorem spanText_inStep [hm : m.Idle] (hstart : B.Place start start') :
    InStep B m C
      (spanFrom start >>= fun span => compactText span >>= fun text =>
        pure (Node.leaf kind span text))
      (spanFrom start' >>= fun span => compactText span >>= fun text =>
        pure (Node.leaf kind span text)) := by
  refine ⟨fun s hs => .refl hs, fun hends => absurd hends hm.ne,
    fun s₁ s₂ a₁ s₁' htwin _ hr _ _ => ?_⟩
  obtain ⟨rfl, rfl⟩ := EStateM.Result.ok.inj hr
  refine ⟨_, s₂, rfl, ?_, htwin⟩
  rw [unplaced_leaf, unplaced_leaf]
  exact congrArg (fun text =>
    Node.leaf kind default (String.ofList (text.filter (!isWhitespace ·))))
    (hstart.slice (htwin.place_max hstart))

/-- The place at which a production begins is one of the shared part. -/
theorem InStep.hereAt {f g : Nat → Parse β}
    (hmoves : ∀ s, s.Stands (.unknown B.left) → Moves B.left s ((Grammar.here >>= f) B.left s))
    (hf : ∀ start start', B.Place start start' → InStep B .inside C (f start) (g start')) :
    InStep B .inside C (Grammar.here >>= f) (Grammar.here >>= g) := by
  refine ⟨hmoves, nofun, fun s₁ s₂ a₁ s₁' htwin hC hr herrors hfree => ?_⟩
  have hstep : Step (.unknown B.left) s₁ s₁' := by
    have hmoves' := hmoves s₁ htwin.stands
    rwa [hr] at hmoves'
  have hfree' : B.Free s₁ := Bond.Free.mono hfree hstep.pending
  have hplace : B.Place ((s₁.current.map (·.span.start)).getD B.left.size)
      ((s₂.current.map (·.span.start)).getD B.right.size) := by
    obtain ⟨hnil₁, hnil₂, hfaces₁, hfaces₂⟩ | ⟨t₁, t₂, ts₁, ts₂, ht, -, hfaces₁, hfaces₂, -⟩ :=
      htwin.shared hfree'
    · obtain ⟨-, hleft, hright⟩ := B.closed hnil₁
      rw [hfaces₁.current, hfaces₂.current]
      exact ⟨B.text, [], (List.append_nil _).symm, hleft, hright⟩
    · rw [hfaces₁.current, hfaces₂.current]
      exact ht.start
  exact (hf _ _ hplace).run s₁ s₂ a₁ s₁' htwin hC hr herrors hfree

/-- The token at which a production begins is one of the shared part. -/
theorem InStep.nextAt {f g : Option Token → Parse β}
    (hmoves : ∀ s, s.Stands (.unknown B.left) → Moves B.left s ((advance >>= f) B.left s))
    (hnone : InStep B .inside Any (f none) (g none))
    (hsome : ∀ t t', B.Same t t' → C (some t.kind) →
      InStep B .inside Any (f (some t)) (g (some t'))) :
    InStep B .inside C (advance >>= f) (advance >>= g) := by
  refine ⟨hmoves, nofun, fun s₁ s₂ a₁ s₁' htwin hC hr herrors hfree => ?_⟩
  have hstep : Step (.unknown B.left) s₁ s₁' := by
    have hmoves' := hmoves s₁ htwin.stands
    rwa [hr] at hmoves'
  have hfree' : B.Free s₁ := Bond.Free.mono hfree hstep.pending
  have htwin' := htwin.advance hfree'
  have hleft : advance B.left s₁ = .ok s₁.current s₁.advance := rfl
  have hright : advance B.right s₂ = .ok s₂.current s₂.advance := rfl
  rw [bind_ok hleft] at hr
  rw [bind_ok hright]
  obtain ⟨h₁, h₂⟩ | ⟨t₁, t₂, h₁, h₂, ht⟩ := htwin.current hfree'
  · rw [h₁] at hr
    rw [h₂]
    exact hnone.run _ _ a₁ s₁' htwin' trivial hr herrors hfree
  · rw [h₁] at hr hC
    rw [h₂]
    exact (hsome t₁ t₂ ht hC).run _ _ a₁ s₁' htwin' trivial hr herrors hfree

end

/-! ### Repetition -/

section

variable {α β : Type} [Unplaced α] [Unplaced β] {B : Bond} {m : Manner}
  {C : Option TokenKind → Prop} {s₁ s₂ s₁' : State} {round round' : α → Parse (Round α)}

theorem stall_error {α : Type} (src : Source) (s : State) :
    ∃ e, (stall : Parse α) src s = .error e s := by
  obtain ⟨span, hspan⟩ := currentSpan_ok src s
  exact ⟨{ fault := .stalled, span }, by rw [stall, bind_ok hspan]; rfl⟩

theorem rounds_moves
    (hround : ∀ a a', unplaced a = unplaced a' → InStep B m Any (round a) (round' a'))
    (fuel : Nat) (a : α) (s : State) (hs : s.Stands (.unknown B.left)) :
    Moves B.left s (rounds round fuel a B.left s) := by
  induction fuel generalizing a s with
  | zero =>
    obtain ⟨e, he⟩ := stall_error (α := α) B.left s
    rw [rounds, he]
    exact .refl hs
  | succ fuel ih =>
    have hmoves := (hround a a rfl).moves s hs
    cases hr : round a B.left s with
    | error e s' =>
      rw [hr] at hmoves
      rw [rounds_error hr]
      exact hmoves
    | ok r s' =>
      have hstep := (hround a a rfl).step hs hr
      cases r with
      | done b =>
        rw [rounds_done hr]
        exact hstep
      | more b =>
        rw [rounds_more hr]
        exact (ih b s' hstep.stands).trans hstep

/-- Where rounds are in step, so are as many rounds or more. -/
theorem rounds_run
    (hround : ∀ a a', unplaced a = unplaced a' → InStep B m Any (round a) (round' a'))
    {fuel fuel' : Nat} (hfuel : fuel ≤ fuel') {a a' b : α} (ha : unplaced a = unplaced a')
    (htwin : B.Twin s₁ s₂) (hr : rounds round fuel a B.left s₁ = .ok b s₁')
    (herrors : s₁'.errors = []) (hholds : m.Holds B s₁') :
    ∃ b' s₂', rounds round' fuel' a' B.right s₂ = .ok b' s₂' ∧ unplaced b = unplaced b' ∧
      B.Twin s₁' s₂' := by
  induction fuel generalizing fuel' a a' s₁ s₂ with
  | zero =>
    obtain ⟨e, he⟩ := stall_error (α := α) B.left s₁
    rw [rounds, he] at hr
    cases hr
  | succ fuel ih =>
    obtain ⟨fuel', rfl⟩ := Nat.exists_eq_add_of_le' (Nat.lt_of_lt_of_le (Nat.succ_pos _) hfuel)
    cases hround₁ : round a B.left s₁ with
    | error e t₁ =>
      rw [rounds_error hround₁] at hr
      cases hr
    | ok r t₁ =>
      have hstep := (hround a a' ha).step htwin.stands hround₁
      cases r with
      | done c =>
        rw [rounds_done hround₁] at hr
        obtain ⟨rfl, rfl⟩ := EStateM.Result.ok.inj hr
        obtain ⟨r', t₂, hround₂, hc, htwin'⟩ :=
          (hround a a' ha).run s₁ s₂ _ _ htwin trivial hround₁ herrors hholds
        cases r' with
        | more c' => cases hc
        | done c' => exact ⟨c', t₂, rounds_done hround₂, Round.done.inj hc, htwin'⟩
      | more c =>
        rw [rounds_more hround₁] at hr
        have hrest : Step (.unknown B.left) t₁ s₁' := by
          have hmoves := rounds_moves hround fuel c t₁ hstep.stands
          rwa [hr] at hmoves
        obtain ⟨r', t₂, hround₂, hc, htwin'⟩ := (hround a a' ha).run s₁ s₂ _ _ htwin trivial hround₁
          (hrest.errors_nil herrors) (hholds.mono hrest.pending)
        cases r' with
        | done c' => cases hc
        | more c' =>
          rw [rounds_more hround₂]
          exact ih (Nat.le_of_succ_le_succ hfuel) (Round.more.inj hc) htwin' hr

theorem repeated_inStep [hm : m.Idle] {init init' : α} (hinit : unplaced init = unplaced init')
    (hround : ∀ a a', unplaced a = unplaced a' → InStep B m Any (round a) (round' a')) :
    InStep B m C (repeated init round) (repeated init' round') := by
  refine ⟨fun s hs => rounds_moves hround _ init s hs, fun hends => absurd hends hm.ne,
    fun s₁ s₂ a₁ s₁' htwin _ hr herrors hholds => ?_⟩
  exact rounds_run hround (Nat.add_le_add_right htwin.length_le 2) hinit htwin hr herrors hholds

/-- What follows a repetition of rounds. -/
theorem InStep.loop [Manner.Before .inside m] {init init' : α} {f g : α → Parse β}
    (hinit : unplaced init = unplaced init')
    (hround : ∀ a a', unplaced a = unplaced a' → InStep B .inside Any (round a) (round' a'))
    (hf : ∀ a a', unplaced a = unplaced a' → InStep B m Any (f a) (g a')) :
    InStep B m C (repeated init round >>= f) (repeated init' round' >>= g) :=
  have hrepeated : InStep B .inside C (repeated init round) (repeated init' round') :=
    repeated_inStep hinit hround
  hrepeated.bind hf

/-- What follows a repetition of rounds, each of which may end with the shared part. -/
theorem InStep.loopOn {init init' : α} {f g : α → Parse β} (hinit : unplaced init = unplaced init')
    (hround : ∀ a a', unplaced a = unplaced a' → InStep B .plain Any (round a) (round' a'))
    (hf : ∀ a a', unplaced a = unplaced a' → InStep B .plain Any (f a) (g a')) :
    InStep B .plain C (repeated init round >>= f) (repeated init' round' >>= g) :=
  have hrepeated : InStep B .plain C (repeated init round) (repeated init' round') :=
    repeated_inStep hinit hround
  hrepeated.bind hf

/-- A round with which the repetition goes on. -/
theorem InStep.more {p q : Parse α} (hp : InStep B .inside C p q) :
    InStep B .inside C (p >>= fun a => Pure.pure (Round.more a))
      (q >>= fun a => Pure.pure (Round.more a)) :=
  .bind hp fun _ _ ha => .pure (congrArg Round.more ha)

/-- At least as many tokens are left in the other text. -/
theorem InStep.bounded {f g : Nat → Parse β}
    (hf : ∀ fuel fuel', fuel ≤ fuel' → InStep B m C (f fuel) (g fuel')) :
    InStep B m C (get >>= fun s => f s.rest.length) (get >>= fun s => g s.rest.length) := by
  have hself : ∀ fuel, InStep B m C (f fuel) (g fuel) := fun fuel => hf fuel fuel (Nat.le_refl _)
  exact ⟨fun s hs => (hself _).moves s hs, fun hends s a s' hs hr =>
    (hself _).leaves hends s a s' hs hr,
    fun s₁ s₂ a₁ s₁' htwin => (hf _ _ htwin.length_le).run s₁ s₂ a₁ s₁' htwin⟩

theorem commaList_inStep {stop : Parse Bool} [Tests stop] {item item' : Parse α}
    (hitem : ∀ {C}, InStep B .inside C item item') :
    InStep B .inside C (commaList stop item) (commaList stop item') := by
  unfold commaList
  refine .loop rfl (fun items items' hitems => ?_)
    fun items items' hitems => .pure (by simpa using hitems)
  refine .test fun ends => .test fun stops => .ite (fun _ => .pure (by simpa using hitems)) fun _ =>
    ?_
  refine .bind hitem fun a a' ha => .eats (.pure ?_) (.pure ?_)
  · simp [ha, hitems]
  · simp [ha, hitems]

theorem separated_inStep {separator : TokenKind} {item item' : Parse α}
    (hitem : ∀ {C}, InStep B .inside C item item') :
    InStep B .inside C (separated separator item) (separated separator item') := by
  unfold separated
  refine .bind hitem fun first first' hfirst => ?_
  refine .loop (by simp [hfirst]) (fun items items' hitems => ?_)
    fun items items' hitems => .pure (by simpa using hitems)
  refine .eats (.bind hitem fun a a' ha => .pure ?_) (.pure ?_)
  · simp [ha, hitems]
  · simp [hitems]

end

/-! ### Recovery -/

section

variable {α β : Type} [Unplaced α] [Unplaced β] {B : Bond} {m m₁ : Manner}
  {C : Option TokenKind → Prop} {s s' : State}

/-- What follows a failure notes a fault. -/
def Notes (src : Source) (s : State) : EStateM.Result SyntaxError State β → Prop
  | .ok _ s' => Step (.unknown src) s s' ∧ s'.errors ≠ []
  | .error _ s' => Step (.unknown src) s s'

omit [Unplaced β] in
/-- A fault is noted, some tokens are skipped, and reading goes on. -/
theorem notes_note [Result β] {src : Source} {skip : Parse Unit} {f : Unit → Parse β} {w : Nat}
    (e : SyntaxError) (hs : s.Stands (.unknown src))
    (hskip : ∀ s : State, s.Stands (.unknown src) →
      ∃ s', skip src s = .ok () s' ∧ Step (.unknown src) s s')
    (hf : Reads (.unknown src) false false w (f ())) :
    Notes src s ((note e >>= fun _ => skip >>= f) src s) := by
  have hunknown := unknown_not_known src
  have hnoted : Step (.unknown src) s { s with errors := s.errors ++ [e] } :=
    ⟨⟨hs.settled, (absurd · hunknown), (absurd · hunknown), (absurd · hunknown),
      (absurd · hunknown), (absurd · hunknown)⟩,
        List.suffix_refl _, by simp, by simp [State.faults]⟩
  obtain ⟨s', hskip, hstep⟩ := hskip _ hnoted.stands
  have hfair : Fair (.unknown src) s' false w (f () src s') :=
    hf s' hstep.stands (absurd · Bool.false_ne_true)
  have hrun : (note e >>= fun _ => skip >>= f) src s = f () src s' := by
    rw [bind_ok (show note e src s = .ok () { s with errors := s.errors ++ [e] } from rfl),
      bind_ok hskip]
  rw [hrun]
  generalize f () src s' = r at hfair
  cases hfair with
  | error step fits fault => exact (hnoted.trans hstep).trans step
  | ok step fits consumed errors =>
    refine ⟨(hnoted.trans hstep).trans step, fun hnil => ?_⟩
    have hnone := hstep.errors_nil (step.errors_nil hnil)
    simp at hnone

/-- A production is tried; where it fails a fault is noted. -/
theorem InStep.attempt {p q : Parse α} {f g : Except SyntaxError α → Parse β}
    (hp : InStep B m₁ C p q)
    (hok : ∀ a a', unplaced a = unplaced a' →
      InStep B .inside Any (f (.ok a)) (g (.ok a')))
    (herror : ∀ e s, s.Stands (.unknown B.left) → Notes B.left s (f (.error e) B.left s)) :
    InStep B .inside C (attempt p >>= f) (attempt q >>= g) := by
  refine ⟨fun s hs => ?_, nofun, fun s₁ s₂ a₁ s₁' htwin hC hr herrors hfree => ?_⟩
  · have hmoves := hp.moves s hs
    cases hr : p B.left s with
    | ok a s' =>
      rw [hr] at hmoves
      rw [bind_ok (show Grammar.attempt p B.left s = .ok (.ok a) s' by rw [Grammar.attempt, hr])]
      exact ((hok a a rfl).moves s' hmoves.stands).trans hmoves
    | error e s' =>
      rw [hr] at hmoves
      rw [bind_ok (show Grammar.attempt p B.left s = .ok (.error e) s' by rw [Grammar.attempt, hr])]
      have hnotes := herror e s' hmoves.stands
      generalize f (.error e) B.left s' = r at hnotes
      cases r with
      | ok b s'' => exact Step.trans hmoves hnotes.1
      | error e' s'' => exact Step.trans hmoves hnotes
  · have hmoves := hp.moves s₁ htwin.stands
    cases hp' : p B.left s₁ with
    | ok a t₁ =>
      rw [hp'] at hmoves
      rw [bind_ok (show Grammar.attempt p B.left s₁ = .ok (.ok a) t₁ by
        rw [Grammar.attempt, hp'])] at hr
      have hrest := (hok a a rfl).step hmoves.stands hr
      obtain ⟨a', t₂, hq, ha, htwin'⟩ := hp.run s₁ s₂ a t₁ htwin hC hp' (hrest.errors_nil herrors)
        (Manner.holds_of_free (Bond.Free.mono hfree hrest.pending))
      rw [bind_ok (show Grammar.attempt q B.right s₂ = .ok (.ok a') t₂ by rw [Grammar.attempt, hq])]
      exact (hok a a' ha).run t₁ t₂ a₁ s₁' htwin' trivial hr herrors hfree
    | error e t₁ =>
      rw [hp'] at hmoves
      rw [bind_ok (show Grammar.attempt p B.left s₁ = .ok (.error e) t₁ by
        rw [Grammar.attempt, hp'])] at hr
      have hnotes := herror e t₁ hmoves.stands
      rw [hr] at hnotes
      exact absurd herrors hnotes.2

/-! ### Behind the last block of a statement -/

namespace InStep

/-- A word that a statement may go on with is consumed if it is there. -/
theorem eatsOn {k : TokenKind} (hk : k ∈ continuing) {p q p' q' : Parse β}
    (hp : InStep B .plain Any p q) (hq : InStep B .plain Any p' q') :
    InStep B .plain C (Grammar.eats k >>= fun x => if x = true then p else p')
      (Grammar.eats k >>= fun x => if x = true then q else q') := by
  have heats : InStep B .plain C (Grammar.eats k) (Grammar.eats k) := by
    refine ⟨(eats_inStep (C := C)).moves, nofun, fun s₁ s₂ x s₁' htwin _ hr _ _ => ?_⟩
    have hright := eats_eq k B.right s₂
    rw [eats_eq] at hr
    obtain ⟨h₁, h₂⟩ | ⟨t₁, t₂, ht₁, ht₂, ht, htwin'⟩ := htwin.continues hk
    · rw [if_neg (Bool.eq_false_iff.1 h₁)] at hr
      rw [if_neg (Bool.eq_false_iff.1 h₂)] at hright
      obtain ⟨rfl, rfl⟩ := EStateM.Result.ok.inj hr
      exact ⟨false, s₂, hright, rfl, htwin⟩
    · have hkind : s₁.current.map (·.kind) = s₂.current.map (·.kind) := by
        rw [ht₁, ht₂, Option.map_some, Option.map_some, ht.kind]
      rw [← hkind] at hright
      split at hr
      · rw [if_pos ‹_›] at hright
        obtain ⟨rfl, rfl⟩ := EStateM.Result.ok.inj hr
        exact ⟨true, s₂.advance, hright, rfl, htwin'⟩
      · rw [if_neg ‹_›] at hright
        obtain ⟨rfl, rfl⟩ := EStateM.Result.ok.inj hr
        exact ⟨false, s₂, hright, rfl, htwin⟩
  refine .bind heats fun x x' hx => ?_
  obtain rfl : x = x' := hx
  exact .ite (fun _ => hp) fun _ => hq

/-- A word that a statement may go on with is looked for. -/
theorem branchOn {k : TokenKind} (hk : k ∈ continuing) {p q p' q' : Parse β}
    (hp : InStep B .plain C p q) (hq : InStep B .plain C p' q') :
    InStep B .plain C (check k >>= fun x => if x = true then p else p')
      (check k >>= fun x => if x = true then q else q') := by
  have hcheck : ∀ (src : Source) (s : State),
      check k src s = .ok (s.current.map (·.kind) == some k) s := fun _ _ => rfl
  refine ⟨fun s hs => ?_, nofun, fun s₁ s₂ a s₁' htwin hC hr herrors hwithin => ?_⟩
  · rw [bind_ok (hcheck B.left s)]
    exact (ite (c := (s.current.map (·.kind) == some k) = true) (fun _ => hp) fun _ =>
      hq).moves s hs
  · have hsame : (s₁.current.map (·.kind) == some k) = (s₂.current.map (·.kind) == some k) := by
      obtain ⟨h₁, h₂⟩ | ⟨t₁, t₂, ht₁, ht₂, ht, -⟩ := htwin.continues hk
      · rw [h₁, h₂]
      · rw [ht₁, ht₂, Option.map_some, Option.map_some, ht.kind]
    rw [bind_ok (hcheck B.left s₁)] at hr
    rw [bind_ok (hcheck B.right s₂), ← hsame]
    exact (ite (c := (s₁.current.map (·.kind) == some k) = true) (fun _ => hp) fun _ => hq).run
      s₁ s₂ a s₁' htwin hC hr herrors hwithin

end InStep

end

end PhpCheck.Grammar
