import PhpCheck.Proofs.Grammar.InStep.Embedded
import PhpCheck.Proofs.Grammar.InStep.Listing

/-!
Blocks with different ends, in step.

The statements of a block are the same whichever token ends the block, as long as no statement
begins with that token (`Listed.inStep`).
-/

namespace PhpCheck.Grammar

/-! ### Tokens that no statement begins with -/

/-- Some of the kinds that no statement begins with. -/
def unopened : List TokenKind :=
  [.kwElse, .kwElseif, .kwEndif, .kwEndwhile, .kwEndfor, .kwEndforeach, .kwEnddeclare, .colon,
   .doubleColon]

/-- The production fails from this state. -/
def Refuses {α : Type} (p : Parse α) (src : Source) (s : State) : Prop :=
  ∀ a s', p src s ≠ .ok a s'

section

variable {α β : Type} {code : Nat → Nat → Parse Node} {below : Below} {src : Source} {s s₁ : State}
  {t : Token} {depth : Nat}

theorem Refuses.bind {p : Parse α} {f : α → Parse β} (hp : Refuses p src s) :
    Refuses (p >>= f) src s := by
  intro b s' hr
  obtain ⟨a, s₁, ha, -⟩ := exists_of_bind hr
  exact hp a s₁ ha

theorem Refuses.after {p : Parse α} {f : α → Parse β} {a : α} (hp : p src s = .ok a s₁)
    (hf : Refuses (f a) src s₁) : Refuses (p >>= f) src s := by
  intro b s' hr
  rw [bind_ok hp] at hr
  exact hf b s' hr

theorem refuses_throw (e : SyntaxError) : Refuses (throw e : Parse α) src s := by
  intro a s' hr
  cases hr

theorem here_eq (src : Source) (s : State) : here src s = .ok (s.start src) s := rfl

theorem primary_unopened (ht : s.current = some t) (hk : t.kind ∈ unopened) :
    Refuses (primary below) src s := by
  refine .after (here_eq src s) (.after (kind?_eq src s) ?_)
  rw [ht, Option.map_some]
  generalize t.kind = k at hk
  simp only [unopened, List.mem_cons, List.not_mem_nil, or_false] at hk
  rcases hk with rfl | rfl | rfl | rfl | rfl | rfl | rfl | rfl | rfl <;>
    exact fun _ _ => unexpected_ne_ok

theorem unary_unopened (ht : s.current = some t) (hk : t.kind ∈ unopened) :
    Refuses (unary below) src s := by
  have hprimary : Refuses (primary below >>= postfixChain below) src s :=
    (primary_unopened ht hk).bind
  refine .after (here_eq src s) (.after (kind?_eq src s) ?_)
  rw [ht, Option.map_some]
  generalize t.kind = k at hk
  simp only [unopened, List.mem_cons, List.not_mem_nil, or_false] at hk
  rcases hk with rfl | rfl | rfl | rfl | rfl | rfl | rfl | rfl | rfl <;> exact hprimary

theorem expression_unopened {min : Precedence} (ht : s.current = some t) (hk : t.kind ∈ unopened) :
    Refuses (descend code depth (.expression min)) src s := by
  cases depth with
  | zero =>
    obtain ⟨span, hspan⟩ := currentSpan_ok src s
    exact .after hspan (refuses_throw _)
  | succ depth => exact (unary_unopened ht hk).bind

/-- No statement begins with one of these tokens. -/
theorem statement_unopened (ht : s.current = some t) (hk : t.kind ∈ unopened) :
    Refuses (descend code depth .statement) src s := by
  cases depth with
  | zero =>
    obtain ⟨span, hspan⟩ := currentSpan_ok src s
    exact .after hspan (refuses_throw _)
  | succ depth =>
    have hexpression : Refuses (expressionStatement (descend code depth)) src s := by
      have hdoc : takeDoc src s = .ok (s.doc.map fun tok => Node.leaf .docComment tok.span tok.text)
          { s with doc := none } := rfl
      have hvalue : Refuses (descend code depth (.expression .lowest)) src { s with doc := none } :=
        expression_unopened ht hk
      exact .after (here_eq src s) (.after hdoc hvalue.bind)
    refine .after (kind?_eq src s) ?_
    rw [ht, Option.map_some]
    generalize t.kind = k at hk
    simp only [unopened, List.mem_cons, List.not_mem_nil, or_false] at hk
    rcases hk with rfl | rfl | rfl | rfl | rfl | rfl | rfl | rfl | rfl <;> exact hexpression

/-- So nothing is read in front of it but what ends there. -/
theorem not_listed {terminators : List TokenKind} {nodes : List Node} {s' : State}
    (ht : s.current = some t) (hk : t.kind ∈ unopened) (hterminators : t.kind ∉ terminators) :
    ¬Listed (descend code depth) terminators src s nodes s' := by
  intro h
  cases h with
  | done hs => exact hterminators (hs t ht)
  | tag ht' _ htag =>
    obtain rfl := Option.some.inj (ht.symm.trans ht')
    have hdisjoint : ∀ k ∈ unopened, k ∉ tags := by decide
    exact hdisjoint _ hk htag
  | statement _ _ _ hn => exact statement_unopened ht hk _ _ hn

end

/-! ### Statements up to different ends -/

section

variable {B : Bond} {below₁ below₂ : Below} {s s₁ s₂ s' s₁' s₂' : State} {t t₁ t₂ : Token}
  {nodes : List Node}
  {ts₁ ts₂ : List Token} {stops : List TokenKind}

/-- Behind all of the part that is shared, each text goes on with its own tokens. -/
theorem Bond.Twin.behind (h : B.Twin s₁ s₂) (hend : s₁.pending = B.after) :
    s₁.Faces B.tail₁ ∧ s₂.Faces B.tail₂ := by
  obtain ⟨ts₁, ts₂, hts, hfaces₁, hfaces₂⟩ := h.faces
  cases hts with
  | nil => exact ⟨hfaces₁, hfaces₂⟩
  | @cons t₁ t₂ ts₁ ts₂ ht hts =>
    have hpending := hfaces₁.pending
    rw [hend, List.cons_append, significant_cons (hfaces₁.code _ rfl), List.map_append,
      significant_append] at hpending
    have hlength := congrArg List.length hpending
    simp only [Bond.after, List.length_cons, List.length_append] at hlength
    omega

/-- In front of the brace behind the part that is shared, the current token is of that part. -/
theorem Bond.Twin.shared_of_ne (h : B.Twin s₁ s₂)
    (hbrace : B.tail₁.head?.map (·.kind) = some .rBrace) (ht : s₁.current = some t)
    (hk : t.kind ∉ [TokenKind.rBrace]) :
    ∃ t₂, s₂.current = some t₂ ∧ B.Same t t₂ ∧ B.Twin s₁.advance s₂.advance := by
  obtain ⟨ts₁, ts₂, hts, hfaces₁, hfaces₂⟩ := h.faces
  cases hts with
  | nil =>
    have hcurrent : some t = B.tail₁.head? := ht.symm.trans hfaces₁.current
    rw [← hcurrent, Option.map_some] at hbrace
    exact absurd (List.mem_singleton.2 (Option.some.inj hbrace)) hk
  | cons hsame hts =>
    obtain rfl := Option.some.inj (ht.symm.trans hfaces₁.current)
    exact ⟨_, hfaces₂.current, hsame, h.advance_of_faces hsame hts hfaces₁ hfaces₂⟩

/-- The statements of a block that ends with a brace are those of one that ends otherwise. -/
theorem Listed.inStep (hreads : below₁.Reads (.unknown B.left)) (hbelow : below₁.InStep below₂ B)
    (hbrace : B.tail₁.head?.map (·.kind) = some .rBrace)
    (hstop : ∀ t ∈ B.tail₂.head?, t.kind ∈ stops)
    (hstops : ∀ s t, s.current = some t → t.kind ∈ stops → Refuses (below₁ .statement) B.left s)
    (htags : ∀ k ∈ stops, k ∉ tags)
    (h : Listed below₁ [.rBrace] B.left s₁ nodes s₁') (htwin : B.Twin s₁ s₂)
    (herrors : s₁'.errors = []) (hend : s₁'.pending = B.after) :
    ∃ nodes' s₂', Listed below₂ stops B.right s₂ nodes' s₂' ∧ unplaced nodes = unplaced nodes' ∧
      B.Twin s₁' s₂' := by
  induction h generalizing s₂ with
  | @done s hs =>
    obtain ⟨-, hfaces₂⟩ := htwin.behind hend
    exact ⟨[], s₂, .done (by rwa [hfaces₂.current]), rfl, htwin⟩
  | @tag s s' t nodes ht hk htag hrest ih =>
    obtain ⟨t₂, ht₂, hsame, htwin'⟩ := htwin.shared_of_ne hbrace ht hk
    obtain ⟨nodes', s₂', hlisted, hnodes, htwin''⟩ := ih htwin' herrors hend
    exact ⟨nodes', s₂', .tag ht₂ (hsame.kind ▸ fun hstop => htags _ hstop htag) (hsame.kind ▸ htag)
      hlisted,
      hnodes, htwin''⟩
  | @statement s s₁ s' t n nodes ht hk htag hn hrest ih =>
    obtain ⟨t₂, ht₂, hsame, -⟩ := htwin.shared_of_ne hbrace ht hk
    have hmoves := (hreads.step htwin.stands ht).1
    rw [hn] at hmoves
    have hstep := hrest.step hreads (Step.stands hmoves)
    have hwithin : B.Within s₁ := by
      rw [Bond.Within, ← hend]
      exact hstep.pending
    obtain ⟨n', s₂', hn₂, hn', htwin'⟩ :=
      (hbelow.statement (C := Any)).run s s₂ n s₁ htwin trivial hn
      (hstep.errors_nil herrors) hwithin
    obtain ⟨nodes', s₂'', hlisted, hnodes, htwin''⟩ := ih htwin' herrors hend
    refine ⟨n' :: nodes', s₂'', .statement ht₂ ?_ (hsame.kind ▸ htag) hn₂ hlisted, ?_, htwin''⟩
    · exact fun hstop => hstops s t ht (hsame.kind ▸ hstop) n s₁ hn
    · rw [unplaced_cons, unplaced_cons, hn', hnodes]

end

end PhpCheck.Grammar
