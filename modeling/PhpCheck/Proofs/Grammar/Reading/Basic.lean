import PhpCheck.Proofs.Grammar.Running
import PhpCheck.Proofs.Token.Placed

/-!
What a production makes of the tokens in front of it.

`Reads` says four things of a production at once, so that each production needs one lemma: it
only consumes tokens, and at least one where that is owed; the nodes that it makes have spans
that fit the text; they hold no more error nodes than there are faults noted; and the bounds on
repetition are never what ends it.  There is one rule for each way to put productions together,
among them `Reads.bind` and `Reads.took`, which differ in whether the token owed has been
consumed, and `Reads.repeated` for loops.

The first, the third and the last hold from every state.  What is said of spans is said for the
tokens of a text only, so it stands under the condition that the places are known.
-/

namespace PhpCheck.Grammar

/-! ### States -/

/-- The tokens of a list without comments and faults. -/
def significant : List Lexeme → List Token
  | [] => []
  | .error _ :: rest => significant rest
  | .ok tok :: rest => if tok.kind.isComment then significant rest else tok :: significant rest

/-- The tokens that have not been consumed. -/
def State.pending (s : State) : List Token := s.current.toList ++ significant s.rest

/-- The faults noted so far and those in the tokens ahead. -/
def State.faults (s : State) : Nat := s.errors.length + s.rest.countP (·.toOption.isNone)

/-- One token or more have been consumed from one state to another. -/
def State.Consumed (s s' : State) : Prop := ∃ t more, s.pending = t :: (more ++ s'.pending)

/-- A text, the offset from which on its tokens are read, and whether it is known that
they are tokens of the text. -/
structure Ground where
  src : Source
  lo : Nat
  known : Prop
  whole : known → src = .ofChars src.chars

/-- A state in which there is a current token as long as tokens follow; where the places are
known, it is one of the text. -/
structure State.Stands (G : Ground) (s : State) : Prop where
  settled : s.current = none → s.rest = []
  current : G.known → ∀ t ∈ s.current, t.Placed G.src G.lo
  doc : G.known → ∀ t ∈ s.doc, t.Placed G.src G.lo
  prevEnd : G.known → G.src.IsPlace s.prevEnd
  rest : G.known → ∀ l ∈ s.rest, l.Placed G.src G.lo
  errors : G.known → ∀ e ∈ s.errors, e.fault ≠ .stalled

/-- What any step leaves as it is: no token comes back, no fault is forgotten, and none ahead is
passed without being noted. -/
structure Step (G : Ground) (s s' : State) : Prop where
  stands : s'.Stands G
  pending : s'.pending <:+ s.pending
  errors : s.errors.length ≤ s'.errors.length
  faults : s.faults ≤ s'.faults

theorem Step.refl {G : Ground} {s : State} (hs : s.Stands G) : Step G s s :=
  ⟨hs, List.suffix_refl _, Nat.le_refl _, Nat.le_refl _⟩

theorem Step.trans {G : Ground} {s t u : State} (hst : Step G s t) (htu : Step G t u) :
    Step G s u :=
  ⟨htu.stands, htu.pending.trans hst.pending, Nat.le_trans hst.errors htu.errors,
    Nat.le_trans hst.faults htu.faults⟩

section

variable {G : Ground} {s s' : State} {prevEnd : Nat} {doc : Option Token}
  {errors : List SyntaxError} {lexemes : List Lexeme}

theorem consumed_of_suffix (hs : s'.pending <:+ s.pending)
    (hlt : s'.pending.length < s.pending.length) : s.Consumed s' := by
  obtain ⟨read, hread⟩ := hs
  cases read with
  | nil => exact absurd hlt (by rw [← hread]; exact Nat.lt_irrefl _)
  | cons t more => exact ⟨t, more, hread.symm⟩

theorem significant_length_le (lexemes : List Lexeme) :
    (significant lexemes).length ≤ lexemes.length := by
  fun_induction significant lexemes with
  | case1 => exact Nat.le_refl _
  | case2 e rest ih => exact Nat.le_succ_of_le ih
  | case3 tok rest hcomment ih => exact Nat.le_succ_of_le ih
  | case4 tok rest hcomment ih => exact Nat.succ_le_succ ih

theorem State.pending_length_le (s : State) : s.pending.length ≤ s.rest.length + 1 := by
  have hrest := significant_length_le s.rest
  cases hcurrent : s.current <;> simp [State.pending, hcurrent] <;> omega

theorem State.pending_of_current {t : Token} (hs : s.current = some t) :
    s.pending = t :: significant s.rest := by
  rw [State.pending, hs]
  rfl

/-- Only where nothing is left there is no current token. -/
theorem State.Stands.current_isSome (hs : s.Stands G) (hpos : 0 < s.pending.length) :
    s.current.isSome = true := by
  cases hcurrent : s.current with
  | some t => rfl
  | none =>
    rw [State.pending, hcurrent, hs.settled hcurrent] at hpos
    exact absurd hpos (Nat.lt_irrefl 0)

theorem pending_settle : (State.settle prevEnd doc errors lexemes).pending =
    significant lexemes := by
  fun_induction State.settle prevEnd doc errors lexemes with
  | case1 => rfl
  | case2 doc errors e rest ih => exact ih
  | case3 doc errors tok rest hline ih => rw [ih, significant, TokenKind.isComment, hline]; rfl
  | case4 doc errors tok rest hline hdoc ih => rw [ih, significant, TokenKind.isComment, hdoc]; rfl
  | case5 doc errors tok rest hline hdoc =>
    rw [significant, TokenKind.isComment, beq_false_of_ne hline, beq_false_of_ne hdoc]
    rfl

theorem errors_settle :
    errors.length ≤ (State.settle prevEnd doc errors lexemes).errors.length := by
  fun_induction State.settle prevEnd doc errors lexemes with
  | case1 => exact Nat.le_refl _
  | case2 doc errors e rest ih =>
    rw [List.length_append] at ih
    exact Nat.le_trans (Nat.le_add_right _ _) ih
  | case3 doc errors tok rest hline ih => exact ih
  | case4 doc errors tok rest hline hdoc ih => exact ih
  | case5 => exact Nat.le_refl _

theorem faults_settle : (State.settle prevEnd doc errors lexemes).faults =
    errors.length + lexemes.countP (·.toOption.isNone) := by
  fun_induction State.settle prevEnd doc errors lexemes with
  | case1 => rfl
  | case2 doc errors e rest ih =>
    rw [ih, List.length_append, List.countP_cons_of_pos (by rfl), List.length_singleton]
    omega
  | case3 doc errors tok rest hline ih => rw [ih, List.countP_cons_of_neg Bool.false_ne_true]
  | case4 doc errors tok rest hline hdoc ih => rw [ih, List.countP_cons_of_neg Bool.false_ne_true]
  | case5 doc errors tok rest hline hdoc =>
    rw [State.faults, List.countP_cons_of_neg Bool.false_ne_true]

theorem stands_settle (hprevEnd : G.known → G.src.IsPlace prevEnd)
    (hdoc : G.known → ∀ t ∈ doc, t.Placed G.src G.lo)
    (herrors : G.known → ∀ e ∈ errors, e.fault ≠ .stalled)
    (hlexemes : G.known → ∀ l ∈ lexemes, l.Placed G.src G.lo) :
    (State.settle prevEnd doc errors lexemes).Stands G := by
  fun_induction State.settle prevEnd doc errors lexemes with
  | case1 =>
    exact ⟨fun _ => rfl, fun _ t ht => absurd ht (Option.not_mem_none t), hdoc, hprevEnd, hlexemes,
      herrors⟩
  | case2 doc errors e rest ih =>
    refine ih hdoc (fun hG => ?_) fun hG => (List.forall_mem_cons.1 (hlexemes hG)).2
    exact List.forall_mem_append.2 ⟨herrors hG,
      List.forall_mem_singleton.2 (List.forall_mem_cons.1 (hlexemes hG)).1⟩
  | case3 doc errors tok rest hline ih =>
    exact ih hdoc herrors fun hG => (List.forall_mem_cons.1 (hlexemes hG)).2
  | case4 doc errors tok rest hline hdoc' ih =>
    refine ih (fun hG t ht => ?_) herrors fun hG => (List.forall_mem_cons.1 (hlexemes hG)).2
    obtain rfl := Option.some.inj ht
    exact (List.forall_mem_cons.1 (hlexemes hG)).1
  | case5 doc errors tok rest hline hdoc' =>
    refine ⟨fun h => absurd h (Option.some_ne_none tok), fun hG t ht => ?_, hdoc, hprevEnd,
      fun hG => (List.forall_mem_cons.1 (hlexemes hG)).2, herrors⟩
    obtain rfl := Option.some.inj ht
    exact (List.forall_mem_cons.1 (hlexemes hG)).1

theorem pending_advance (s : State) : s.pending = s.current.toList ++ s.advance.pending := by
  rw [State.advance, pending_settle, State.pending]

theorem Step.advance (hs : s.Stands G) : Step G s s.advance := by
  refine ⟨stands_settle (fun hG => ?_) (fun _ t ht => absurd ht (Option.not_mem_none t)) hs.errors
    hs.rest, ⟨_, (pending_advance s).symm⟩, errors_settle, Nat.le_of_eq faults_settle.symm⟩
  cases hcurrent : s.current with
  | none => exact hs.prevEnd hG
  | some t => exact (hs.current hG t hcurrent).fits.stop

theorem advance_lt (hs : s.current.isSome = true) :
    s.advance.pending.length < s.pending.length := by
  obtain ⟨t, ht⟩ := Option.isSome_iff_exists.1 hs
  rw [pending_advance s, ht]
  exact Nat.lt_succ_self _

end

/-! ### What productions result in -/

/-- A kind of result of a production. -/
class Result (α : Type) where
  /-- Its spans and offsets are those of the text, where its places are known. -/
  Fits : Ground → α → Prop := fun _ _ => True
  /-- How many error nodes it holds. -/
  errors : α → Nat := fun _ => 0
  /-- Whether a token must have been consumed for it where one is owed. -/
  counts : α → Bool := fun _ => true

instance : Result Unit where
instance : Result Bool where
instance : Result String where
instance : Result TokenKind where

/-- A kind that a production has found for a node is not that of an error node. -/
instance : Result NodeKind where
  Fits _ kind := kind ≠ .error

instance : Result Nat where
  Fits G o := G.known → G.src.IsPlace o

instance : Result Span where
  Fits G s := G.known → s.Fits G.src

instance : Result Token where
  Fits G t := G.known → t.Placed G.src G.lo

instance : Result Node where
  Fits G n := G.known → ∀ m ∈ n.walk, m.span.Fits G.src
  errors n := n.errorNodes.length

section

variable {α β : Type} [Result α] [Result β]

instance : Result (Option α) where
  Fits G a := ∀ x ∈ a, Result.Fits G x
  errors a := (a.map Result.errors).getD 0

instance : Result (List α) where
  Fits G as := ∀ x ∈ as, Result.Fits G x
  errors as := (as.map Result.errors).sum

instance : Result (α × β) where
  Fits G a := Result.Fits G a.1 ∧ Result.Fits G a.2
  errors a := Result.errors a.1 + Result.errors a.2

/-- A round that is not the last one has to consume a token. -/
instance : Result (Round α) where
  Fits G
    | .more a => Result.Fits G a
    | .done a => Result.Fits G a
  errors
    | .more a => Result.errors a
    | .done a => Result.errors a
  counts
    | .more _ => true
    | .done _ => false

/-- A kind of which every result counts as a consumed token where one is owed. -/
class Counted (α : Type) [Result α] : Prop where
  counted (a : α) : Result.counts a = true

export Counted (counted)

instance : Counted Unit := ⟨fun _ => rfl⟩
instance : Counted Bool := ⟨fun _ => rfl⟩
instance : Counted String := ⟨fun _ => rfl⟩
instance : Counted TokenKind := ⟨fun _ => rfl⟩
instance : Counted NodeKind := ⟨fun _ => rfl⟩
instance : Counted Nat := ⟨fun _ => rfl⟩
instance : Counted Span := ⟨fun _ => rfl⟩
instance : Counted Token := ⟨fun _ => rfl⟩
instance : Counted Node := ⟨fun _ => rfl⟩
instance : Counted (Option α) := ⟨fun _ => rfl⟩
instance : Counted (List α) := ⟨fun _ => rfl⟩
instance : Counted (α × β) := ⟨fun _ => rfl⟩

end

section

variable {α : Type} [Result α] {G : Ground} {a : α}

@[simp]
theorem fits_some : Result.Fits G (some a) ↔ Result.Fits G a :=
  ⟨fun h => h a rfl, fun h _ hx => Option.some.inj hx ▸ h⟩

@[simp]
theorem fits_none : Result.Fits G (none : Option α) := fun x hx => absurd hx (Option.not_mem_none x)

end

/-! ### The results of a run -/

/-- What may come of a run from the state `s`.  The error nodes of a result are at most the
faults that were noted, where `w` are noted but not yet taken for a node.  If a token is `owed`
it has been consumed.  No failure comes from a bound. -/
inductive Fair {α : Type} [Result α] (G : Ground) (s : State) (owed : Bool) (w : Nat) :
    EStateM.Result SyntaxError State α → Prop
  | ok {a : α} {s' : State} (step : Step G s s') (fits : Result.Fits G a)
    (consumed : owed = true → Result.counts a = true → s'.pending.length < s.pending.length)
    (errors : s.errors.length + Result.errors a ≤ s'.errors.length + w) : Fair G s owed w (.ok a s')
  | error {e : SyntaxError} {s' : State} (step : Step G s s') (fits : Result.Fits G e.span)
    (fault : e.fault ≠ .stalled) : Fair G s owed w (.error e s')

/-- A production that is fair from every state, or from every state with a current token if
it is only run `atToken`. -/
def Reads {α : Type} [Result α] (G : Ground) (atToken owed : Bool) (w : Nat) (p : Parse α) :
    Prop :=
  ∀ s, s.Stands G → (atToken = true → s.current.isSome = true) → Fair G s owed w (p G.src s)

/-- A production that is fair from every state at a token of a kind. -/
def ReadsAt {α : Type} [Result α] (G : Ground) (kind : TokenKind) (owed : Bool) (w : Nat)
    (p : Parse α) : Prop :=
  ∀ s t, s.Stands G → s.current = some t → t.kind = kind → Fair G s owed w (p G.src s)

theorem Reads.atKind {α : Type} [Result α] {G : Ground} {kind : TokenKind} {owed : Bool} {w : Nat}
    {p : Parse α} (hp : Reads G true owed w p) : ReadsAt G kind owed w p :=
  fun s _ hs ht _ => hp s hs fun _ => ht ▸ rfl

section

variable {α β : Type} [Result α] [Result β] {G : Ground} {atToken owed owed' : Bool}
  {w n : Nat} {s s' : State} {p : Parse α} {f : α → Parse β}

/-- After a step on which `n` faults were noted, as many error nodes are accounted for. -/
theorem Fair.after {r : EStateM.Result SyntaxError State α} (hr : Fair G s' owed (w + n) r)
    (hstep : Step G s s') (hn : s.errors.length + n ≤ s'.errors.length) : Fair G s owed w r := by
  cases hr with
  | ok step fits consumed errors =>
    refine .ok (hstep.trans step) fits (fun ho hc => ?_) (by omega)
    exact Nat.lt_of_lt_of_le (consumed ho hc) hstep.pending.length_le
  | error step fits fault => exact .error (hstep.trans step) fits fault

/-- After a token has been consumed, none is owed any more. -/
theorem Fair.afterToken {r : EStateM.Result SyntaxError State α}
    (hr : Fair G s' false (w + n) r) (hstep : Step G s s')
    (hn : s.errors.length + n ≤ s'.errors.length)
    (hlt : s'.pending.length < s.pending.length) : Fair G s owed w r := by
  cases hr with
  | ok step fits consumed errors =>
    refine .ok (hstep.trans step) fits (fun _ _ => ?_) (by omega)
    exact Nat.lt_of_le_of_lt step.pending.length_le hlt
  | error step fits fault => exact .error (hstep.trans step) fits fault

theorem Fair.mono {r : EStateM.Result SyntaxError State α} (hr : Fair G s owed n r) (hle : n ≤ w) :
    Fair G s owed w r := by
  cases hr with
  | ok step fits consumed errors => exact .ok step fits consumed (by omega)
  | error step fits fault => exact .error step fits fault

theorem Fair.forgo {r : EStateM.Result SyntaxError State α} (hr : Fair G s owed w r) :
    Fair G s false w r := by
  cases hr with
  | ok step fits consumed errors => exact .ok step fits nofun errors
  | error step fits fault => exact .error step fits fault

/-- What follows owes no token. -/
theorem Fair.bind [Counted α] (hp : Fair G s owed 0 (p G.src s))
    (hf : ∀ a, Result.Fits G a → Reads G false false (w + Result.errors a) (f a)) :
    Fair G s owed w ((p >>= f) G.src s) := by
  cases hr : p G.src s with
  | ok a s' =>
    rw [bind_ok hr]
    rw [hr] at hp
    cases hp with
    | ok step fits consumed errors =>
      have hrest := hf a fits s' step.stands nofun
      cases owed with
      | false => exact hrest.after step errors
      | true => exact hrest.afterToken step errors (consumed rfl (counted a))
  | error e s' =>
    rw [bind_error hr]
    rw [hr] at hp
    cases hp with
    | error step fits fault => exact .error step fits fault

/-- What follows is told that a token has been consumed. -/
theorem Fair.seq [Counted α] (hp : Fair G s true 0 (p G.src s))
    (hf : ∀ a s', Result.Fits G a → s'.Stands G → s'.pending.length < s.pending.length →
      Fair G s' false (w + Result.errors a) (f a G.src s')) :
    Fair G s true w ((p >>= f) G.src s) := by
  cases hr : p G.src s with
  | ok a s' =>
    rw [bind_ok hr]
    rw [hr] at hp
    cases hp with
    | ok step fits consumed errors =>
      have hlt := consumed rfl (counted a)
      exact (hf a s' fits step.stands hlt).afterToken step errors hlt
  | error e s' =>
    rw [bind_error hr]
    rw [hr] at hp
    cases hp with
    | error step fits fault => exact .error step fits fault

/-- A question to the state, which leaves it as it is. -/
class Looks {γ : Type} (p : Parse γ) : Prop where
  looks : ∀ src s, ∃ a, p src s = .ok a s

instance (k : TokenKind) : Looks (check k) := ⟨fun _ _ => ⟨_, rfl⟩⟩
instance (kinds : List TokenKind) : Looks (checkAny kinds) := ⟨fun _ _ => ⟨_, rfl⟩⟩
instance : Looks kind? := ⟨fun _ _ => ⟨_, rfl⟩⟩
instance : Looks peek? := ⟨fun _ _ => ⟨_, rfl⟩⟩
instance : Looks atEnd := ⟨fun _ _ => ⟨_, rfl⟩⟩
instance : Looks atMemberName := ⟨fun _ _ => ⟨_, rfl⟩⟩
instance : Looks (get : Parse State) := ⟨fun _ _ => ⟨_, rfl⟩⟩

/-! ### Putting productions together -/

namespace Reads

theorem pure {a : α} (hfits : Result.Fits G a) (hw : Result.errors a ≤ w) :
    Reads G atToken false w (pure a) :=
  fun _ hs _ => .ok (.refl hs) hfits nofun (by omega)

/-- The first production has some of the faults that are not yet taken for its own nodes. -/
theorem carry (hp : Reads G atToken owed' n p)
    (hf : ∀ a, Result.Fits G a → Reads G false owed (w + Result.errors a) (f a)) :
    Reads G atToken owed (w + n) (p >>= f) := by
  intro s hs htoken
  have hrun := hp s hs htoken
  cases hr : p G.src s with
  | ok a s' =>
    rw [bind_ok hr]
    rw [hr] at hrun
    cases hrun with
    | ok step fits consumed errors =>
      have hle := step.errors
      have hrest := hf a fits s' step.stands nofun
      obtain ⟨k, hk⟩ := Nat.exists_eq_add_of_le hle
      exact (hrest.mono (by omega)).after (n := k) step (Nat.le_of_eq hk.symm)
  | error e s' =>
    rw [bind_error hr]
    rw [hr] at hrun
    cases hrun with
    | error step fits fault => exact .error step fits fault

theorem bind (hp : Reads G atToken owed' 0 p)
    (hf : ∀ a, Result.Fits G a → Reads G false owed (w + Result.errors a) (f a)) :
    Reads G atToken owed w (p >>= f) := carry hp hf

/-- The first production consumes a token if one is owed. -/
theorem lead [Counted α] (hp : Reads G atToken owed 0 p)
    (hf : ∀ a, Result.Fits G a → Reads G false false (w + Result.errors a) (f a)) :
    Reads G atToken owed w (p >>= f) := fun s hs hhere => (hp s hs hhere).bind hf

theorem forgo (hp : Reads G atToken true w p) : Reads G atToken owed w p := by
  cases owed with
  | true => exact hp
  | false => exact fun s hs hhere => (hp s hs hhere).forgo

/-- The first production consumes a token, whether or not one is owed. -/
theorem took [Counted α] (hp : Reads G atToken true 0 p)
    (hf : ∀ a, Result.Fits G a → Reads G false false (w + Result.errors a) (f a)) :
    Reads G atToken owed w (p >>= f) := forgo (lead hp hf)

/-- What follows either of two productions. -/
theorem either {c : Prop} [Decidable c] {p q : Parse α} (hp : Reads G atToken owed' 0 p)
    (hq : Reads G atToken owed' 0 q)
    (hf : ∀ a, Result.Fits G a → Reads G false owed (w + Result.errors a) (f a)) :
    Reads G atToken owed w (if c then p >>= f else q >>= f) := by
  split
  · exact bind hp hf
  · exact bind hq hf

/-- The result is put into another one. -/
theorem wrap [Counted α] {g : α → β} (hp : Reads G atToken owed w p)
    (hfits : ∀ a, Result.Fits G a → Result.Fits G (g a))
    (herrors : ∀ a, Result.errors (g a) ≤ Result.errors a) :
    Reads G atToken owed w (p >>= fun a => Pure.pure (g a)) := by
  intro s hs hhere
  have hrun := hp s hs hhere
  cases hr : p G.src s with
  | ok a s' =>
    rw [bind_ok hr]
    rw [hr] at hrun
    cases hrun with
    | ok step fits consumed errors =>
      exact .ok step (hfits a fits) (fun ho _ => consumed ho (counted a))
        (Nat.le_trans (Nat.add_le_add_left (herrors a) _) errors)
  | error e s' =>
    rw [bind_error hr]
    rw [hr] at hrun
    cases hrun with
    | error step fits fault => exact .error step fits fault

theorem anywhere (hp : Reads G false owed w p) : Reads G atToken owed w p :=
  fun s hs _ => hp s hs nofun

omit [Result α] in
theorem given {a : α} (hf : Reads G atToken owed w (f a)) :
    Reads G atToken owed w (Pure.pure a >>= f) := by rwa [pure_bind]

theorem ite {c : Prop} [Decidable c] {p q : Parse α} (hp : c → Reads G atToken owed w p)
    (hq : ¬c → Reads G atToken owed w q) : Reads G atToken owed w (if c then p else q) := by
  split
  · exact hp ‹_›
  · exact hq ‹_›

theorem discard [Counted α] (hp : Reads G atToken owed 0 p) :
    Reads G atToken owed w (discard p) := by
  intro s hs hhere
  have hrun := hp s hs hhere
  cases hr : p G.src s with
  | ok a s' =>
    rw [discard_ok hr]
    rw [hr] at hrun
    cases hrun with
    | ok step fits consumed errors =>
      exact .ok step trivial (fun ho _ => consumed ho (counted a))
        (Nat.le_add_right_of_le step.errors)
  | error e s' =>
    have herror : Functor.discard p G.src s = .error e s' := by
      show EStateM.map _ (p G.src) s = _
      rw [EStateM.map, hr]
    rw [herror]
    rw [hr] at hrun
    cases hrun with
    | error step fits fault => exact .error step fits fault

/-- Whatever is asked of the state and leaves it as it is. -/
theorem look {γ : Type} {p : Parse γ} [Looks p] {f : γ → Parse β}
    (hf : ∀ a, Reads G atToken owed w (f a)) : Reads G atToken owed w (p >>= f) := by
  intro s hs hhere
  obtain ⟨a, ha⟩ := Looks.looks (p := p) G.src s
  rw [bind_ok ha]
  exact hf a s hs hhere

theorem read {f : Source → Parse β} (hf : Reads G atToken owed w (f G.src)) :
    Reads G atToken owed w (MonadReader.read >>= f) := hf

/-- The current token is looked at. -/
theorem current {f : State → Parse β}
    (hnone : ∀ s, s.current = none → Reads G atToken owed w (f s))
    (hsome : ∀ s t, s.current = some t → Result.Fits G t → Reads G true owed w (f s)) :
    Reads G atToken owed w (MonadState.get >>= f) := by
  intro s hs hhere
  show Fair G s owed w (f s G.src s)
  cases hcurrent : s.current with
  | none => exact hnone s hcurrent s hs hhere
  | some t =>
    exact hsome s t hcurrent (fun hG => hs.current hG t hcurrent) s hs fun _ => by
      rw [hcurrent]; rfl

/-- The kind of the current token is asked for. -/
theorem kind {f : Option TokenKind → Parse β} (hnone : Reads G false owed w (f none))
    (hsome : ∀ k, Reads G true owed w (f (some k))) : Reads G atToken owed w (kind? >>= f) := by
  intro s hs _
  show Fair G s owed w (f (s.current.map (·.kind)) G.src s)
  cases hcurrent : s.current with
  | none => exact hnone s hs nofun
  | some t => exact hsome t.kind s hs fun _ => by rw [hcurrent]; rfl

/-- The kind of the current token is known in what follows. -/
theorem kindAt {f : Option TokenKind → Parse β} (hnone : Reads G false owed w (f none))
    (hsome : ∀ k, ReadsAt G k owed w (f (some k))) : Reads G atToken owed w (kind? >>= f) := by
  intro s hs _
  show Fair G s owed w (f (s.current.map (·.kind)) G.src s)
  cases hcurrent : s.current with
  | none => exact hnone s hs nofun
  | some t => exact hsome t.kind s t hs hcurrent rfl

/-- A test that only holds at a token. -/
theorem ask {b : Parse Bool} {f : Bool → Parse β} (hf : ∀ x, Reads G (x || atToken) owed w (f x))
    (hb : ∀ src s, ∃ x, b src s = .ok x s ∧ (x = true → s.current.isSome = true)) :
    Reads G atToken owed w (b >>= f) := by
  intro s hs hhere
  obtain ⟨x, hx, htoken⟩ := hb G.src s
  rw [bind_ok hx]
  refine hf x s hs fun h => ?_
  rcases Bool.or_eq_true_iff.1 h with h | h
  · exact htoken h
  · exact hhere h

theorem test {b : Parse Bool} {p q : Parse β}
    (hb : ∀ src s, ∃ x, b src s = .ok x s ∧ (x = true → s.current.isSome = true))
    (hp : Reads G true owed w p) (hq : Reads G atToken owed w q) :
    Reads G atToken owed w (b >>= fun x => if x = true then p else q) := by
  refine ask (fun x => ?_) hb
  cases x with
  | true => exact hp
  | false => exact hq

end Reads

theorem isSome_of_map_eq {g : Token → TokenKind} {k : TokenKind}
    (h : (s.current.map g == some k) = true) : s.current.isSome = true := by
  rw [← Option.isSome_map (f := g), beq_iff_eq.1 h]
  rfl

theorem check_atToken (k : TokenKind) (src : Source) (s : State) :
    ∃ x, check k src s = .ok x s ∧ (x = true → s.current.isSome = true) :=
  ⟨_, rfl, isSome_of_map_eq⟩

theorem checkAny_atToken (kinds : List TokenKind) (src : Source) (s : State) :
    ∃ x, checkAny kinds src s = .ok x s ∧ (x = true → s.current.isSome = true) := by
  refine ⟨_, rfl, fun h => ?_⟩
  cases hcurrent : s.current with
  | none => rw [hcurrent] at h; cases h
  | some t => rfl

theorem atMemberName_atToken (src : Source) (s : State) :
    ∃ x, atMemberName src s = .ok x s ∧ (x = true → s.current.isSome = true) := by
  refine ⟨_, rfl, fun h => ?_⟩
  cases hcurrent : s.current with
  | none => rw [hcurrent] at h; cases h
  | some t => rfl

/-! ### Tokens -/

theorem advance_reads : Reads G atToken atToken w advance := by
  intro s hs hhere
  refine .ok (.advance hs) (fun t ht hG => hs.current hG t ht) (fun h _ => advance_lt (hhere h)) ?_
  have hnone : Result.errors s.current = 0 := by cases s.current <;> rfl
  have hle := (Step.advance hs).errors
  omega

/-- The current token is consumed. -/
theorem fair_next {f : Option Token → Parse β} {t : Token} (hs : s.Stands G)
    (ht : s.current = some t)
    (hf : Reads G false false w (f (some t))) : Fair G s owed w ((advance >>= f) G.src s) := by
  have hadvance : advance G.src s = .ok s.current s.advance := rfl
  rw [bind_ok hadvance, ht]
  have hstep := Step.advance hs
  exact (hf _ hstep.stands nofun).afterToken (n := 0) hstep hstep.errors (advance_lt (ht ▸ rfl))

theorem Reads.next {f : Option Token → Parse β}
    (hf : ∀ t, Result.Fits G t → Reads G false false w (f (some t))) :
    Reads G true owed w (advance >>= f) := by
  intro s hs htoken
  obtain ⟨t, ht⟩ := Option.isSome_iff_exists.1 (htoken rfl)
  exact fair_next hs ht (hf t fun hG => hs.current hG t ht)

theorem discard_advance_reads : Reads G atToken false w (discard advance) := by
  have hadvance : Reads G atToken atToken w (discard advance) := .discard advance_reads
  exact fun s hs htoken => (hadvance s hs htoken).forgo

theorem eat_eq (k : TokenKind) (src : Source) (s : State) : eat k src s =
    if (s.current.map (·.kind) == some k) = true then .ok s.current s.advance else .ok none s := by
  show (if (s.current.map (·.kind) == some k) = true then advance else Pure.pure none : Parse _)
    src s = _
  split <;> rfl

/-- Where a token is eaten none is owed any more. -/
theorem fair_eat {k : TokenKind} {f : Option Token → Parse β} (hs : s.Stands G)
    (hsome : ∀ t, Result.Fits G t → Reads G false false w (f (some t)))
    (hnone : Fair G s owed w (f none G.src s)) : Fair G s owed w ((eat k >>= f) G.src s) := by
  have heat := eat_eq k G.src s
  split at heat
  · rename_i hk
    obtain ⟨t, ht⟩ := Option.isSome_iff_exists.1 (isSome_of_map_eq hk)
    have hadvance : advance G.src s = eat k G.src s := heat.symm
    rw [← bind_congr hadvance]
    exact fair_next hs ht (hsome t fun hG => hs.current hG t ht)
  · rwa [bind_ok heat]

omit [Result β] in
theorem eats_cases (k : TokenKind) (src : Source) (s : State) :
    (eats k src s = .ok true s.advance ∧ s.current.isSome = true) ∨ eats k src s = .ok false s := by
  have heat := eat_eq k src s
  split at heat
  · rename_i hk
    have hcurrent := isSome_of_map_eq hk
    exact .inl ⟨by rw [eats, bind_ok heat, hcurrent]; rfl, hcurrent⟩
  · exact .inr (by rw [eats, bind_ok heat]; rfl)

namespace Reads

theorem eat {k : TokenKind} {f : Option Token → Parse β}
    (hsome : ∀ t, Result.Fits G t → Reads G false false w (f (some t)))
    (hnone : Reads G atToken owed w (f none)) : Reads G atToken owed w (eat k >>= f) :=
  fun s hs hhere => fair_eat hs hsome (hnone s hs hhere)

theorem eats {k : TokenKind} {p q : Parse β} (hp : Reads G false false w p)
    (hq : Reads G atToken owed w q) :
    Reads G atToken owed w (eats k >>= fun x => if x = true then p else q) := by
  have heats : (Grammar.eats k >>= fun x => if x = true then p else q) =
      Grammar.eat k >>= fun t => if t.isSome = true then p else q := by
    simp only [Grammar.eats, bind_assoc, pure_bind]
  rw [heats]
  exact eat (fun _ _ => hp) hq

end Reads

theorem eat_reads {k : TokenKind} : Reads G atToken false w (eat k) := by
  rw [← bind_pure (eat k)]
  exact .eat (fun t ht => .pure (fits_some.2 ht) (Nat.zero_le _)) (.pure fits_none (Nat.zero_le _))

theorem eats_reads {k : TokenKind} : Reads G atToken false w (eats k) := by
  unfold eats
  exact .bind eat_reads fun t ht => .pure trivial (Nat.zero_le _)

/-! ### Places -/

theorem fits_here (hs : s.Stands G) :
    Result.Fits G ((s.current.map (·.span.start)).getD G.src.size) := by
  intro hG
  cases hcurrent : s.current with
  | none =>
    rw [G.whole hG]
    exact Source.isPlace_size _
  | some t => exact (hs.current hG t hcurrent).fits.start

theorem fits_currentSpan (hs : s.Stands G) : ∃ span, currentSpan G.src s = .ok span s ∧
    Result.Fits G span := by
  rw [currentSpan, bind_ok (show (get : Parse State) G.src s = .ok s s from rfl)]
  cases hcurrent : s.current with
  | none =>
    refine ⟨G.src.span G.src.size G.src.size, rfl, fun hG => ?_⟩
    have hsize : G.src.IsPlace G.src.size := by
      rw [G.whole hG]
      exact Source.isPlace_size _
    exact Source.span_fits hsize hsize (Nat.le_refl _)
  | some t => exact ⟨t.span, rfl, fun hG => (hs.current hG t hcurrent).fits⟩

theorem unexpected_error {γ : Type} (hs : s.Stands G) (what : String) :
    ∃ e, (unexpected what : Parse γ) G.src s = .error e s ∧ Result.Fits G e.span ∧
      e.fault ≠ .stalled := by
  rw [unexpected, bind_ok (show (get : Parse State) G.src s = .ok s s from rfl)]
  cases hcurrent : s.current with
  | none =>
    obtain ⟨span, hspan, hfits⟩ := fits_currentSpan hs
    exact ⟨{ fault := .unexpectedEnd what, span }, bind_ok hspan, hfits, nofun⟩
  | some t =>
    exact ⟨{ fault := .unexpectedToken t.text what, span := t.span }, rfl,
      fun hG => (hs.current hG t hcurrent).fits, nofun⟩

theorem fits_spanFrom {start : Nat} (hs : s.Stands G) (hstart : Result.Fits G start) :
    Result.Fits G (G.src.span start (max s.prevEnd start)) := by
  intro hG
  refine Source.span_fits (hstart hG) ?_ (Nat.le_max_right _ _)
  rcases Nat.le_total s.prevEnd start with h | h
  · rw [Nat.max_eq_right h]
    exact hstart hG
  · rw [Nat.max_eq_left h]
    exact hs.prevEnd hG

namespace Reads

theorem here {f : Nat → Parse β}
    (hf : ∀ start, Result.Fits G start → Reads G atToken owed w (f start)) :
    Reads G atToken owed w (here >>= f) :=
  fun s hs hhere => hf _ (fits_here hs) s hs hhere

theorem currentSpan {f : Span → Parse β}
    (hf : ∀ span, Result.Fits G span → Reads G atToken owed w (f span)) :
    Reads G atToken owed w (currentSpan >>= f) := by
  intro s hs hhere
  obtain ⟨span, hspan, hfits⟩ := fits_currentSpan hs
  rw [bind_ok hspan]
  exact hf span hfits s hs hhere

theorem spanFrom {start : Nat} {f : Span → Parse β} (hstart : Result.Fits G start)
    (hf : ∀ span, Result.Fits G span → Reads G atToken owed w (f span)) :
    Reads G atToken owed w (spanFrom start >>= f) :=
  fun s hs hhere => hf _ (fits_spanFrom hs hstart) s hs hhere

theorem throw {e : SyntaxError} (hfits : Result.Fits G e.span) (hfault : e.fault ≠ .stalled) :
    Reads G atToken owed w (throw e : Parse α) :=
  fun _ hs _ => .error (.refl hs) hfits hfault

theorem unexpected {what : String} :
    Reads G atToken owed w (Grammar.unexpected what : Parse α) := by
  intro s hs _
  obtain ⟨e, he, hfits, hfault⟩ := unexpected_error (γ := α) hs what
  rw [he]
  exact .error (.refl hs) hfits hfault

theorem unexpected_bind {what : String} {γ : Type} {f : γ → Parse α} :
    Reads G atToken owed w (Grammar.unexpected what >>= f) := by
  intro s hs _
  obtain ⟨e, he, hfits, hfault⟩ := unexpected_error (γ := γ) hs what
  rw [bind_error he]
  exact .error (.refl hs) hfits hfault

end Reads

theorem expect_reads {k : TokenKind} {what : String} : Reads G atToken true w (expect k what) := by
  unfold expect
  exact .eat (fun t ht => .pure ht (Nat.zero_le _)) .unexpected

theorem expectSemicolon_reads : Reads G atToken false w expectSemicolon := by
  unfold expectSemicolon
  refine .bind eats_reads fun eaten _ => .look fun closes => .look fun ends => ?_
  exact .ite (fun _ => .pure trivial (Nat.zero_le _)) fun _ => .unexpected

end

/-! ### One nesting level further down -/

/-- The grammar one nesting level further down is fair, and so is the reading of a byte range
that lies in the text behind where its tokens begin. -/
structure Below.Reads (below : Below) (G : Ground) : Prop where
  expression : ∀ {atToken w} (min : Precedence),
    Grammar.Reads G atToken true w (below (.expression min))
  statement : ∀ {atToken w}, Grammar.Reads G atToken true w (below .statement)
  code : ∀ {atToken w start stop},
    (G.known → G.lo < start ∧ G.src.IsPlace start ∧ G.src.IsPlace stop ∧ start ≤ stop) →
      Grammar.Reads G atToken false w (below (.code start stop))

end PhpCheck.Grammar
