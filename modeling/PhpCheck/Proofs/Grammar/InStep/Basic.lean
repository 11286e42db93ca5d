import PhpCheck.Proofs.Grammar.InStep.Bond

/-!
The same production on the same tokens of two texts.

Where a reading of the one text stays within the part that both share, a reading of the other keeps
in step with it: it succeeds too, with the same result but for places, and ends in front of the
same token (`InStep`).  No production looks at a token behind the current one unless the current one
is of a few kinds, none of which ends a statement.  So what follows the shared part is not seen as
long as a token that can end something is left of it (`Bond.Free`); this token is the last one to be
consumed where a statement ends with the shared part.

There is one rule for each way to put productions together.  Which rule applies depends on how
much of the shared part is left at the end (`Manner`).
-/

namespace PhpCheck.Grammar

/-! ### Productions in step -/

/-- How much of the part that is shared is left where a production ends. -/
inductive Manner where
  /-- There is a token left that can end something. -/
  | inside
  /-- There need not be one left, but there was one at the beginning. -/
  | ends
  /-- There need not be one left, nor one at the beginning. -/
  | plain

def Manner.Holds (B : Bond) : Manner → State → Prop
  | inside => B.Free
  | ends | plain => B.Within

/-- What a run leaves as it is. -/
def Moves (src : Source) (s : State) {α : Type} : EStateM.Result SyntaxError State α → Prop
  | .ok _ s' | .error _ s' => Step (.unknown src) s s'

/-- What the first production makes of its text, the second one makes of the other text, if the
current token is of certain kinds to begin with. -/
structure InStep {α : Type} [Unplaced α] (B : Bond) (m : Manner) (C : Option TokenKind → Prop)
    (p q : Parse α) : Prop where
  moves : ∀ s, s.Stands (.unknown B.left) → Moves B.left s (p B.left s)
  leaves : m = .ends → ∀ s a s', s.Stands (.unknown B.left) → p B.left s = .ok a s' →
    B.Within s' → B.Free s
  run : ∀ s₁ s₂ a₁ s₁', B.Twin s₁ s₂ → C (s₁.current.map (·.kind)) → p B.left s₁ = .ok a₁ s₁' →
    s₁'.errors = [] → m.Holds B s₁' →
      ∃ a₂ s₂', q B.right s₂ = .ok a₂ s₂' ∧ unplaced a₁ = unplaced a₂ ∧ B.Twin s₁' s₂'

/-- The current token may be of any kind. -/
def Any : Option TokenKind → Prop := fun _ => True

section

variable {α β : Type} [Unplaced α] [Unplaced β] {B : Bond} {m m₁ m₂ : Manner}
  {C : Option TokenKind → Prop} {p q : Parse α} {f g : α → Parse β} {s s' : State} {a : α}

theorem Manner.holds_of_free (h : B.Free s) : m.Holds B s := by
  cases m
  · exact h
  · exact h.within
  · exact h.within

theorem Manner.Holds.within (h : m.Holds B s) : B.Within s := by
  cases m
  · exact Bond.Free.within h
  · exact h
  · exact h

theorem Manner.Holds.mono (h : m.Holds B s') (hs : s'.pending <:+ s.pending) : m.Holds B s := by
  cases m
  · exact Bond.Free.mono h hs
  · exact Bond.Within.mono h hs
  · exact Bond.Within.mono h hs

omit [Unplaced α] in
theorem Moves.trans {r : EStateM.Result SyntaxError State α} (hr : Moves B.left s' r)
    (hs : Step (.unknown B.left) s s') : Moves B.left s r := by
  cases r with
  | ok a s'' => exact hs.trans hr
  | error e s'' => exact hs.trans hr

theorem Step.errors_nil {G : Ground} (h : Step G s s') (hs' : s'.errors = []) : s.errors = [] := by
  have hle := h.errors
  rw [hs'] at hle
  exact List.length_eq_zero_iff.1 (Nat.le_zero.1 hle)

/-- What is known of a fair production. -/
theorem Reads.moves {α : Type} [Result α] {src : Source} {owed : Bool} {w : Nat} {p : Parse α}
    (hp : Reads (.unknown src) false owed w p) (hs : s.Stands (.unknown src)) :
    Moves src s (p src s) := by
  have hfair : Fair (.unknown src) s owed w (p src s) :=
    hp s hs (absurd · Bool.false_ne_true)
  generalize p src s = r at hfair ⊢
  cases hfair with
  | ok step fits consumed errors => exact step
  | error step fits fault => exact step

namespace InStep

theorem step (hp : InStep B m C p q) (hs : s.Stands (.unknown B.left))
    (hr : p B.left s = .ok a s') : Step (.unknown B.left) s s' := by
  have hmoves := hp.moves s hs
  rwa [hr] at hmoves

/-- Whether the production may go on where less is left. -/
theorem start_free (hp : InStep B m C p q) (hm : m ≠ .plain) (hs : s.Stands (.unknown B.left))
    (hr : p B.left s = .ok a s') (hholds : m.Holds B s') : B.Free s := by
  cases m with
  | inside => exact Bond.Free.mono hholds (hp.step hs hr).pending
  | ends => exact hp.leaves rfl s a s' hs hr hholds
  | plain => exact absurd rfl hm

theorem inside (hp : InStep B m C p q) : InStep B .inside C p q :=
  ⟨hp.moves, nofun, fun s₁ s₂ a₁ s₁' htwin hC hr herrors hfree =>
    hp.run s₁ s₂ a₁ s₁' htwin hC hr herrors (Manner.holds_of_free hfree)⟩

theorem mono {D : Option TokenKind → Prop} (hp : InStep B m C p q) (hC : ∀ k, D k → C k) :
    InStep B m D p q :=
  ⟨hp.moves, hp.leaves, fun s₁ s₂ a₁ s₁' htwin hD => hp.run s₁ s₂ a₁ s₁' htwin (hC _ hD)⟩

/-- Where the second production begins, enough is left for both to go on in step. -/
theorem bind_of (hp : InStep B m₁ C p q)
    (hf : ∀ a a', unplaced a = unplaced a' → InStep B m₂ Any (f a) (g a'))
    (hends : m = .ends → m₁ = .ends ∨ m₂ = .ends)
    (hmid : ∀ a b s s', s.Stands (.unknown B.left) → f a B.left s = .ok b s' → m.Holds B s' →
      m₁.Holds B s ∧ m₂.Holds B s') : InStep B m C (p >>= f) (q >>= g) := by
  have hok : ∀ {s s'' b}, (p >>= f) B.left s = .ok b s'' →
      ∃ a s', p B.left s = .ok a s' ∧ f a B.left s' = .ok b s'' := by
    intro s s'' b hr
    cases hp' : p B.left s with
    | ok a s' => exact ⟨a, s', rfl, by rwa [bind_ok hp'] at hr⟩
    | error e s' =>
      rw [bind_error hp'] at hr
      cases hr
  refine ⟨fun s hs => ?_, fun hm s b s'' hs hr hwithin => ?_, fun s₁ s₂ b₁ s₁'' htwin hC hr herrors
    hholds => ?_⟩
  · cases hr : p B.left s with
    | ok a s' =>
      have hstep := hp.step hs hr
      rw [bind_ok hr]
      exact ((hf a a rfl).moves s' hstep.stands).trans hstep
    | error e s' =>
      have hmoves := hp.moves s hs
      rw [hr] at hmoves
      rw [bind_error hr]
      exact hmoves
  · obtain ⟨a, s', hp', hf'⟩ := hok hr
    have hstep := hp.step hs hp'
    rcases hends hm with rfl | rfl
    · exact hp.leaves rfl s a s' hs hp' (hwithin.mono ((hf a a rfl).step hstep.stands hf').pending)
    · exact ((hf a a rfl).leaves rfl s' b s'' hstep.stands hf' hwithin).mono hstep.pending
  · obtain ⟨a₁, s₁', hp', hf'⟩ := hok hr
    have hstands := (hp.step htwin.stands hp').stands
    obtain ⟨hholds₁, hholds₂⟩ := hmid a₁ b₁ s₁' s₁'' hstands hf' hholds
    have herrors' := ((hf a₁ a₁ rfl).step hstands hf').errors_nil herrors
    obtain ⟨a₂, s₂', hq, ha, htwin'⟩ := hp.run s₁ s₂ a₁ s₁' htwin hC hp' herrors' hholds₁
    obtain ⟨b₂, s₂'', hg, hb, htwin''⟩ :=
      (hf a₁ a₂ ha).run s₁' s₂' b₁ s₁'' htwin' trivial hf' herrors hholds₂
    exact ⟨b₂, s₂'', by rw [bind_ok hq, hg], hb, htwin''⟩

end InStep

/-- After a production of the first manner, one of the second manner can follow. -/
class Manner.Before (m₁ m : Manner) : Prop where
  ne : m = .plain → m₁ ≠ .inside

instance (m₁ : Manner) : m₁.Before .inside := ⟨nofun⟩
instance (m₁ : Manner) : m₁.Before .ends := ⟨nofun⟩
instance : Manner.Before .ends .plain := ⟨nofun⟩
instance : Manner.Before .plain .plain := ⟨nofun⟩

/-- A manner in which the end does not tell anything of the beginning. -/
class Manner.Idle (m : Manner) : Prop where
  ne : m ≠ .ends

instance : Manner.Idle .inside := ⟨nofun⟩
instance : Manner.Idle .plain := ⟨nofun⟩

/-- A manner in which a token that can end something is left at the beginning. -/
class Manner.Shared (m : Manner) : Prop where
  ne : m ≠ .plain

instance : Manner.Shared .inside := ⟨nofun⟩
instance : Manner.Shared .ends := ⟨nofun⟩

namespace InStep

/-- What follows ends in the same manner as the whole. -/
theorem bind [hm : m₁.Before m] (hp : InStep B m₁ C p q)
    (hf : ∀ a a', unplaced a = unplaced a' → InStep B m Any (f a) (g a')) :
    InStep B m C (p >>= f) (q >>= g) := by
  refine hp.bind_of hf .inr fun a b s s' hs hr hholds => ⟨?_, hholds⟩
  by_cases hplain : m = .plain
  · have hwithin : B.Within s := hholds.within.mono ((hf a a rfl).step hs hr).pending
    cases m₁ with
    | inside => exact absurd rfl (hm.ne hplain)
    | ends => exact hwithin
    | plain => exact hwithin
  · exact Manner.holds_of_free ((hf a a rfl).start_free hplain hs hr hholds)

/-- What ends something is followed by what consumes no token that could. -/
theorem close (hp : InStep B .ends C p q)
    (hf : ∀ a a', unplaced a = unplaced a' → InStep B .plain Any (f a) (g a')) :
    InStep B .ends C (p >>= f) (q >>= g) :=
  hp.bind_of hf (fun _ => .inl rfl) fun a _ _ _ hs hr hholds =>
    ⟨hholds.mono ((hf a a rfl).step hs hr).pending, hholds⟩

theorem pure [hm : m.Idle] {a a' : α} (ha : unplaced a = unplaced a') :
    InStep B m C (pure a) (pure a') :=
  ⟨fun _ hs => .refl hs, fun h => absurd h hm.ne, fun s₁ s₂ a₁ s₁' htwin _ hr _ _ => by
    cases hr
    exact ⟨a', s₂, rfl, ha, htwin⟩⟩

omit [Unplaced α] in
theorem given {a a' : α} (hf : InStep B m C (f a) (g a')) :
    InStep B m C (Pure.pure a >>= f) (Pure.pure a' >>= g) := by rwa [pure_bind, pure_bind]

theorem ite {c : Prop} [Decidable c] {p' q' : Parse α} (hp : c → InStep B m C p q)
    (hq : ¬c → InStep B m C p' q') :
    InStep B m C (if c then p else p') (if c then q else q') := by
  split
  · exact hp ‹_›
  · exact hq ‹_›

/-- A production that always fails is in step with any other. -/
theorem fails (hp : ∀ s, s.Stands (.unknown B.left) → ∃ e, p B.left s = .error e s) :
    InStep B m C p q := by
  have hne : ∀ {s a s'}, s.Stands (.unknown B.left) → p B.left s ≠ .ok a s' := by
    intro s a s' hs hr
    obtain ⟨e, he⟩ := hp s hs
    cases he.symm.trans hr
  refine ⟨fun s hs => ?_, fun _ s a s' hs hr => absurd hr (hne hs),
    fun s₁ _ a s₁' htwin _ hr => absurd hr (hne htwin.stands)⟩
  obtain ⟨e, he⟩ := hp s hs
  rw [he]
  exact .refl hs

theorem throw (e : SyntaxError) : InStep B m C (throw e : Parse α) q :=
  fails fun _ _ => ⟨e, rfl⟩

theorem unexpected (what : String) : InStep B m C (Grammar.unexpected what : Parse α) q :=
  fails fun _ hs => let ⟨e, he, _⟩ := unexpected_error hs what; ⟨e, he⟩

omit [Unplaced α] in
theorem unexpected_bind (what : String) {r : Parse β} :
    InStep B m C ((Grammar.unexpected what : Parse α) >>= f) r :=
  fails fun _ hs => let ⟨e, he, _⟩ := unexpected_error hs what; ⟨e, bind_error he⟩

theorem discard (hp : InStep B m C p q) : InStep B m C (discard p) (discard q) := by
  have herror : ∀ {src s s'} {p : Parse α} {e : SyntaxError}, p src s = .error e s' →
      Functor.discard p src s = .error e s' := by
    intro src s s' p e hr
    show EStateM.map _ (p src) s = _
    rw [EStateM.map, hr]
  have hok : ∀ {s s' u}, Functor.discard p B.left s = .ok u s' → ∃ a, p B.left s = .ok a s' := by
    intro s s' u hr
    cases hp' : p B.left s with
    | ok a s'' =>
      rw [discard_ok hp'] at hr
      cases hr
      exact ⟨a, rfl⟩
    | error e s'' =>
      rw [herror hp'] at hr
      cases hr
  refine ⟨fun s hs => ?_, fun hm s a s' hs hr => ?_,
    fun s₁ s₂ a₁ s₁' htwin hC hr herrors hholds => ?_⟩
  · have hmoves := hp.moves s hs
    cases hr : p B.left s with
    | ok a s' =>
      rw [discard_ok hr]
      rwa [hr] at hmoves
    | error e s' =>
      rw [herror hr]
      rwa [hr] at hmoves
  · obtain ⟨b, hb⟩ := hok hr
    exact hp.leaves hm s b s' hs hb
  · obtain ⟨b, hb⟩ := hok hr
    obtain ⟨b₂, s₂', hq, -, htwin'⟩ := hp.run s₁ s₂ b s₁' htwin hC hb herrors hholds
    exact ⟨(), s₂', discard_ok hq, rfl, htwin'⟩

/-- A question whose answer is the same in both texts, and may tell of the current token. -/
theorem askAt {γ : Type} {p q : Parse γ} [Looks p] {f g : γ → Parse β} [hm : m.Shared]
    {D : γ → Option TokenKind → Prop}
    (hp : ∀ s₁ s₂, B.Twin s₁ s₂ → B.Free s₁ → C (s₁.current.map (·.kind)) →
      ∃ x, p B.left s₁ = .ok x s₁ ∧ q B.right s₂ = .ok x s₂ ∧ D x (s₁.current.map (·.kind)))
    (hf : ∀ x, InStep B m (D x) (f x) (g x)) : InStep B m C (p >>= f) (q >>= g) := by
  have hlook : ∀ {s}, ∃ x, (p >>= f) B.left s = f x B.left s ∧ p B.left s = .ok x s := by
    intro s
    obtain ⟨x, hx⟩ := Looks.looks (p := p) B.left s
    exact ⟨x, bind_ok hx, hx⟩
  refine ⟨fun s hs => ?_, fun hends s a s' hs hr => ?_,
    fun s₁ s₂ a₁ s₁' htwin hC hr herrors hholds => ?_⟩
  · obtain ⟨x, hx, -⟩ := hlook (s := s)
    rw [hx]
    exact (hf x).moves s hs
  · obtain ⟨x, hx, -⟩ := hlook (s := s)
    rw [hx] at hr
    exact (hf x).leaves hends s a s' hs hr
  · obtain ⟨x, hx, hp'⟩ := hlook (s := s₁)
    rw [hx] at hr
    have hfree := (hf x).start_free hm.ne htwin.stands hr hholds
    obtain ⟨y, hy, hq, hD⟩ := hp s₁ s₂ htwin hfree hC
    obtain ⟨rfl, -⟩ := EStateM.Result.ok.inj (hp'.symm.trans hy)
    rw [bind_ok hq]
    exact (hf x).run s₁ s₂ a₁ s₁' htwin hD hr herrors hholds

theorem ask {γ : Type} {p q : Parse γ} [Looks p] {f g : γ → Parse β} [m.Shared]
    (hp : ∀ s₁ s₂, B.Twin s₁ s₂ → B.Free s₁ → C (s₁.current.map (·.kind)) →
      ∃ x, p B.left s₁ = .ok x s₁ ∧ q B.right s₂ = .ok x s₂)
    (hf : ∀ x, InStep B m C (f x) (g x)) : InStep B m C (p >>= f) (q >>= g) := by
  refine @askAt β _ B m C γ p q _ f g _ (fun _ => C) (fun s₁ s₂ htwin hfree hC => ?_) hf
  obtain ⟨x, hx, hy⟩ := hp s₁ s₂ htwin hfree hC
  exact ⟨x, hx, hy, hC⟩

/-- A place that is only put into the result. -/
theorem place {γ : Type} {p q : Parse γ} {f g : γ → Parse β}
    (hp : ∀ src s, ∃ x, p src s = .ok x s) (hq : ∀ src s, ∃ x, q src s = .ok x s)
    (hf : ∀ x y, InStep B m C (f x) (g y)) : InStep B m C (p >>= f) (q >>= g) := by
  refine ⟨fun s hs => ?_, fun hends s a s' hs hr => ?_,
    fun s₁ s₂ a₁ s₁' htwin hC hr herrors hholds => ?_⟩
  · obtain ⟨x, hx⟩ := hp B.left s
    rw [bind_ok hx]
    exact (hf x x).moves s hs
  · obtain ⟨x, hx⟩ := hp B.left s
    rw [bind_ok hx] at hr
    exact (hf x x).leaves hends s a s' hs hr
  · obtain ⟨x, hx⟩ := hp B.left s₁
    obtain ⟨y, hy⟩ := hq B.right s₂
    rw [bind_ok hx] at hr
    rw [bind_ok hy]
    exact (hf x y).run s₁ s₂ a₁ s₁' htwin hC hr herrors hholds

/-- The text itself is asked for. -/
theorem read {f g : Source → Parse β} (hf : InStep B m C (f B.left) (g B.right)) :
    InStep B m C (MonadReader.read >>= f) (MonadReader.read >>= g) :=
  ⟨hf.moves, hf.leaves, hf.run⟩

end InStep

end

/-! ### Questions -/

/-- A question to the kind of the current token. -/
class Tests (p : Parse Bool) : Prop where
  tests : ∃ test : Option TokenKind → Bool, ∀ src s, p src s = .ok (test (s.current.map (·.kind))) s

instance (k : TokenKind) : Tests (check k) := ⟨(· == some k), fun _ _ => rfl⟩
instance (kinds : List TokenKind) : Tests (checkAny kinds) :=
  ⟨(·.any kinds.contains), fun _ _ => rfl⟩
instance : Tests atMemberName := ⟨(·.any TokenKind.isMemberName), fun _ _ => rfl⟩
instance : Tests atEnd := ⟨Option.isNone, fun _ s => by
  show EStateM.Result.ok s.current.isNone s = _
  rw [Option.isNone_map]⟩

instance (p : Parse Bool) [Tests p] : Looks p := by
  obtain ⟨test, htest⟩ := Tests.tests (p := p)
  exact ⟨fun src s => ⟨_, htest src s⟩⟩

section

variable {α β : Type} [Unplaced α] [Unplaced β] {B : Bond} {m m₁ m₂ : Manner}
  {C : Option TokenKind → Prop} {s s' s₁ s₂ : State} {t : Token}

namespace InStep

theorem test {b : Parse Bool} [Tests b] [m.Shared] {f g : Bool → Parse β}
    (hf : ∀ x, InStep B m C (f x) (g x)) : InStep B m C (b >>= f) (b >>= g) := by
  refine ask (fun s₁ s₂ htwin hfree _ => ?_) hf
  obtain ⟨test, htest⟩ := Tests.tests (p := b)
  exact ⟨_, htest _ _, by rw [htest, htwin.kind hfree]⟩

theorem branch {b : Parse Bool} [Tests b] [m.Shared] {p q p' q' : Parse β}
    (hp : InStep B m C p q) (hq : InStep B m C p' q') :
    InStep B m C (b >>= fun x => if x = true then p else p')
      (b >>= fun x => if x = true then q else q') :=
  test fun _ => ite (fun _ => hp) fun _ => hq

/-- The kind of the current token is known in what follows. -/
theorem kind [m.Shared] {f g : Option TokenKind → Parse β}
    (hf : ∀ k, InStep B m (· = k) (f k) (g k)) : InStep B m C (kind? >>= f) (kind? >>= g) :=
  askAt (fun s₁ s₂ htwin hfree _ =>
    ⟨s₁.current.map (·.kind), rfl, by rw [htwin.kind hfree]; rfl, rfl⟩)
    fun k => (hf k)

/-- The current token is looked at. -/
theorem current [m.Shared] {f g : State → Parse β}
    (hnone : ∀ s s', s.current = none → s'.current = none → InStep B m C (f s) (g s'))
    (hsome : ∀ s s' t t', s.current = some t → s'.current = some t' → unplaced t = unplaced t' →
      InStep B m C (f s) (g s')) :
    InStep B m C (get >>= f) (get >>= g) := by
  have hself : ∀ s, InStep B m C (f s) (g s) := by
    intro s
    cases hs : s.current with
    | none => exact hnone s s hs hs
    | some t => exact hsome s s t t hs hs rfl
  refine ⟨fun s hs => (hself s).moves s hs, fun hends s a s' hs hr =>
    (hself s).leaves hends s a s' hs hr,
    fun s₁ s₂ a₁ s₁' htwin hC hr herrors hholds => ?_⟩
  have hfree := (hself s₁).start_free (Manner.Shared.ne (m := m)) htwin.stands hr hholds
  have hfg : InStep B m C (f s₁) (g s₂) := by
    obtain ⟨h₁, h₂⟩ | ⟨t₁, t₂, h₁, h₂, ht⟩ := htwin.current hfree
    · exact hnone s₁ s₂ h₁ h₂
    · exact hsome s₁ s₂ t₁ t₂ h₁ h₂ ht.unplaced
  exact hfg.run s₁ s₂ a₁ s₁' htwin hC hr herrors hholds

/-- The current token is looked at, if there is one. -/
theorem current? [m.Shared] {f g : State → Parse β}
    (hf : ∀ s s', unplaced s.current = unplaced s'.current → InStep B m C (f s) (g s')) :
    InStep B m C (get >>= f) (get >>= g) :=
  current (fun s s' hs hs' => hf s s' (by rw [hs, hs'])) fun s s' t t' hs hs' ht =>
    hf s s' (by rw [hs, hs', unplaced_some, unplaced_some, ht])

end InStep

namespace InStep

/-- The token behind the current one is asked for, where the current one can end nothing. -/
theorem peek [m.Shared] {f g : Option TokenKind → Parse β} (hC : ∀ k, C (some k) → k ∉ closing)
    (hf : ∀ k, InStep B m C (f k) (g k)) : InStep B m C (peek? >>= f) (peek? >>= g) := by
  refine ask (fun s₁ s₂ htwin hfree hC' => ⟨(State.nthToken? 0 s₁.rest).map (·.kind), rfl, ?_⟩) hf
  rw [kind_of_rel (htwin.peek hfree fun k hk => hC k (hk ▸ hC'))]
  rfl

/-- The token behind the current one is asked for, where all that follows fails unless the current
one can end nothing. -/
theorem peekUnless [m.Shared] {f g : Option TokenKind → Parse β}
    (hfails : ∀ k s, s.Stands (.unknown B.left) → (∃ t, s.current = some t ∧ t.kind ∈ closing) →
      ∃ e s', f k B.left s = .error e s')
    (hf : ∀ k, InStep B m C (f k) (g k)) : InStep B m C (peek? >>= f) (peek? >>= g) := by
  have hpeek : ∀ (src : Source) (s : State),
      peek? src s = .ok ((State.nthToken? 0 s.rest).map (·.kind)) s := fun _ _ => rfl
  refine ⟨fun s hs => ?_, fun hends s a s' hs hr => ?_,
    fun s₁ s₂ a₁ s₁' htwin hC hr herrors hholds => ?_⟩
  · rw [bind_ok (hpeek _ s)]
    exact (hf _).moves s hs
  · rw [bind_ok (hpeek _ s)] at hr
    exact (hf _).leaves hends s a s' hs hr
  · rw [bind_ok (hpeek _ s₁)] at hr
    rw [bind_ok (hpeek _ s₂)]
    have hfree := (hf _).start_free (Manner.Shared.ne (m := m)) htwin.stands hr hholds
    have hclosing : ∀ k, s₁.current.map (·.kind) = some k → k ∉ closing := by
      intro k hk hmem
      obtain ⟨t, ht, rfl⟩ := Option.map_eq_some_iff.1 hk
      obtain ⟨e, s', he⟩ := hfails _ s₁ htwin.stands ⟨t, ht, hmem⟩
      cases he.symm.trans hr
    rw [← kind_of_rel (htwin.peek hfree hclosing)]
    exact (hf _).run s₁ s₂ a₁ s₁' htwin hC hr herrors hholds

/-- The token behind the current one only matters where a test of the current one tells that it can
end nothing. -/
theorem guarded_of [m.Shared] {b : Parse Bool} (test : Option TokenKind → Bool)
    (htest : ∀ src s, b src s = .ok (test (s.current.map (·.kind))) s)
    (hclosing : ∀ k, test (some k) = true → k ∉ closing) {t : Option TokenKind → Bool}
    {p q p' q' : Parse β} (hp : InStep B m C p q) (hq : InStep B m C p' q') :
    InStep B m C (b >>= fun x => peek? >>= fun k => if (x && t k) = true then p else p')
      (b >>= fun x => peek? >>= fun k => if (x && t k) = true then q else q') := by
  have _ : Tests b := ⟨test, htest⟩
  refine @askAt β _ B m C Bool b b _ _ _ _ (fun x k => x = test k ∧ C k)
    (fun s₁ s₂ htwin hfree hC =>
    ⟨_, htest _ _, by rw [htest, htwin.kind hfree], rfl, hC⟩) fun x => ?_
  have hp := hp.mono (D := fun k => x = test k ∧ C k) fun _ h => h.2
  have hq := hq.mono (D := fun k => x = test k ∧ C k) fun _ h => h.2
  cases x with
  | true => exact peek (fun k hk => hclosing k hk.1.symm) fun k => ite (fun _ => hp) fun _ => hq
  | false => exact place (fun _ _ => ⟨_, rfl⟩) (fun _ _ => ⟨_, rfl⟩) fun _ _ => hq

theorem guarded [m.Shared] {k : TokenKind} (hk : k ∉ closing) {t : Option TokenKind → Bool}
    {p q p' q' : Parse β} (hp : InStep B m C p q) (hq : InStep B m C p' q') :
    InStep B m C (check k >>= fun x => peek? >>= fun n => if (x && t n) = true then p else p')
      (check k >>= fun x => peek? >>= fun n => if (x && t n) = true then q else q') := by
  refine guarded_of (· == some k) (fun _ _ => rfl) (fun k' hk' => ?_) hp hq
  rwa [Option.some.inj (beq_iff_eq.1 hk')]

theorem guardedName [m.Shared] {t : Option TokenKind → Bool} {p q p' q' : Parse β}
    (hp : InStep B m C p q) (hq : InStep B m C p' q') :
    InStep B m C (atMemberName >>= fun x => peek? >>= fun n => if (x && t n) = true then p else p')
      (atMemberName >>= fun x => peek? >>= fun n => if (x && t n) = true then q else q') := by
  have hclosing : ∀ k ∈ closing, k.isMemberName = false := by decide
  refine guarded_of (·.any TokenKind.isMemberName) (fun _ _ => rfl) (fun k hk hmem => ?_) hp hq
  rw [Option.any_some, hclosing k hmem] at hk
  cases hk

end InStep

end

end PhpCheck.Grammar
