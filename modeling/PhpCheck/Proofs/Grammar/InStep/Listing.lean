import PhpCheck.Proofs.Grammar.InStep.Steps
import PhpCheck.Proofs.Grammar.Roundtrip

/-!
Sequences of statements without faults.

Where no fault is noted, a sequence of statements is read one statement after the other, with the
tags between them passed over, up to a token that ends it (`Listed`).  This says nothing of the
bound on the number of rounds, which is never reached.
-/

namespace PhpCheck.Grammar

/-- The tags that may stand between statements. -/
def tags : List TokenKind := [.openTag, .closeTag]

/-- From one state to another some statements are read, up to a token of certain kinds or to the end
of the text. -/
inductive Listed (below : Below) (terminators : List TokenKind) (src : Source) :
    State → List Node → State → Prop
  | done {s : State} (hs : ∀ t ∈ s.current, t.kind ∈ terminators) :
    Listed below terminators src s [] s
  | tag {s s' : State} {t : Token} {nodes : List Node} (ht : s.current = some t)
      (hk : t.kind ∉ terminators) (htag : t.kind ∈ tags)
      (hrest : Listed below terminators src s.advance nodes s') :
      Listed below terminators src s nodes s'
  | statement {s s₁ s' : State} {t : Token} {n : Node} {nodes : List Node} (ht : s.current = some t)
      (hk : t.kind ∉ terminators) (htag : t.kind ∉ tags) (hn : below .statement src s = .ok n s₁)
      (hrest : Listed below terminators src s₁ nodes s') :
      Listed below terminators src s (n :: nodes) s'

/-- One round over statements. -/
def roundUntil (below : Below) (terminators : List TokenKind) (done : List Node) :
    Parse (Round (List Node)) := do
  match ← kind? with
  | none => return .done done
  | some kind =>
    if terminators.contains kind then return .done done
    if kind == .openTag || kind == .closeTag then
      discard advance
      return .more done
    let start ← here
    match ← attempt (below .statement) with
    | .ok node => return .more (node :: done)
    | .error e =>
      note e
      synchronize
      return .more ((← nodeFrom .error start []) :: done)

section

variable {below : Below} {terminators : List TokenKind} {src : Source} {s s' s₁ : State} {t : Token}
  {n : Node} {nodes done : List Node}

theorem statementsUntil_rounds (below : Below) (terminators : List TokenKind) :
    statementsUntil below terminators = repeated [] (roundUntil below terminators) >>=
      fun statements =>
      pure statements.reverse := rfl

/-! ### Where the statements end -/

theorem Listed.ends (h : Listed below terminators src s nodes s') :
    ∀ t ∈ s'.current, t.kind ∈ terminators := by
  induction h with
  | done hs => exact hs
  | tag _ _ _ _ ih => exact ih
  | statement _ _ _ _ _ ih => exact ih

theorem Listed.current_none (h : Listed below [] src s nodes s') : s'.current = none := by
  cases ht : s'.current with
  | none => rfl
  | some t => exact absurd (h.ends t ht) List.not_mem_nil

/-- A single statement behind a tag. -/
theorem Listed.single {u : Token} (h : Listed below [] src s [n] s') (ht : s.current = some t)
    (hk : t.kind ∈ tags) (hu : s.advance.current = some u) (hk' : u.kind ∉ tags) :
    ∃ s₁, below .statement src s.advance = .ok n s₁ ∧ Listed below [] src s₁ [] s' := by
  cases h with
  | statement ht' _ htag =>
    obtain rfl := Option.some.inj (ht.symm.trans ht')
    exact absurd hk htag
  | tag _ _ _ hrest =>
    cases hrest with
    | tag hu' _ htag =>
      obtain rfl := Option.some.inj (hu.symm.trans hu')
      exact absurd htag hk'
    | statement _ _ _ hn hrest => exact ⟨_, hn, hrest⟩

/-! ### One round -/

theorem kind?_eq (src : Source) (s : State) : kind? src s = .ok (s.current.map (·.kind)) s := rfl

theorem roundUntil_done (hs : ∀ t ∈ s.current, t.kind ∈ terminators) :
    roundUntil below terminators done src s = .ok (.done done) s := by
  rw [roundUntil, bind_ok (kind?_eq src s)]
  cases ht : s.current with
  | none => rfl
  | some t =>
    rw [Option.map_some]
    dsimp only
    rw [if_pos (List.contains_iff_mem.2 (hs t ht))]
    rfl

theorem roundUntil_tag (ht : s.current = some t) (hk : t.kind ∉ terminators)
    (htag : t.kind ∈ tags) :
    roundUntil below terminators done src s = .ok (.more done) s.advance := by
  have hadvance : discard advance src s = .ok () s.advance := discard_ok rfl
  have htag' : (t.kind == .openTag || t.kind == .closeTag) = true := by
    simpa [tags] using htag
  rw [roundUntil, bind_ok (kind?_eq src s), ht, Option.map_some]
  dsimp only
  rw [if_neg (fun h => hk (List.contains_iff_mem.1 h)), if_pos htag', bind_ok hadvance]
  rfl

/-- Where a statement begins it is tried. -/
theorem roundUntil_attempt (ht : s.current = some t) (hk : t.kind ∉ terminators)
    (htag : t.kind ∉ tags) :
    roundUntil below terminators done src s =
      (attempt (below .statement) >>= fun result => match result with
        | .ok node => pure (.more (node :: done))
        | .error e => note e >>= fun _ => synchronize >>= fun _ =>
          nodeFrom .error t.span.start [] >>= fun node => pure (.more (node :: done))) src s := by
  have htag' : ¬(t.kind == .openTag || t.kind == .closeTag) = true := by
    simpa [tags] using htag
  have hhere : here src s = .ok t.span.start s := by
    show EStateM.Result.ok ((s.current.map (·.span.start)).getD src.size) s = _
    rw [ht]
    rfl
  rw [roundUntil, bind_ok (kind?_eq src s), ht, Option.map_some]
  dsimp only
  rw [if_neg (fun h => hk (List.contains_iff_mem.1 h)), if_neg htag', bind_ok hhere]

theorem roundUntil_statement (ht : s.current = some t) (hk : t.kind ∉ terminators)
    (htag : t.kind ∉ tags)
    (hn : below .statement src s = .ok n s₁) :
    roundUntil below terminators done src s = .ok (.more (n :: done)) s₁ := by
  have hattempt : attempt (below .statement) src s = .ok (.ok n) s₁ := by rw [attempt_eq, hn]
  rw [roundUntil_attempt ht hk htag, bind_ok hattempt]
  rfl

/-- A statement passes over tokens only, and over one or more where it does not fail. -/
theorem Below.Reads.step (hbelow : below.Reads (.unknown src)) (hs : s.Stands (.unknown src))
    (ht : s.current = some t) : Moves src s (below .statement src s) ∧
      ∀ n s', below .statement src s = .ok n s' → s'.pending.length < s.pending.length := by
  have hreads : Grammar.Reads (.unknown src) true true 0 (below .statement) := hbelow.statement
  have hsome : s.current.isSome = true := by rw [ht]; rfl
  have hfair := hreads s hs fun _ => hsome
  rw [show (Ground.unknown src).src = src from rfl] at hfair
  cases hr : below .statement src s with
  | ok n s₁ =>
    rw [hr] at hfair
    cases hfair with
    | ok step fits consumed errors =>
      refine ⟨step, fun n' s' hr' => ?_⟩
      obtain ⟨-, rfl⟩ := EStateM.Result.ok.inj hr'
      exact consumed rfl (counted n)
  | error e s₁ =>
    rw [hr] at hfair
    cases hfair with
    | error step fits fault => exact ⟨step, fun _ _ hr => by cases hr⟩

/-- A round at the beginning of a statement reads that statement, unless a fault is noted. -/
theorem statement_of_roundUntil {r : Round (List Node)} (hbelow : below.Reads (.unknown src))
    (hs : s.Stands (.unknown src)) (ht : s.current = some t) (hk : t.kind ∉ terminators)
    (htag : t.kind ∉ tags) (hr : roundUntil below terminators done src s = .ok r s') :
    Step (.unknown src) s s' ∧
      (s'.errors = [] → ∃ n, below .statement src s = .ok n s' ∧ r = .more (n :: done)) := by
  have hmoves := (hbelow.step hs ht).1
  rw [roundUntil_attempt ht hk htag] at hr
  cases hn : below .statement src s with
  | ok n s₁ =>
    have hattempt : attempt (below .statement) src s = .ok (.ok n) s₁ := by rw [attempt_eq, hn]
    rw [bind_ok hattempt] at hr
    obtain ⟨rfl, rfl⟩ := EStateM.Result.ok.inj hr
    rw [hn] at hmoves
    exact ⟨hmoves, fun _ => ⟨n, rfl, rfl⟩⟩
  | error e s₁ =>
    have hattempt : attempt (below .statement) src s = .ok (.error e) s₁ := by rw [attempt_eq, hn]
    rw [bind_ok hattempt] at hr
    rw [hn] at hmoves
    have hunknown := unknown_not_known src
    let failed : Unit → Parse (Round (List Node)) := fun _ =>
      nodeFrom .error t.span.start [] >>= fun node => pure (.more (node :: done))
    have hfailed : Reads (.unknown src) false false (Result.errors done + 1) (failed ()) :=
      errorNode_reads (absurd · hunknown) (fun _ _ hG => absurd hG hunknown) (Nat.le_refl _)
    have hnotes : Notes src s₁ ((note e >>= fun _ => synchronize >>= failed) src s₁) :=
      notes_note e hmoves.stands (fun s hs => (synchronize_ok src hs).imp fun _ h => ⟨h.1, h.2.1⟩)
        hfailed
    rw [show (note e >>= fun _ => synchronize >>= failed) src s₁ = .ok r s' from hr] at hnotes
    exact ⟨Step.trans hmoves hnotes.1, fun herrors => absurd herrors hnotes.2⟩

/-! ### All rounds -/

theorem Listed.step (hbelow : below.Reads (.unknown src))
    (h : Listed below terminators src s nodes s')
    (hs : s.Stands (.unknown src)) : Step (.unknown src) s s' := by
  induction h with
  | done => exact .refl hs
  | tag ht hk htag _ ih =>
    have hstep := Step.advance hs
    exact hstep.trans (ih hstep.stands)
  | statement ht hk htag hn _ ih =>
    have hstep := (hbelow.step hs ht).1
    rw [hn] at hstep
    exact Step.trans hstep (ih hstep.stands)

/-- Rounds without a fault read some statements. -/
theorem listed_of_rounds (hbelow : below.Reads (.unknown src)) {fuel : Nat} {all : List Node}
    (hs : s.Stands (.unknown src))
    (hr : rounds (roundUntil below terminators) fuel done src s = .ok all s') :
    Step (.unknown src) s s' ∧ (s'.errors = [] →
      ∃ nodes, all = nodes.reverse ++ done ∧ Listed below terminators src s nodes s') := by
  induction fuel generalizing s done with
  | zero =>
    obtain ⟨e, he⟩ := stall_error (α := List Node) src s
    rw [rounds, he] at hr
    cases hr
  | succ fuel ih =>
    by_cases hdone : ∀ t ∈ s.current, t.kind ∈ terminators
    · rw [rounds_done (roundUntil_done hdone)] at hr
      obtain ⟨rfl, rfl⟩ := EStateM.Result.ok.inj hr
      exact ⟨.refl hs, fun _ => ⟨[], rfl, .done hdone⟩⟩
    push Not at hdone
    obtain ⟨t, ht, hk⟩ := hdone
    by_cases htag : t.kind ∈ tags
    · rw [rounds_more (roundUntil_tag ht hk htag)] at hr
      have hstep := Step.advance hs
      obtain ⟨hrest, hlisted⟩ := ih hstep.stands hr
      refine ⟨hstep.trans hrest, fun herrors => ?_⟩
      obtain ⟨nodes, rfl, hnodes⟩ := hlisted herrors
      exact ⟨nodes, rfl, .tag ht hk htag hnodes⟩
    cases hround : roundUntil below terminators done src s with
    | error e s₁ =>
      rw [rounds_error hround] at hr
      cases hr
    | ok r s₁ =>
      obtain ⟨hstep, hread⟩ := statement_of_roundUntil hbelow hs ht hk htag hround
      cases r with
      | done all' =>
        rw [rounds_done hround] at hr
        obtain ⟨rfl, rfl⟩ := EStateM.Result.ok.inj hr
        refine ⟨hstep, fun herrors => ?_⟩
        obtain ⟨n, -, hmore⟩ := hread herrors
        cases hmore
      | more all' =>
        rw [rounds_more hround] at hr
        obtain ⟨hrest, hlisted⟩ := ih hstep.stands hr
        refine ⟨hstep.trans hrest, fun herrors => ?_⟩
        obtain ⟨n, hn, hmore⟩ := hread (hrest.errors_nil herrors)
        obtain rfl := Round.more.inj hmore
        obtain ⟨nodes, rfl, hnodes⟩ := hlisted herrors
        exact ⟨n :: nodes, by rw [List.reverse_cons, List.append_assoc]; rfl,
          .statement ht hk htag hn hnodes⟩

/-- As many rounds as there are tokens are enough. -/
theorem Listed.rounds (hbelow : below.Reads (.unknown src))
    (h : Listed below terminators src s nodes s')
    {fuel : Nat} (hfuel : s.pending.length < fuel) (hs : s.Stands (.unknown src)) :
    rounds (roundUntil below terminators) fuel done src s = .ok (nodes.reverse ++ done) s' := by
  induction h generalizing fuel done with
  | done hdone =>
    obtain ⟨fuel, rfl⟩ := Nat.exists_eq_add_of_le' hfuel
    exact rounds_done (roundUntil_done hdone)
  | @tag s s' t nodes ht hk htag _ ih =>
    have hlt := advance_lt (ht ▸ rfl : s.current.isSome = true)
    obtain ⟨fuel, rfl⟩ := Nat.exists_eq_add_of_le' (Nat.lt_of_le_of_lt (Nat.zero_le _) hfuel)
    rw [rounds_more (roundUntil_tag ht hk htag)]
    exact ih (Nat.lt_of_lt_of_le hlt (Nat.le_of_lt_succ hfuel)) (Step.advance hs).stands
  | @statement s s₁ s' t n nodes ht hk htag hn _ ih =>
    obtain ⟨hmoves, hlt⟩ := hbelow.step hs ht
    rw [hn] at hmoves
    obtain ⟨fuel, rfl⟩ := Nat.exists_eq_add_of_le' (Nat.lt_of_le_of_lt (Nat.zero_le _) hfuel)
    rw [rounds_more (roundUntil_statement ht hk htag hn), List.reverse_cons, List.append_assoc]
    exact ih (Nat.lt_of_lt_of_le (hlt n s₁ hn) (Nat.le_of_lt_succ hfuel)) hmoves.stands

/-- What is read where no fault is noted. -/
theorem listed_of_statementsUntil (hbelow : below.Reads (.unknown src))
    (hs : s.Stands (.unknown src))
    (hr : statementsUntil below terminators src s = .ok nodes s') (herrors : s'.errors = []) :
    Listed below terminators src s nodes s' := by
  rw [statementsUntil_rounds] at hr
  obtain ⟨all, s₁, hrounds, hr⟩ := exists_of_bind hr
  obtain ⟨rfl, rfl⟩ := EStateM.Result.ok.inj hr
  rw [repeated_eq] at hrounds
  obtain ⟨nodes, rfl, hnodes⟩ := (listed_of_rounds hbelow hs hrounds).2 herrors
  rwa [List.append_nil, List.reverse_reverse]

theorem Listed.statementsUntil (hbelow : below.Reads (.unknown src))
    (h : Listed below terminators src s nodes s') (hs : s.Stands (.unknown src)) :
    statementsUntil below terminators src s = .ok nodes s' := by
  have hrounds : repeated [] (roundUntil below terminators) src s =
    .ok (nodes.reverse ++ []) s' := by
    rw [repeated_eq]
    exact h.rounds hbelow (Nat.lt_succ_of_le s.pending_length_le) hs
  rw [statementsUntil_rounds, bind_ok hrounds, List.append_nil]
  show EStateM.Result.ok nodes.reverse.reverse s' = _
  rw [List.reverse_reverse]

end

end PhpCheck.Grammar
