import PhpCheck.Proofs.Check.Hoisting

/-!
Steps that do not see the variables.

A step is blind if it does the same in every environment, and leaves the environment as
it is, except that it may have made it a snapshot (`Check.Blind`).  Where a rule works
with snapshots, the step up to the first one (`Check.Takes`) is told from those behind it
(`Check.Still`), which leave the snapshot as it is.  A step in a scope of its own is
blind, whatever it does there (`Check.Blind.inScope`).
-/

namespace PhpCheck

open Check

/-! ### Environments that are made snapshots -/

/-- An environment that may have been made a snapshot. -/
def Env.taken (e : Env) : Option Nat → Env
  | none => e
  | some k => e.numbered k

theorem Env.taken_taken (e : Env) (k k' : Option Nat) :
    (e.taken k).taken k' = e.taken (k.or k') := by
  cases k with
  | none => cases k' <;> rfl
  | some k =>
    cases k' with
    | none => rfl
    | some k' =>
      show Env.mk e.bindings ((e.snapshot.or (some k)).or (some k')) = _
      rw [Option.or_assoc, Option.some_or]
      rfl

theorem Env.taken_bindings (e : Env) (k : Option Nat) : (e.taken k).bindings = e.bindings := by
  cases k <;> rfl

/-- An environment that is a snapshot stays the same one. -/
theorem Env.taken_of_snapshot {e : Env} (he : e.snapshot.isSome = true) (k : Option Nat) :
    e.taken k = e := by
  obtain ⟨number, hnumber⟩ := Option.isSome_iff_exists.1 he
  cases k with
  | none => rfl
  | some k =>
    show Env.mk e.bindings (e.snapshot.or (some k)) = e
    rw [hnumber, Option.some_or, ← hnumber]

theorem Env.snapshot_taken (e : Env) {k : Option Nat} (hk : k.isSome = true) :
    (e.taken k).snapshot.isSome = true := by
  obtain ⟨number, rfl⟩ := Option.isSome_iff_exists.1 hk
  show (e.snapshot.or (some number)).isSome = true
  rw [Option.isSome_or, Option.isSome_some, Bool.or_true]

/-- Paths that all end in one snapshot meet in it. -/
theorem Env.joinAll?_snapshot {e : Env} (he : e.snapshot.isSome = true) {es : List Env}
    (hes : ∀ e' ∈ es, e' = e) : (Env.joinAll? es).getD e = e := by
  cases es with
  | nil => rfl
  | cons first rest =>
    obtain rfl := hes first List.mem_cons_self
    have hrest : ∀ e' ∈ rest, e' = first := fun e' h => hes e' (List.mem_cons_of_mem _ h)
    clear hes
    show rest.foldl Env.merge first = first
    induction rest with
    | nil => rfl
    | cons e' rest ih =>
      rw [List.foldl_cons, hrest e' List.mem_cons_self, Env.merge_self he]
      exact ih fun e'' h => hrest e'' (List.mem_cons_of_mem _ h)

/-- The checker in another environment. -/
def Checker.withEnv (c : Checker) (e : Env) : Checker :=
  { c with scope := { c.scope with env := e } }

/-! ### Blind steps -/

section

variable {α β γ δ : Type} {setting : Setting}

/-- How a step ends in another environment, of which its value may be made. -/
def Check.ending (v : β → Env → α) (e : Env) :
    EStateM.Result Abort Checker β → EStateM.Result Abort Checker α
  | .ok b c => .ok (v b e) (c.withEnv e)
  | .error x c => .error x (c.withEnv e)

/-- A value that is not made of the environment. -/
abbrev Check.plain (a : α) (_ : Env) : α := a

/-- A step that does not see the variables. -/
def Check.Blind (setting : Setting) (m : Check α) : Prop :=
  ∀ c : Checker, ∃ k last, ∀ e, m setting (c.withEnv e) = ending plain (e.taken k) last

/-- A step that makes the environment a snapshot, and does not see the variables. -/
def Check.Takes (setting : Setting) (v : β → Env → α) (m : Check α) : Prop :=
  ∀ c : Checker, ∃ k last, (∀ b c', last = .ok b c' → k.isSome = true) ∧
    ∀ e, m setting (c.withEnv e) = ending v (e.taken k) last

/-- A step where the environment is a snapshot already. -/
def Check.Still (setting : Setting) (v : β → Env → α) (g : Env → Check α) : Prop :=
  ∀ c : Checker, ∃ last, ∀ e, e.snapshot.isSome = true →
    g e setting (c.withEnv e) = ending v e last

namespace Check.Blind

@[grind ←]
theorem pure (a : α) : (Pure.pure a : Check α).Blind setting :=
  fun c => ⟨none, .ok a c, fun _ => rfl⟩

@[grind ←]
theorem bind {m : Check α} {f : α → Check β} (hm : m.Blind setting)
    (hf : ∀ a, (f a).Blind setting) : (m >>= f).Blind setting := by
  intro c
  obtain ⟨k, last, hm⟩ := hm c
  cases last with
  | ok a c' =>
    obtain ⟨k', last', hf⟩ := hf a c'
    refine ⟨k.or k', last', fun e => (bind_run_ok (hm e)).trans ?_⟩
    rw [← Env.taken_taken, ← hf]
  | error x c' =>
    exact ⟨k, .error x c', fun e => bind_run_error (hm e)⟩

theorem ite {p : Prop} [Decidable p] {m n : Check α} (hm : m.Blind setting)
    (hn : n.Blind setting) : (if p then m else n).Blind setting := by
  split
  · exact hm
  · exact hn

theorem modifyGet {f : Checker → α × Checker}
    (hf : ∀ c e, f (c.withEnv e) = ((f c).1, (f c).2.withEnv e)) :
    (modifyGet f : Check α).Blind setting := by
  intro c
  refine ⟨none, .ok (f c).1 (f c).2, fun e => ?_⟩
  rw [modifyGet_run, hf]
  rfl

theorem reads {f : Checker → α} (hf : ∀ c e, f (c.withEnv e) = f c) :
    (do return f (← get) : Check α).Blind setting :=
  fun c => ⟨none, .ok (f c) c, fun e => congrArg (EStateM.Result.ok · _) (hf c e)⟩

theorem writes {f : Checker → Checker} (hf : ∀ c e, f (c.withEnv e) = (f c).withEnv e) :
    (modify f : Check Unit).Blind setting :=
  modifyGet fun c e => congrArg (Prod.mk ()) (hf c e)

/-- What does not depend on the checker at all. -/
theorem asks {f : Setting → α} : (do return f (← read) : Check α).Blind setting :=
  fun c => ⟨none, .ok (f setting) c, fun _ => rfl⟩

@[grind ←]
theorem currentFile : Check.currentFile.Blind setting := asks

@[grind ←]
theorem currentDir : Check.currentDir.Blind setting := asks

@[grind ←]
theorem registry : Check.registry.Blind setting := reads fun _ _ => rfl

@[grind ←]
theorem hierarchy : Check.hierarchy.Blind setting := by
  grind [Check.hierarchy]

@[grind ←]
theorem modifyRegistry (f : Registry → Registry) : (modifyRegistry f).Blind setting :=
  writes fun _ _ => rfl

@[grind ←]
theorem analyzerConfig : Check.analyzerConfig.Blind setting := reads fun _ _ => rfl

@[grind ←]
theorem autoload (name : String) : (autoload name).Blind setting :=
  fun c => ⟨none, .ok (setting.loads.autoload name c.session).1
    { c with session := (setting.loads.autoload name c.session).2 }, fun _ => rfl⟩

@[grind ←]
theorem resolveInclude? (target : String) : (resolveInclude? target).Blind setting :=
  fun c => ⟨none, .ok (c.session.loader.resolveInclude? target setting.dir) c, fun _ => rfl⟩

@[grind ←]
theorem includeFile (path : String) (once : Bool) : (includeFile path once).Blind setting :=
  fun c => ⟨none, .ok (setting.loads.includeFile path once c.session).1
    { c with session := (setting.loads.includeFile path once c.session).2 }, fun _ => rfl⟩

@[grind ←]
theorem hoistedStarts : Check.hoistedStarts.Blind setting := reads fun _ _ => rfl

@[grind ←]
theorem isHoisted (node : Node) : (isHoisted node).Blind setting := by
  grind [Check.isHoisted]

@[grind ←]
theorem noteHoisted (node : Node) : (noteHoisted node).Blind setting := writes fun _ _ => rfl

@[grind ←]
theorem noteClass (name : String) : (noteClass name).Blind setting := writes fun _ _ => rfl

@[grind ←]
theorem isOwnFunction (name : String) : (isOwnFunction name).Blind setting := reads fun _ _ => rfl

@[grind ←]
theorem noteFunction (name : String) : (noteFunction name).Blind setting := writes fun _ _ => rfl

@[grind ←]
theorem tolerant : Check.tolerant.Blind setting :=
  fun c => ⟨none, .ok (c.scope.probing || c.scope.including) c, fun _ => rfl⟩

@[grind ←]
theorem typeContext (templates : List String) : (typeContext templates).Blind setting :=
  fun c => ⟨none, .ok { names := c.scope.names, classContext := c.scope.classContext, templates } c,
    fun _ => rfl⟩

@[grind ←]
theorem report (kind : DiagnosticKind) (node : Node) (message : String) :
    (report kind node message).Blind setting := by
  intro c
  cases hkind : kind.isFatal with
  | true => exact ⟨none, .error ⟨.ofSpan setting.file node.span, message⟩
      (c.note (setting.finding kind node message)), fun e =>
        report_fatal hkind node message setting⟩
  | false =>
    refine ⟨none, .ok () (if c.muted = 0 then c.note (setting.finding kind node message) else c),
      fun e => ?_⟩
    rw [report_mild hkind]
    show EStateM.Result.ok () (if c.muted = 0 then _ else _) = _
    split <;> rfl

@[grind ←]
theorem reportMissing (name : String) (node : Node) : (reportMissing name node).Blind setting := by
  have hnote : (noteMissing name).Blind setting := modifyGet fun c e => by
    show (if c.muted = 0 && !c.missingClasses.contains (symbolKey name) then _ else _) = _
    split <;> rfl
  exact bind hnote fun _ => ite (report _ _ _) (pure _)

/-- What is done with a scope, where its environment does not matter. -/
@[grind ←]
theorem ofScope {f : Scope → Check α} (hf : ∀ s, (f s).Blind setting)
    (hsame : ∀ s e, f { s with env := e } = f s) : (scope >>= f).Blind setting := by
  intro c
  obtain ⟨k, last, hf⟩ := hf c.scope c
  refine ⟨k, last, fun e => ?_⟩
  rw [← hf, ← hsame c.scope e]
  rfl

theorem modifyScope {f : Scope → Scope}
    (hf : ∀ s e, f { s with env := e } = { f s with env := e }) : (modifyScope f).Blind setting :=
  writes fun c e => congrArg (fun s => { c with scope := s }) (hf c.scope e)

@[grind ←]
theorem whileAssigning {m : Check α} (value : TyUnion) (hm : m.Blind setting) :
    (whileAssigning value m).Blind setting :=
  bind (modifyScope fun _ _ => rfl) fun _ => bind hm fun _ =>
    bind (modifyScope fun _ _ => rfl) fun _ => pure _

@[grind ←]
theorem whileProbing {m : Check α} (hm : m.Blind setting) : (whileProbing m).Blind setting :=
  ofScope (fun _ => bind (modifyScope fun _ _ => rfl) fun _ => bind hm fun _ =>
    bind (modifyScope fun _ _ => rfl) fun _ => pure _) fun _ _ => rfl

@[grind ←]
theorem quietly {m : Check α} (hm : m.Blind setting) : (quietly m).Blind setting :=
  bind (writes fun _ _ => rfl) fun _ => bind hm fun _ => bind (writes fun _ _ => rfl) fun _ =>
    pure _

/-- Nothing is seen from a scope of its own. -/
@[grind ←]
theorem inScope (inner : Scope) (m : Check α) : (inScope inner m).Blind setting := by
  intro c
  refine ⟨none, Check.inScope inner m setting c, fun e => ?_⟩
  have hsame : { c.withEnv e with scope := inner } = { c with scope := inner } := rfl
  rw [inScope_run, inScope_run, hsame]
  cases m setting { c with scope := inner } <;> rfl

/-- A blind step in a scope of its own is so also if the scope has the variables around it,
changed in some way. -/
theorem inScopeOf {inner : Scope → Scope} {m : Check α} (hm : m.Blind setting)
    {f : α × Scope → Check β} (hf : ∀ x, (f x).Blind setting)
    (hinner : ∀ s e, ∃ e', inner { s with env := e } = { inner s with env := e' })
    (hsame : ∀ a s e, f (a, { s with env := e }) = f (a, s)) :
    (scope >>= fun outer => Check.inScope (inner outer) m >>= f).Blind setting := by
  intro c
  obtain ⟨k, last, hm⟩ := hm { c with scope := inner c.scope }
  have hmoved : ∀ e, ∃ e', { c.withEnv e with scope := inner (c.withEnv e).scope } =
      ({ c with scope := inner c.scope } : Checker).withEnv e' := by
    intro e
    obtain ⟨e', he'⟩ := hinner c.scope e
    exact ⟨e', congrArg (fun s => { c with scope := s }) he'⟩
  cases last with
  | ok a c' =>
    obtain ⟨k', last', hf⟩ := hf (a, c'.scope) { c' with scope := c.scope }
    refine ⟨k', last', fun e => ?_⟩
    obtain ⟨e', he'⟩ := hmoved e
    have hrun : Check.inScope (inner (c.withEnv e).scope) m setting (c.withEnv e) =
        .ok (a, { c'.scope with env := e'.taken k })
          (({ c' with scope := c.scope } : Checker).withEnv e) := by
      rw [inScope_run, he', hm]
      rfl
    refine (bind_run_ok hrun).trans ?_
    rw [hsame, hf]
  | error x c' =>
    refine ⟨none, .error x { c' with scope := c.scope }, fun e => ?_⟩
    obtain ⟨e', he'⟩ := hmoved e
    have hrun : Check.inScope (inner (c.withEnv e).scope) m setting (c.withEnv e) =
        .error x (({ c' with scope := c.scope } : Checker).withEnv e) := by
      rw [inScope_run, he', hm]
      rfl
    have hscope : scope setting (c.withEnv e) = .ok (c.withEnv e).scope (c.withEnv e) := rfl
    exact (bind_run_ok hscope).trans (bind_run_error hrun)

/-! ### Steps for all elements of a list -/

@[grind ←]
theorem forM {f : α → Check PUnit} {xs : List α} (hf : ∀ x ∈ xs, (f x).Blind setting) :
    (xs.forM f).Blind setting := by
  induction xs with
  | nil => exact pure _
  | cons x xs ih =>
    exact bind (hf x List.mem_cons_self) fun _ => ih fun y hy => hf y (List.mem_cons_of_mem x hy)

@[grind ←]
theorem foldlM {f : β → α → Check β} {xs : List α} (b : β)
    (hf : ∀ b, ∀ x ∈ xs, (f b x).Blind setting) : (xs.foldlM f b).Blind setting := by
  induction xs generalizing b with
  | nil => exact pure _
  | cons x xs ih =>
    exact bind (hf b x List.mem_cons_self) fun _ =>
      ih _ fun b y hy => hf b y (List.mem_cons_of_mem x hy)

@[grind ←]
theorem mapM {f : α → Check β} {xs : List α} (hf : ∀ x ∈ xs, (f x).Blind setting) :
    (xs.mapM f).Blind setting := by
  induction xs with
  | nil => exact pure _
  | cons x xs ih =>
    rw [List.mapM_cons]
    exact bind (hf x List.mem_cons_self) fun _ =>
      bind (ih fun y hy => hf y (List.mem_cons_of_mem x hy)) fun _ => pure _

@[grind ←]
theorem filterMapM {f : α → Check (Option β)} {xs : List α} (hf : ∀ x ∈ xs, (f x).Blind setting) :
    (xs.filterMapM f).Blind setting := by
  induction xs with
  | nil => exact pure _
  | cons x xs ih =>
    have hrest := ih fun y hy => hf y (List.mem_cons_of_mem x hy)
    rw [List.filterMapM_cons]
    refine bind (hf x List.mem_cons_self) fun b => ?_
    cases b with
    | none => exact hrest
    | some b => exact bind hrest fun _ => pure _

end Check.Blind

/-! ### Steps with snapshots -/

namespace Check

theorem Blind.takes {v : γ → Env → β} {m : Check α} {f : α → Check β} (hm : m.Blind setting)
    (hf : ∀ a, (f a).Takes setting v) : (m >>= f).Takes setting v := by
  intro c
  obtain ⟨k, last, hm⟩ := hm c
  cases last with
  | ok a c' =>
    obtain ⟨k', last', hk', hf⟩ := hf a c'
    refine ⟨k.or k', last', fun b c'' hlast => ?_, fun e => ?_⟩
    · rw [Option.isSome_or, hk' b c'' hlast, Bool.or_true]
    · refine (bind_run_ok (hm e)).trans ?_
      rw [← Env.taken_taken, ← hf]
  | error x c' =>
    exact ⟨k, .error x c', fun _ _ => nofun, fun e => bind_run_error (hm e)⟩

theorem Takes.bind {v : γ → Env → α} {w : δ → Env → β} {m : Check α} {f : α → Check β}
    (hm : m.Takes setting v) (hf : ∀ b, Still setting w fun e => f (v b e)) :
    (m >>= f).Takes setting w := by
  intro c
  obtain ⟨k, last, hk, hm⟩ := hm c
  cases last with
  | ok b c' =>
    obtain ⟨last', hf⟩ := hf b c'
    exact ⟨k, last', fun _ _ _ => hk b c' rfl, fun e =>
      (bind_run_ok (hm e)).trans (hf (e.taken k) (e.snapshot_taken (hk b c' rfl)))⟩
  | error x c' =>
    exact ⟨k, .error x c', fun _ _ => nofun, fun e => bind_run_error (hm e)⟩

theorem Takes.ofScope {v : β → Env → α} {f : Scope → Check α} (hf : ∀ s, (f s).Takes setting v)
    (hsame : ∀ s e, f { s with env := e } = f s) : (scope >>= f).Takes setting v := by
  intro c
  obtain ⟨k, last, hk, hf⟩ := hf c.scope c
  refine ⟨k, last, hk, fun e => ?_⟩
  rw [← hf, ← hsame c.scope e]
  rfl

theorem Takes.blind {m : Check α} (hm : m.Takes setting plain) : m.Blind setting := by
  intro c
  obtain ⟨k, last, -, hm⟩ := hm c
  exact ⟨k, last, hm⟩

theorem Takes.still {v : β → Env → α} {m : Check α} (hm : m.Takes setting v) :
    Still setting v fun _ => m := by
  intro c
  obtain ⟨k, last, -, hm⟩ := hm c
  exact ⟨last, fun e he => (hm e).trans (by rw [Env.taken_of_snapshot he])⟩

theorem Blind.still {m : Check α} (hm : m.Blind setting) : Still setting plain fun _ => m := by
  intro c
  obtain ⟨k, last, hm⟩ := hm c
  exact ⟨last, fun e he => (hm e).trans (by rw [Env.taken_of_snapshot he])⟩

theorem Still.bind {v : γ → Env → α} {w : δ → Env → β} {g : Env → Check α}
    {f : Env → α → Check β} (hg : Still setting v g)
    (hf : ∀ b, Still setting w fun e => f e (v b e)) :
    Still setting w fun e => g e >>= f e := by
  intro c
  obtain ⟨last, hg⟩ := hg c
  cases last with
  | ok b c' =>
    obtain ⟨last', hf⟩ := hf b c'
    exact ⟨last', fun e he => (bind_run_ok (hg e he)).trans (hf e he)⟩
  | error x c' =>
    exact ⟨.error x c', fun e he => bind_run_error (hg e he)⟩

theorem Still.pure {v : β → Env → α} {p : Env → α} (b : β)
    (hp : ∀ e : Env, e.snapshot.isSome = true → p e = v b e) :
    Still setting v fun e => Pure.pure (p e) :=
  fun c => ⟨.ok b c, fun e he => congrArg (EStateM.Result.ok · (c.withEnv e)) (hp e he)⟩

/-- The snapshot is put back where it is. -/
theorem Still.setEnv {p : Env → Env} (hp : ∀ e : Env, e.snapshot.isSome = true → p e = e) :
    Still setting plain fun e => Check.setEnv (p e) :=
  fun c => ⟨.ok () c, fun e he =>
    congrArg (fun e' => EStateM.Result.ok () (c.withEnv e')) (hp e he)⟩

theorem Still.snapshot {p : Env → Env} (hp : ∀ e : Env, e.snapshot.isSome = true → p e = e) :
    Still setting (fun (_ : Unit) e => e) fun e => Check.snapshot (p e) := by
  intro c
  refine ⟨.ok () { c with nextSnapshot := c.nextSnapshot + 1 }, fun e he => ?_⟩
  show EStateM.Result.ok ((p e).numbered c.nextSnapshot) _ = _
  rw [hp e he, show e.numbered c.nextSnapshot = e from
    Env.taken_of_snapshot he (some c.nextSnapshot)]
  rfl

theorem Takes.env : Check.env.Takes setting fun (_ : Unit) e => e :=
  fun c => ⟨some c.nextSnapshot, .ok () { c with nextSnapshot := c.nextSnapshot + 1 },
    fun _ _ _ => rfl, fun _ => rfl⟩

theorem Still.env : Still setting (fun (_ : Unit) e => e) fun _ => Check.env := Takes.env.still

theorem Still.mapM {v : γ → Env → β} {f : Env → α → Check β} (xs : List α)
    (hf : ∀ x ∈ xs, Still setting v fun e => f e x) :
    Still setting (fun (bs : List γ) e => bs.map (v · e)) fun e => xs.mapM (f e) := by
  induction xs with
  | nil => exact .pure [] fun _ _ => rfl
  | cons x xs ih =>
    simp only [List.mapM_cons]
    refine .bind (hf x List.mem_cons_self) fun b => ?_
    refine .bind (ih fun y hy => hf y (List.mem_cons_of_mem x hy)) fun bs => ?_
    exact .pure (b :: bs) fun _ _ => rfl

end Check

end

end PhpCheck
