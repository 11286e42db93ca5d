import PhpCheck.Proofs.Check.Effect
import PhpCheck.Proofs.Check.Ledger
import PhpCheck.Proofs.Grammar.Regular

/-!
Steps that do alike in two runs.

Two steps agree if from checkers that are alike they go on to checkers that are alike, with
values that are alike, unless one of them ends the analysis (`Check.Agree`).  A step that agrees
with itself, with equal values, is uniform (`Check.Uniform`): what it does is not up to the
numbers of snapshots, to the findings so far, to the results of the function that were seen
before, or to jumps out of loops further out.  Uniform steps are put together from the primitive
ones; where a step evaluates to environments, what follows it has to agree for environments that
are alike.

The names in force may be part of this: in a tree without namespaces and imports they
stay what they are.
-/

namespace PhpCheck

open Check

/-- A checker without its variables, without what was found and seen so far, and without the
number of the next snapshot. -/
def Checker.outline (c : Checker) : Checker :=
  { c with scope := c.scope.outline, diagnostics := [], fileReturn := none, nextSnapshot := 0 }

/-- Checkers that are alike, with so many of the loops around, and perhaps with the results that
were seen so far.  All snapshots in the ledger were taken already. -/
structure Checker.Alike (names? : Option NameContext) (depth : Nat) (whole : Bool) (l : Ledger)
    (c d : Checker) : Prop where
  outline : c.outline = d.outline
  scope : c.scope.Alike names? depth whole l d.scope
  below : l.Below c.nextSnapshot d.nextSnapshot

section

variable {names? : Option NameContext} {depth : Nat} {whole : Bool} {l l' : Ledger}

/-- Scopes in which functions and classes may be entered alike. -/
abbrev Scope.alike (names? : Option NameContext) : Likeness Scope :=
  ⟨Scope.Alike names? 0 false, fun hl h => h.mono hl⟩

/-- Scopes at the end of functions that are alike. -/
abbrev Scope.alikeAtEnd (names? : Option NameContext) : Likeness Scope :=
  ⟨Scope.Alike names? 0 true, fun hl h => h.mono hl⟩

theorem Scope.Alike.weaken {s t : Scope} (h : s.Alike names? depth whole l t) :
    s.Alike names? 0 false l t :=
  { h with jumps := .nil, results := nofun }

namespace Checker.Alike

variable {c d : Checker}

/-- Other scopes, which are alike. -/
theorem withScope (h : c.Alike names? depth whole l d) {s t : Scope} {depth' : Nat}
    {whole' : Bool} (hs : s.Alike names? depth' whole' l t) :
    Checker.Alike names? depth' whole' l { c with scope := s } { d with scope := t } where
  outline :=
    congrArg₂ (fun (c : Checker) (s : Scope) => { c with scope := s }) h.outline hs.outline
  scope := hs
  below := h.below

/-- The same scopes, in checkers that differ otherwise. -/
theorem withScopes (h : c.Alike names? depth whole l d) {c' d' : Checker}
    (houtline : c'.outline = d'.outline)
    (hc : c'.scope = c.scope ∧ c'.nextSnapshot = c.nextSnapshot)
    (hd : d'.scope = d.scope ∧ d'.nextSnapshot = d.nextSnapshot) :
    c'.Alike names? depth whole l d' := by
  refine ⟨houtline, ?_, ?_⟩
  · rw [hc.1, hd.1]
    exact h.scope
  · rw [hc.2, hd.2]
    exact h.below

/-- So many findings are dropped in both. -/
theorem withMuted (h : c.Alike names? depth whole l d) (f : Nat → Nat) :
    Checker.Alike names? depth whole l { c with muted := f c.muted }
      { d with muted := f d.muted } :=
  h.withScopes (congrArg (fun c : Checker => { c with muted := f c.muted }) h.outline)
    ⟨rfl, rfl⟩ ⟨rfl, rfl⟩

end Checker.Alike

/-- From checkers that are alike, with a ledger that extends `l`, two steps go on to checkers
that are alike, with values that are alike, unless one of them ends the analysis. -/
def Check.Agree {α : Type} (names? : Option NameContext) (l : Ledger) (R : Likeness α)
    (m n : Check α) : Prop :=
  ∀ ⦃setting l₁ depth whole c d a b c' d'⦄, l ≤ l₁ → c.Alike names? depth whole l₁ d →
    m setting c = .ok a c' → n setting d = .ok b d' →
    ∃ l₂, l₁ ≤ l₂ ∧ c'.Alike names? depth whole l₂ d' ∧ R.rel l₂ a b

/-- A step that does the same in checkers that are alike. -/
def Check.Uniform {α : Type} (names? : Option NameContext) (m : Check α) : Prop :=
  m.Agree names? .blank .same m

namespace Check.Agree

variable {α β γ : Type} {m n : Check α} {f g : α → Check β} {R : Likeness α} {S : Likeness β}

theorem mono (h : m.Agree names? l R n) (hl : l ≤ l') : m.Agree names? l' R n :=
  fun _ _ _ _ _ _ _ _ _ _ hl₁ => h (hl.trans hl₁)

theorem pure {a b : α} (hab : R.rel l a b) :
    (Pure.pure a : Check α).Agree names? l R (Pure.pure b) := by
  intro setting l₁ depth whole c d a' b' c' d' hl₁ hc hfirst hsecond
  cases hfirst
  cases hsecond
  exact ⟨l₁, le_refl l₁, hc, R.mono hl₁ hab⟩

theorem bind (h : m.Agree names? l R n)
    (hf : ∀ l' a b, l ≤ l' → R.rel l' a b → (f a).Agree names? l' S (g b)) :
    (m >>= f).Agree names? l S (n >>= g) := by
  intro setting l₁ depth whole c d a b c' d' hl₁ hc hfirst hsecond
  obtain ⟨a₁, c₁, hm, hthen⟩ := bind_ok hfirst
  obtain ⟨b₁, d₁, hn, hthen'⟩ := bind_ok hsecond
  obtain ⟨l₂, hl₂, hc₁, hab⟩ := h hl₁ hc hm hn
  obtain ⟨l₃, hl₃, hc', hend⟩ := hf l₂ a₁ b₁ (hl₁.trans hl₂) hab (le_refl l₂) hc₁ hthen hthen'
  exact ⟨l₃, hl₂.trans hl₃, hc', hend⟩

theorem ite {p : Prop} [Decidable p] {m' n' : Check α} (h : p → m.Agree names? l R n)
    (h' : ¬p → m'.Agree names? l R n') :
    (if p then m else m').Agree names? l R (if p then n else n') := by
  split
  · exact h ‹_›
  · exact h' ‹_›

theorem scope : Check.scope.Agree names? l (Scope.alike names?) Check.scope := by
  intro setting l₁ depth whole c d a b c' d' hl₁ hc hfirst hsecond
  cases hfirst
  cases hsecond
  exact ⟨l₁, le_refl l₁, hc, hc.scope.weaken⟩

/-- A step for which the outline of the scope is enough to know. -/
theorem ofScope {f g : Scope → Check α} (h : ∀ s, (f s).Agree names? l R (g s))
    (hg : ∀ s, g s.outline = g s) :
    (Check.scope >>= f).Agree names? l R (Check.scope >>= g) := by
  refine scope.bind fun l' s t hl' hs => ?_
  rw [← hg t, ← hs.outline, hg]
  exact (h s).mono hl'

theorem modifyScope {g g' : Scope → Scope} (hg : ∀ {depth whole l' s t}, l ≤ l' →
      s.Alike names? depth whole l' t → (g s).Alike names? depth whole l' (g' t)) :
    (Check.modifyScope g).Agree names? l .same (Check.modifyScope g') := by
  intro setting l₁ depth whole c d a b c' d' hl₁ hc hfirst hsecond
  cases hfirst
  cases hsecond
  exact ⟨l₁, le_refl l₁, hc.withScope (hg hl₁ hc.scope), rfl⟩

theorem setEnv {e f : Env} (h : e.Alike l f) :
    (Check.setEnv e).Agree names? l .same (Check.setEnv f) :=
  modifyScope fun hl hs => hs.withEnv (h.mono hl)

theorem snapshot {e f : Env} (h : e.Alike l f) :
    (Check.snapshot e).Agree names? l Env.alike (Check.snapshot f) := by
  intro setting l₁ depth whole c d a b c' d' hl₁ hc hfirst hsecond
  cases hfirst
  cases hsecond
  have hpush := Ledger.le_push hc.below e.bindings
  refine ⟨l₁.push hc.below e.bindings, hpush, ?_, (h.mono hl₁).numbered hc.below⟩
  exact ⟨hc.outline, hc.scope.mono hpush, Ledger.below_push hc.below e.bindings⟩

theorem env : Check.env.Agree names? l Env.alike Check.env := by
  unfold Check.env
  refine scope.bind fun l₁ s t _ hs => (snapshot hs.env).bind fun l₂ e f _ he => ?_
  exact (setEnv he).bind fun l₃ _ _ hl₃ _ => pure (he.mono hl₃)

/-- A step between a change and another that undoes it. -/
theorem around {δ : Type} {enter enter' : Checker → δ × Checker}
    {leave leave' : δ → α → Checker → γ × Checker} {undo undo' : δ → Checker → Checker}
    {T : Likeness γ} (inside : Nat → Nat) (own : Bool → Bool)
    (henter : ∀ {depth whole l' c d}, l ≤ l' → c.Alike names? depth whole l' d →
      (enter c).2.Alike names? (inside depth) (own whole) l' (enter' d).2)
    (h : m.Agree names? l R n)
    (hleave : ∀ {depth whole l₁ l₂ c d a b c' d'}, l₁ ≤ l₂ → c.Alike names? depth whole l₁ d →
      c'.Alike names? (inside depth) (own whole) l₂ d' → R.rel l₂ a b →
      (leave (enter c).1 a c').2.Alike names? depth whole l₂ (leave' (enter' d).1 b d').2 ∧
        T.rel l₂ (leave (enter c).1 a c').1 (leave' (enter' d).1 b d').1) :
    (Check.around enter leave undo m).Agree names? l T (Check.around enter' leave' undo' n) := by
  intro setting l₁ depth whole c d a b c' d' hl₁ hc hfirst hsecond
  rw [around_run] at hfirst hsecond
  split at hfirst
  · rename_i a₁ c₁ hm
    cases hfirst
    split at hsecond
    · rename_i b₁ d₁ hn
      cases hsecond
      obtain ⟨l₂, hl₂, hc₁, hab⟩ := h hl₁ (henter hl₁ hc) hm hn
      exact ⟨l₂, hl₂, hleave hl₂ hc hc₁ hab⟩
    · cases hsecond
  · cases hfirst

/-- Steps in scopes of their own. -/
theorem inScope {inner inner' : Scope} (hinner : inner.Alike names? 0 true l inner')
    (h : m.Agree names? l R n) :
    (Check.inScope inner m).Agree names? l (R.prod (Scope.alikeAtEnd names?))
      (Check.inScope inner' n) := by
  rw [inScope_eq_around, inScope_eq_around]
  refine around (fun _ => 0) (fun _ => true)
    (fun hl hc => hc.withScope (hinner.mono hl)) h fun hl hc hc' hab => ?_
  exact ⟨hc'.withScope (hc.scope.mono hl), hab, hc'.scope⟩

theorem whileAssigning (value : TyUnion) (h : m.Agree names? l R n) :
    (Check.whileAssigning value m).Agree names? l R (Check.whileAssigning value n) := by
  rw [whileAssigning_eq_around, whileAssigning_eq_around]
  refine around id id (fun _ hc => hc.withScope ?_) h
    fun _ _ hc' hab => ⟨hc'.withScope ?_, hab⟩
  · exact hc.scope.ofOutline (g := fun s => { s with assigning := some value })
      fun _ => ⟨rfl, rfl, rfl, rfl, rfl⟩
  · exact hc'.scope.ofOutline (g := fun s => { s with assigning := none })
      fun _ => ⟨rfl, rfl, rfl, rfl, rfl⟩

theorem whileProbing (h : m.Agree names? l R n) :
    (Check.whileProbing m).Agree names? l R (Check.whileProbing n) := by
  rw [whileProbing_eq_around, whileProbing_eq_around]
  refine around id id (fun _ hc => hc.withScope ?_) h
    fun {_ _ _ _ c d _ _ _ _} _ hc hc' hab => ⟨hc'.withScope ?_, hab⟩
  · exact hc.scope.ofOutline (g := fun s => { s with probing := true })
      fun _ => ⟨rfl, rfl, rfl, rfl, rfl⟩
  · have hprobing : c.scope.probing = d.scope.probing := congrArg (·.probing) hc.scope.outline
    dsimp only
    rw [hprobing]
    exact hc'.scope.ofOutline (g := fun s => { s with probing := d.scope.probing })
      fun _ => ⟨rfl, rfl, rfl, rfl, rfl⟩

/-- Steps inside of loops. -/
theorem inLoop (h : m.Agree names? l R n) :
    (Check.inLoop m).Agree names? l (R.prod Jumps.alike) (Check.inLoop n) := by
  rw [inLoop_eq_around, inLoop_eq_around]
  refine around (· + 1) id (fun _ hc => hc.withScope hc.scope.enterLoop) h
    fun _ _ hc' hab => ?_
  exact ⟨hc'.withScope hc'.scope.exitLoop.2, hab, hc'.scope.exitLoop.1⟩

theorem quietly (h : m.Agree names? l R n) :
    (Check.quietly m).Agree names? l R (Check.quietly n) := by
  intro setting l₁ depth whole c d a b c' d' hl₁ hc hfirst hsecond
  rw [quietly_run] at hfirst hsecond
  split at hfirst
  · rename_i a₁ c₁ hm
    cases hfirst
    split at hsecond
    · rename_i b₁ d₁ hn
      cases hsecond
      obtain ⟨l₂, hl₂, hc₁, hab⟩ := h hl₁ (hc.withMuted (· + 1)) hm hn
      exact ⟨l₂, hl₂, hc₁.withMuted (· - 1), hab⟩
    · cases hsecond
  · cases hfirst

/-! ### Steps for all elements of a list -/

theorem foldlM {f g : γ → β → Check γ} {T : Likeness γ} {a b : γ} {xs : List β}
    (hab : T.rel l a b) (h : ∀ l' a b, ∀ x ∈ xs, l ≤ l' → T.rel l' a b →
      (f a x).Agree names? l' T (g b x)) :
    Check.Agree names? l T (xs.foldlM f a) (xs.foldlM g b) := by
  induction xs generalizing a b l with
  | nil => exact pure hab
  | cons x xs ih =>
    rw [List.foldlM_cons, List.foldlM_cons]
    refine (h l a b x List.mem_cons_self (le_refl l) hab).bind fun l₁ a₁ b₁ hl₁ hab₁ => ?_
    exact ih hab₁ fun l' a b y hy hl' => h l' a b y (List.mem_cons_of_mem _ hy) (hl₁.trans hl')

theorem mapM {f g : β → Check α} {xs : List β}
    (h : ∀ l', ∀ x ∈ xs, l ≤ l' → (f x).Agree names? l' R (g x)) :
    Check.Agree names? l R.list (xs.mapM f) (xs.mapM g) := by
  induction xs generalizing l with
  | nil => exact pure .nil
  | cons x xs ih =>
    rw [List.mapM_cons, List.mapM_cons]
    refine (h l x List.mem_cons_self (le_refl l)).bind fun l₁ a b hl₁ hab => ?_
    refine (ih fun l' y hy hl' => h l' y (List.mem_cons_of_mem _ hy) (hl₁.trans hl')).bind
      fun l₂ as bs hl₂ hrest => pure (.cons (R.mono hl₂ hab) hrest)

end Check.Agree

namespace Check.Uniform

variable {α β γ : Type} {m : Check α} {f g : α → Check β} {S : Likeness β}

theorem agree (h : m.Uniform names?) : m.Agree names? l .same m := h.mono l.blank_le

/-- A step is followed by others that agree, whatever its value. -/
theorem followed (h : m.Uniform names?) (hf : ∀ a, (f a).Agree names? l S (g a)) :
    (m >>= f).Agree names? l S (m >>= g) :=
  h.agree.bind fun l' a b hl hab => by
    cases hab
    exact (hf a).mono hl

@[grind ←]
theorem pure (a : α) : (Pure.pure a : Check α).Uniform names? := Agree.pure rfl

@[grind ←]
theorem bind (h : m.Uniform names?) (hf : ∀ a, (f a).Uniform names?) :
    (m >>= f).Uniform names? := h.followed hf

theorem ite {p : Prop} [Decidable p] {n : Check α} (h : m.Uniform names?)
    (h' : n.Uniform names?) : (if p then m else n).Uniform names? := by
  split
  · exact h
  · exact h'

/-! ### Steps that leave the scope as it is -/

theorem of_modifyGet {g : Checker → α × Checker} (hvalue : ∀ c, (g c).1 = (g c.outline).1)
    (hg : ∀ c, (g c).2.outline = (g c.outline).2 ∧ (g c).2.scope = c.scope ∧
      (g c).2.nextSnapshot = c.nextSnapshot) : (modifyGet g : Check α).Uniform names? := by
  intro setting l₁ depth whole c d a b c' d' hl₁ hc hfirst hsecond
  rw [modifyGet_run] at hfirst hsecond
  cases hfirst
  cases hsecond
  refine ⟨l₁, le_refl l₁, hc.withScopes ?_ (hg c).2 (hg d).2, ?_⟩
  · rw [(hg c).1, (hg d).1, hc.outline]
  · show (g c).1 = (g d).1
    rw [hvalue, hc.outline, ← hvalue]

theorem reads {g : Checker → α} (hg : ∀ c, g c = g c.outline) :
    (do return g (← get) : Check α).Uniform names? :=
  of_modifyGet (g := fun c => (g c, c)) hg fun _ => ⟨rfl, rfl, rfl⟩

theorem writes {g : Checker → Checker} (hg : ∀ c, (g c).outline = g c.outline ∧
      (g c).scope = c.scope ∧ (g c).nextSnapshot = c.nextSnapshot) :
    (modify g : Check Unit).Uniform names? :=
  of_modifyGet (g := fun c => ((), g c)) (fun _ => rfl) hg

/-- A step that only notes something that is not looked at. -/
theorem notes {g : Checker → Checker} (hg : ∀ c, (g c).outline = c.outline ∧
      (g c).scope = c.scope ∧ (g c).nextSnapshot = c.nextSnapshot) :
    (modify g : Check Unit).Uniform names? := by
  intro setting l₁ depth whole c d a b c' d' hl₁ hc hfirst hsecond
  cases hfirst
  cases hsecond
  refine ⟨l₁, le_refl l₁, hc.withScopes ?_ (hg c).2 (hg d).2, rfl⟩
  rw [(hg c).1, (hg d).1, hc.outline]

@[grind ←]
theorem registry : Check.registry.Uniform names? := reads fun _ => rfl

@[grind ←]
theorem hierarchy : Check.hierarchy.Uniform names? := reads fun _ => rfl

@[grind ←]
theorem modifyRegistry (g : Registry → Registry) : (Check.modifyRegistry g).Uniform names? :=
  writes fun _ => ⟨rfl, rfl, rfl⟩

@[grind ←]
theorem analyzerConfig : Check.analyzerConfig.Uniform names? := reads fun _ => rfl

@[grind ←]
theorem onSession (g : Session → α × Session) : (Check.onSession g).Uniform names? :=
  of_modifyGet (fun _ => rfl) fun _ => ⟨rfl, rfl, rfl⟩

theorem withSetting {g : Setting → Check α} (hg : ∀ setting, (g setting).Uniform names?) :
    (read >>= g : Check α).Uniform names? :=
  fun setting _ _ _ _ _ _ _ _ _ hl hc hfirst hsecond => hg setting hl hc hfirst hsecond

@[grind ←]
theorem autoload (name : String) : (Check.autoload name).Uniform names? :=
  withSetting fun _ => onSession _

@[grind ←]
theorem includeFile (path : String) (once : Bool) : (Check.includeFile path once).Uniform names? :=
  withSetting fun _ => onSession _

@[grind ←]
theorem currentFile : Check.currentFile.Uniform names? := withSetting fun _ => pure _

@[grind ←]
theorem currentDir : Check.currentDir.Uniform names? := withSetting fun _ => pure _

@[grind ←]
theorem resolveInclude? (target : String) : (Check.resolveInclude? target).Uniform names? :=
  withSetting (g := fun setting => do
    return (← get).session.loader.resolveInclude? target setting.dir) fun _ => reads fun _ => rfl

@[grind ←]
theorem hoistedStarts : Check.hoistedStarts.Uniform names? := reads fun _ => rfl

@[grind ←]
theorem isHoisted (node : Node) : (Check.isHoisted node).Uniform names? := reads fun _ => rfl

@[grind ←]
theorem noteHoisted (node : Node) : (Check.noteHoisted node).Uniform names? :=
  writes fun _ => ⟨rfl, rfl, rfl⟩

@[grind ←]
theorem isOwnClass (name : String) : (Check.isOwnClass name).Uniform names? := reads fun _ => rfl

@[grind ←]
theorem noteClass (name : String) : (Check.noteClass name).Uniform names? :=
  writes fun _ => ⟨rfl, rfl, rfl⟩

@[grind ←]
theorem isOwnFunction (name : String) : (Check.isOwnFunction name).Uniform names? :=
  reads fun _ => rfl

@[grind ←]
theorem noteFunction (name : String) : (Check.noteFunction name).Uniform names? :=
  writes fun _ => ⟨rfl, rfl, rfl⟩

@[grind ←]
theorem returnFromFile (ty : TyUnion) : (Check.returnFromFile ty).Uniform names? :=
  notes fun _ => ⟨rfl, rfl, rfl⟩

@[grind ←]
theorem isMuted : Check.isMuted.Uniform names? := reads fun _ => rfl

@[grind ←]
theorem noteMissing (name : String) : (Check.noteMissing name).Uniform names? := by
  have houtline : ∀ c : Checker, c.outline.muted = c.muted ∧
      c.outline.missingClasses = c.missingClasses := fun _ => ⟨rfl, rfl⟩
  refine of_modifyGet (fun c => ?_) fun c => ?_
  · rw [(houtline c).1, (houtline c).2]
    split <;> rfl
  · rw [(houtline c).1, (houtline c).2]
    split <;> exact ⟨rfl, rfl, rfl⟩

@[grind ←]
theorem report (kind : DiagnosticKind) (node : Node) (message : String) :
    (Check.report kind node message).Uniform names? := by
  unfold Check.report
  refine withSetting fun setting => ?_
  extract_lets location found
  split
  · intro _ _ _ _ _ _ _ _ _ _ _ _ hrun
    cases hrun
  · refine notes fun c => ?_
    split <;> exact ⟨rfl, rfl, rfl⟩

@[grind ←]
theorem reportMissing (name : String) (node : Node) :
    (Check.reportMissing name node).Uniform names? := by
  unfold Check.reportMissing
  grind

/-! ### The scope -/

/-- A step for which the outline of the scope is enough to know. -/
@[grind ←]
theorem ofScope {f : Scope → Check α} (h : ∀ s, (f s).Uniform names?)
    (hf : ∀ s, f s.outline = f s) : (Check.scope >>= f).Uniform names? :=
  Agree.ofScope h hf

@[grind ←]
theorem lookup? (name : String) : (Check.lookup? name).Uniform names? :=
  Agree.scope.bind fun _ _ _ _ hs => Agree.pure (hs.env.get?_eq name)

@[grind ←]
theorem tolerant : Check.tolerant.Uniform names? := ofScope (fun _ => pure _) fun _ => rfl

@[grind ←]
theorem typeContext (templates : List String) : (Check.typeContext templates).Uniform names? :=
  ofScope (fun _ => pure _) fun _ => rfl

theorem modifyScope {g : Scope → Scope} (hg : ∀ {depth whole l s t},
      s.Alike names? depth whole l t → (g s).Alike names? depth whole l (g t)) :
    (Check.modifyScope g).Uniform names? :=
  Agree.modifyScope fun _ => hg

@[grind ←]
theorem bindVariable (name : String) (ty : TyUnion) :
    (Check.bindVariable name ty).Uniform names? :=
  modifyScope fun hs => hs.bind name ty

theorem setNames (hnames : names? = none) (names : NameContext) :
    (Check.setNames names).Uniform names? := by
  subst hnames
  exact modifyScope fun hs => hs.withNames rfl

/-- A step that takes a snapshot, of which it does not make its value. -/
theorem env_bind {f : Env → Check α} (h : ∀ {l e e'}, e.Alike l e' →
      (f e).Agree names? l .same (f e')) : (Check.env >>= f).Uniform names? :=
  Agree.env.bind fun _ _ _ _ he => h he

@[grind ←]
theorem reportUndefined (name : String) (node : Node) :
    (Check.reportUndefined name node).Uniform names? := by
  unfold Check.reportUndefined
  grind

@[grind ←]
theorem whileAssigning (value : TyUnion) (h : m.Uniform names?) :
    (Check.whileAssigning value m).Uniform names? := Agree.whileAssigning value h

@[grind ←]
theorem whileProbing (h : m.Uniform names?) : (Check.whileProbing m).Uniform names? :=
  Agree.whileProbing h

@[grind ←]
theorem quietly (h : m.Uniform names?) : (Check.quietly m).Uniform names? := Agree.quietly h

/-! ### Steps for all elements of a list -/

@[grind ←]
theorem foldlM {g : γ → β → Check γ} {xs : List β} (b : γ)
    (h : ∀ b, ∀ x ∈ xs, (g b x).Uniform names?) : Check.Uniform names? (xs.foldlM g b) :=
  Agree.foldlM rfl fun _ b b' x hx _ hb => by
    cases hb
    exact (h b x hx).agree

@[grind ←]
theorem forM {g : β → Check PUnit} {xs : List β} (h : ∀ x ∈ xs, (g x).Uniform names?) :
    Check.Uniform names? (xs.forM g) := by
  induction xs with
  | nil => exact pure _
  | cons x xs ih =>
    refine bind (h x List.mem_cons_self) fun _ => ih fun y hy => ?_
    exact h y (List.mem_cons_of_mem _ hy)

@[grind ←]
theorem mapM {g : β → Check α} {xs : List β} (h : ∀ x ∈ xs, (g x).Uniform names?) :
    Check.Uniform names? (xs.mapM g) := by
  induction xs with
  | nil => exact pure _
  | cons x xs ih =>
    rw [List.mapM_cons]
    refine bind (h x List.mem_cons_self) fun a => bind (ih fun y hy => ?_) fun as => pure _
    exact h y (List.mem_cons_of_mem _ hy)

@[grind ←]
theorem filterMapM {g : β → Check (Option α)} {xs : List β}
    (h : ∀ x ∈ xs, (g x).Uniform names?) : Check.Uniform names? (xs.filterMapM g) := by
  induction xs with
  | nil => exact pure _
  | cons x xs ih =>
    rw [List.filterMapM_cons]
    have hrest := ih fun y hy => h y (List.mem_cons_of_mem _ hy)
    refine bind (h x List.mem_cons_self) fun a => ?_
    cases a with
    | none => exact hrest
    | some a => exact bind hrest fun _ => pure _

end Check.Uniform

/-! ### Trees that leave the names as they are -/

/-- Where the names are to stay as they are, no namespace is entered in a tree, and nothing is
imported. -/
def Node.Keeps (names? : Option NameContext) (node : Node) : Prop :=
  names?.isSome → ∀ n ∈ node.walk, n.kind ≠ .namespaceDefinition ∧ n.kind ≠ .useDeclaration

namespace Node.Keeps

variable {node child : Node} {field : String}

theorem names_eq_none (h : node.Keeps names?)
    (hkind : node.kind = .namespaceDefinition ∨ node.kind = .useDeclaration) : names? = none := by
  rw [Option.eq_none_iff_forall_ne_some]
  rintro names rfl
  obtain ⟨hnamespace, huse⟩ := h rfl node (mem_walk.2 (.inl rfl))
  exact hkind.elim hnamespace huse

theorem of_mem (h : node.Keeps names?) (hchild : child ∈ node.children) : child.Keeps names? :=
  fun hnames n hn => h hnames n (mem_walk.2 (.inr ⟨child, hchild, hn⟩))

@[grind →]
theorem positional (h : node.Keeps names?) (hchild : child ∈ node.positional) :
    child.Keeps names? := h.of_mem (List.mem_filter.1 hchild).1

@[grind →]
theorem childBy? (h : node.Keeps names?) (hchild : node.childBy? field = some child) :
    child.Keeps names? := h.of_mem (List.mem_of_find?_eq_some hchild)

@[grind →]
theorem childrenBy (h : node.Keeps names?) (hchild : child ∈ node.childrenBy field) :
    child.Keeps names? := h.of_mem (List.mem_filter.1 hchild).1

/-- The parts of a list in a role. -/
@[grind →]
theorem listed (h : node.Keeps names?)
    (hchild : child ∈ ((node.childBy? field).map Node.positional).getD []) :
    child.Keeps names? := by
  cases hlist : node.childBy? field with
  | none =>
    rw [hlist] at hchild
    cases hchild
  | some list =>
    rw [hlist] at hchild
    exact (h.childBy? hlist).positional hchild

theorem arguments (h : node.Keeps names?) :
    ∀ list, node.childBy? "arguments" = some list → list.Keeps names? :=
  fun _ hlist => h.childBy? hlist

end Node.Keeps

/-! ### Rules -/

/-- Rules whose steps are uniform, and for which conditions have outcomes that are alike. -/
structure Rules.Uniform (names? : Option NameContext) (r : Rules) : Prop where
  visit : ∀ {node : Node}, node.Keeps names? → (r.visit node).Uniform names?
  split : ∀ {node : Node}, node.Keeps names? →
    (r.split node).Agree names? .blank Branches.alike (r.split node)

attribute [grind ←] Rules.Uniform.visit

namespace Rules.Uniform

variable {r : Rules} {node : Node}

@[grind ←]
theorem expr (hr : r.Uniform names?) (h : node.Keeps names?) : (r.expr node).Uniform names? := by
  unfold Rules.expr
  grind

@[grind ←]
theorem exprs (hr : r.Uniform names?) {nodes : List Node} (h : ∀ n ∈ nodes, n.Keeps names?) :
    (r.exprs nodes).Uniform names? := by
  unfold Rules.exprs
  grind

theorem expr? (hr : r.Uniform names?) {node? : Option Node}
    (h : ∀ n, node? = some n → n.Keeps names?) : (r.expr? node?).Uniform names? := by
  unfold Rules.expr?
  grind

@[grind ←]
theorem exprBy? (hr : r.Uniform names?) (h : node.Keeps names?) (field : String) :
    (r.expr? (node.childBy? field)).Uniform names? :=
  hr.expr? fun _ hchild => h.childBy? hchild

@[grind ←]
theorem assign (hr : r.Uniform names?) (h : node.Keeps names?) (value : TyUnion) :
    (r.assign node value).Uniform names? := by
  unfold Rules.assign
  grind

@[grind ←]
theorem probe (hr : r.Uniform names?) (h : node.Keeps names?) :
    (r.probe node).Uniform names? := by
  unfold Rules.probe
  grind

theorem condition (hr : r.Uniform names?) (h : node.Keeps names?) :
    (r.condition node).Agree names? l Branches.alike (r.condition node) := by
  unfold Rules.condition
  refine ((hr.split h).mono l.blank_le).bind fun l₁ b b' _ hb => ?_
  exact (Agree.setEnv hb.split.joined).bind fun l₂ _ _ hl₂ _ => .pure (hb.mono hl₂)

@[grind ←]
theorem visitArguments (hr : r.Uniform names?) {arguments : Option Node}
    (h : ∀ list, arguments = some list → list.Keeps names?) :
    (r.visitArguments arguments).Uniform names? := by
  refine hr.exprs fun n hn => ?_
  obtain ⟨argument, hargument, hvalue⟩ := List.mem_filterMap.1 hn
  cases arguments with
  | none => cases hargument
  | some list => exact ((h list rfl).positional hargument).childBy? hvalue

end Rules.Uniform

end

end PhpCheck
