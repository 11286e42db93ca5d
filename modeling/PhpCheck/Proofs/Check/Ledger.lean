import Mathlib.Data.List.Forall2
import Mathlib.Order.Basic
import PhpCheck.Check.Visit
import PhpCheck.Proofs.Scope.Frame

/-!
What is alike in two runs of the checker.

The number of a snapshot tells how many were taken before it, so two runs of one step need not
end in equal environments.  They end in environments that are alike: the same variables are
bound to the same types, and if one is a snapshot, so is the other.  A ledger lists the
snapshots of both runs that stand for each other (`Ledger`).  Whatever is done to environments
that are alike leaves them alike, and what is asked of them is answered alike
(`Env.Alike.mergeReport`).

A run is compared with itself as well.  Then environments that are the same snapshot have the
same bindings (`Env.Alike.bindings_eq`).
-/

namespace PhpCheck

/-! ### Snapshots of two runs -/

/-- A snapshot in either of two runs, by its numbers there, and what it binds. -/
structure Twin where
  first : Nat
  second : Nat
  bindings : Table TyUnion

/-- Snapshots of two runs that stand for each other.  Each number stands for one. -/
structure Ledger where
  twins : List Twin
  coherent : ∀ x ∈ twins, ∀ y ∈ twins, x.first = y.first ∨ x.second = y.second → x = y

namespace Ledger

instance : Preorder Ledger where
  le l l' := l.twins ⊆ l'.twins
  le_refl l := List.Subset.refl l.twins
  le_trans _ _ _ := List.Subset.trans

/-- No snapshot was taken yet. -/
def blank : Ledger := ⟨[], nofun⟩

theorem blank_le (l : Ledger) : blank ≤ l := List.nil_subset l.twins

/-- One snapshot was taken. -/
def only (twin : Twin) : Ledger where
  twins := [twin]
  coherent _ hx _ hy _ := (List.mem_singleton.1 hx).trans (List.mem_singleton.1 hy).symm

/-- All snapshots were taken before those numbers are given away. -/
def Below (l : Ledger) (n m : Nat) : Prop := ∀ x ∈ l.twins, x.first < n ∧ x.second < m

/-- One more snapshot is taken in both runs. -/
def push (l : Ledger) {n m : Nat} (hl : l.Below n m) (bindings : Table TyUnion) : Ledger where
  twins := ⟨n, m, bindings⟩ :: l.twins
  coherent := by
    intro x hx y hy hxy
    rcases List.mem_cons.1 hx with rfl | hx <;> rcases List.mem_cons.1 hy with rfl | hy
    · rfl
    · have hlt := hl y hy
      rcases hxy with heq | heq <;> dsimp only at heq <;> omega
    · have hlt := hl x hx
      rcases hxy with heq | heq <;> dsimp only at heq <;> omega
    · exact l.coherent x hx y hy hxy

section

variable {l : Ledger} {n m : Nat} (hl : l.Below n m) (bindings : Table TyUnion)

theorem le_push : l ≤ l.push hl bindings := List.subset_cons_self _ _

theorem mem_push : ⟨n, m, bindings⟩ ∈ (l.push hl bindings).twins := List.mem_cons_self

theorem below_push : (l.push hl bindings).Below (n + 1) (m + 1) := by
  intro x hx
  rcases List.mem_cons.1 hx with rfl | hx
  · exact ⟨Nat.lt_succ_self n, Nat.lt_succ_self m⟩
  · exact ⟨Nat.lt_succ_of_lt (hl x hx).1, Nat.lt_succ_of_lt (hl x hx).2⟩

end

end Ledger

/-- How values of two runs may be alike.  It does not matter how many snapshots are taken
later. -/
structure Likeness (α : Type) where
  rel : Ledger → α → α → Prop
  mono : ∀ {l l' a b}, l ≤ l' → rel l a b → rel l' a b

namespace Likeness

variable {α β : Type}

/-- The values are equal. -/
def same : Likeness α := ⟨fun _ a b => a = b, fun _ h => h⟩

def list (R : Likeness α) : Likeness (List α) :=
  ⟨fun l => List.Forall₂ (R.rel l), fun hl h => h.imp fun _ _ => R.mono hl⟩

def option (R : Likeness α) : Likeness (Option α) where
  rel l := Option.Rel (R.rel l)
  mono hl h := by
    cases h with
    | none => exact .none
    | some h => exact .some (R.mono hl h)

def prod (R : Likeness α) (S : Likeness β) : Likeness (α × β) :=
  ⟨fun l p q => R.rel l p.1 q.1 ∧ S.rel l p.2 q.2, fun hl h => ⟨R.mono hl h.1, S.mono hl h.2⟩⟩

end Likeness

/-! ### Environments -/

/-- The same is bound, and if one environment is a snapshot, the other is the one that stands
for it. -/
structure Env.Alike (l : Ledger) (e f : Env) : Prop where
  bindings : e.bindings = f.bindings
  snapshot : Option.Rel (fun n m => ⟨n, m, e.bindings⟩ ∈ l.twins) e.snapshot f.snapshot

variable {l l' : Ledger}

namespace Env.Alike

variable {e f e' f' : Env} {es fs : List Env}

@[grind →]
theorem mono (h : e.Alike l f) (hl : l ≤ l') : e.Alike l' f := by
  obtain ⟨hbindings, hsnapshot⟩ := h
  refine ⟨hbindings, ?_⟩
  revert hsnapshot
  cases e.snapshot <;> cases f.snapshot <;> intro hsnapshot <;> cases hsnapshot
  · exact .none
  · exact .some (hl ‹_›)

theorem get?_eq (h : e.Alike l f) (name : String) : e.get? name = f.get? name := by
  unfold Env.get?
  rw [h.bindings]

theorem contains_eq (h : e.Alike l f) (name : String) : e.contains name = f.contains name := by
  unfold Env.contains
  rw [h.bindings]

/-- Environments that are no snapshots. -/
theorem of_bindings_eq (h : e.bindings = f.bindings) (he : e.snapshot = none)
    (hf : f.snapshot = none) : e.Alike l f :=
  ⟨h, by rw [he, hf]; exact .none⟩

/-- Of two environments that are the same snapshot, one has the bindings of the other. -/
theorem bindings_eq (he : e.Alike l e) (hf : f.Alike l f) (hsame : e.isSnapshotOf f = true) :
    e.bindings = f.bindings := by
  unfold isSnapshotOf at hsame
  obtain ⟨hsome, heq⟩ := Bool.and_eq_true_iff.1 hsame
  obtain ⟨n, hn⟩ := Option.isSome_iff_exists.1 hsome
  have hentry := he.snapshot
  have hentry' := hf.snapshot
  rw [← eq_of_beq heq, hn] at hentry'
  rw [hn] at hentry
  cases hentry with
  | some hentry =>
    cases hentry' with
    | some hentry' => exact congrArg Twin.bindings (l.coherent _ hentry _ hentry' (.inl rfl))

/-- Whether two environments are the same snapshot is the same in both runs. -/
theorem isSnapshotOf_eq (h : e.Alike l f) (h' : e'.Alike l f') :
    e.isSnapshotOf e' = f.isSnapshotOf f' := by
  have hsnapshot := h.snapshot
  have hsnapshot' := h'.snapshot
  unfold isSnapshotOf
  revert hsnapshot hsnapshot'
  rcases e.snapshot with _ | n <;> rcases f.snapshot with _ | m <;> intro h <;> cases h
  · intro _
    rfl
  · rename_i hnm
    rcases e'.snapshot with _ | n' <;> rcases f'.snapshot with _ | m' <;> intro h <;> cases h
    · rfl
    · rename_i hnm'
      have hfirst : n = n' ↔ m = m' := by
        constructor <;> rintro rfl
        · exact congrArg Twin.second (l.coherent _ hnm _ hnm' (.inl rfl))
        · exact congrArg Twin.first (l.coherent _ hnm _ hnm' (.inr rfl))
      simp [hfirst]

@[grind ←]
theorem empty : Env.empty.Alike l Env.empty := of_bindings_eq rfl rfl rfl

@[grind ←]
theorem set (h : e.Alike l f) (name : String) (ty : TyUnion) :
    (e.set name ty).Alike l (f.set name ty) :=
  of_bindings_eq (congrArg (Table.insert · name ty) h.bindings) rfl rfl

@[grind ←]
theorem erase (h : e.Alike l f) (name : String) : (e.erase name).Alike l (f.erase name) := by
  unfold Env.erase
  rw [h.contains_eq]
  split
  · exact of_bindings_eq (congrArg (Table.erase · name) h.bindings) rfl rfl
  · exact h

theorem update (h : e.Alike l f) (name : String) (ty : TyUnion) :
    (e.update name ty).1.Alike l (f.update name ty).1 ∧
      (e.update name ty).2 = (f.update name ty).2 := by
  unfold Env.update
  rw [h.get?_eq]
  split
  · exact ⟨h.set name ty, rfl⟩
  · extract_lets joined
    split
    · exact ⟨h, rfl⟩
    · exact ⟨h.set name joined, rfl⟩

/-- Joining environments comes out alike, and so does whether that changed anything. -/
theorem mergeReport (h : e.Alike l f) (h' : e'.Alike l f') :
    (e.mergeReport e').1.Alike l (f.mergeReport f').1 ∧
      (e.mergeReport e').2 = (f.mergeReport f').2 := by
  unfold Env.mergeReport
  rw [h.isSnapshotOf_eq h', h'.bindings]
  split
  · exact ⟨h, rfl⟩
  · rename_i hother
    clear hother
    generalize false = changed
    induction f'.bindings.entries generalizing e f changed with
    | nil => exact ⟨h, rfl⟩
    | cons entry entries ih =>
      obtain ⟨name, ty⟩ := entry
      have hupdate := h.update name ty
      rw [List.foldl_cons, List.foldl_cons]
      dsimp only
      generalize e.update name ty = p at hupdate ⊢
      generalize f.update name ty = q at hupdate ⊢
      obtain ⟨e₁, more⟩ := p
      obtain ⟨f₁, more'⟩ := q
      obtain ⟨hstep, rfl⟩ := hupdate
      exact ih hstep (changed || more)

@[grind ←]
theorem merge (h : e.Alike l f) (h' : e'.Alike l f') : (e.merge e').Alike l (f.merge f') :=
  (h.mergeReport h').1

theorem foldl_merge (h : e.Alike l f) (hs : List.Forall₂ (Env.Alike l) es fs) :
    (es.foldl Env.merge e).Alike l (fs.foldl Env.merge f) := by
  induction hs generalizing e f with
  | nil => exact h
  | cons hfirst _ ih => exact ih (h.merge hfirst)

theorem joinAll? (hs : List.Forall₂ (Env.Alike l) es fs) :
    Option.Rel (Env.Alike l) (Env.joinAll? es) (Env.joinAll? fs) := by
  cases hs with
  | nil => exact .none
  | cons hfirst hrest => exact .some (hfirst.foldl_merge hrest)

/-- Snapshots that are taken in both runs stand for each other. -/
theorem numbered (h : e.Alike l f) {n m : Nat} (hl : l.Below n m) :
    (e.numbered n).Alike (l.push hl e.bindings) (f.numbered m) := by
  refine ⟨h.bindings, ?_⟩
  show Option.Rel _ (e.snapshot.or (some n)) (f.snapshot.or (some m))
  have hsnapshot := (h.mono (Ledger.le_push hl e.bindings)).snapshot
  revert hsnapshot
  cases e.snapshot <;> cases f.snapshot <;> intro hsnapshot <;> cases hsnapshot
  · exact .some (Ledger.mem_push hl e.bindings)
  · exact .some ‹_›

/-- An environment that is alike itself at two times stands for itself between them. -/
theorem between {n m : Nat} (h : e.Alike l e) (hl : l ≤ l') (hbelow : l.Below n n)
    (hbelow' : l'.Below m m) : ∃ l₀ : Ledger, e.Alike l₀ e ∧ l₀.Below n m := by
  have hsnapshot := h.snapshot
  cases hnumber : e.snapshot with
  | none =>
    refine ⟨.blank, .of_bindings_eq rfl hnumber hnumber, fun x hx => ?_⟩
    exact absurd hx List.not_mem_nil
  | some number =>
    rw [hnumber] at hsnapshot
    cases hsnapshot with
    | some hentry =>
      refine ⟨.only ⟨number, number, e.bindings⟩, ⟨rfl, ?_⟩, fun x hx => ?_⟩
      · rw [hnumber]
        exact .some (List.mem_singleton_self _)
      · obtain rfl := List.mem_singleton.1 hx
        exact ⟨(hbelow _ hentry).1, (hbelow' _ (hl hentry)).2⟩

end Env.Alike

/-- Environments that are alike. -/
abbrev Env.alike : Likeness Env := ⟨Env.Alike, fun hl h => h.mono hl⟩

/-! ### Outcomes and jumps -/

/-- The environments for both outcomes of a condition are alike. -/
structure Split.Alike (l : Ledger) (s t : Split) : Prop where
  yes : s.yes.Alike l t.yes
  no : s.no.Alike l t.no

/-- Conditions that were checked have the same type, and environments that are alike. -/
structure Branches.Alike (l : Ledger) (b c : Branches) : Prop where
  ty : b.ty = c.ty
  split : b.split.Alike l c.split

/-- Loops are left and started over in environments that are alike. -/
structure Jumps.Alike (l : Ledger) (j k : Jumps) : Prop where
  breaks : List.Forall₂ (Env.Alike l) j.breaks k.breaks
  continues : List.Forall₂ (Env.Alike l) j.continues k.continues

attribute [grind →] Split.Alike.yes Split.Alike.no

namespace Split.Alike

variable {s t s' t' : Split} {e f : Env}

@[grind →]
theorem mono (h : s.Alike l t) (hl : l ≤ l') : s.Alike l' t := ⟨h.yes.mono hl, h.no.mono hl⟩

@[grind ←]
theorem unchanged (h : e.Alike l f) : (Split.unchanged e).Alike l (.unchanged f) := ⟨h, h⟩

@[grind ←]
theorem negate (h : s.Alike l t) : s.negate.Alike l t.negate := ⟨h.no, h.yes⟩

@[grind ←]
theorem both (h : s.Alike l t) (h' : s'.Alike l t') : (s.both s').Alike l (t.both t') :=
  ⟨h'.yes, h.no.merge h'.no⟩

@[grind ←]
theorem either (h : s.Alike l t) (h' : s'.Alike l t') : (s.either s').Alike l (t.either t') :=
  ⟨h.yes.merge h'.yes, h'.no⟩

@[grind ←]
theorem joined (h : s.Alike l t) : s.joined.Alike l t.joined := h.yes.merge h.no

@[grind ←]
theorem on (h : s.Alike l t) (outcome : Bool) : (s.on outcome).Alike l (t.on outcome) := by
  cases outcome
  · exact h.no
  · exact h.yes

theorem combine (c : Connective) (h : s.Alike l t) (h' : s'.Alike l t') :
    (c.combine s s').Alike l (c.combine t t') := by
  cases c
  · exact h.both h'
  · exact h.either h'

end Split.Alike

@[grind ←]
theorem Env.Alike.narrow {e f : Env} (h : e.Alike l f) (known : Hierarchy) (name : String)
    (test : Narrowing) : (e.narrow known name test).Alike l (f.narrow known name test) := by
  unfold Env.narrow
  rw [h.get?_eq]
  split
  · split
    · exact ⟨h.set name _, h⟩
    · exact ⟨h, h⟩
  · exact ⟨h.set name _, h.set name _⟩

theorem Env.Alike.splitBy {e f : Env} (h : e.Alike l f) (known : Hierarchy) (scope : Scope)
    (node : Node) : (splitBy known scope e node).Alike l (splitBy known scope f node) := by
  unfold PhpCheck.splitBy
  split
  · have hstart : (Split.unchanged e).Alike l (.unchanged f) := .unchanged h
    generalize Split.unchanged e = s at hstart ⊢
    generalize Split.unchanged f = t at hstart ⊢
    induction node.positional generalizing s t with
    | nil => exact hstart
    | cons target targets ih =>
      rw [List.foldl_cons, List.foldl_cons]
      refine ih _ _ ?_
      split
      · exact hstart.both (hstart.yes.narrow known _ _)
      · exact hstart
  · split
    · extract_lets split split'
      split
      · exact (h.narrow known _ _).negate
      · exact h.narrow known _ _
    · exact .unchanged h

theorem Branches.Alike.mono {b c : Branches} (h : b.Alike l c) (hl : l ≤ l') : b.Alike l' c :=
  ⟨h.ty, h.split.mono hl⟩

theorem Branches.Alike.known?_eq {b c : Branches} (h : b.Alike l c) : b.known? = c.known? := by
  unfold Branches.known?
  rw [h.ty]

/-- Checked conditions that are alike. -/
abbrev Branches.alike : Likeness Branches := ⟨Branches.Alike, fun hl h => h.mono hl⟩

theorem Jumps.Alike.mono {j k : Jumps} (h : j.Alike l k) (hl : l ≤ l') : j.Alike l' k :=
  ⟨h.breaks.imp fun _ _ he => he.mono hl, h.continues.imp fun _ _ he => he.mono hl⟩

/-- Jumps that are alike. -/
abbrev Jumps.alike : Likeness Jumps := ⟨Jumps.Alike, fun hl h => h.mono hl⟩

/-! ### Scopes -/

/-- A scope without its variables, without the results that were seen so far, and without the
jumps out of loops.  What a step does is up to no more of it than this and the variables. -/
def Scope.outline (s : Scope) : Scope :=
  { s with env := .empty, jumps := [], function := s.function.map FunctionContext.head }

section

variable (s : Scope)

@[simp, grind =]
theorem Scope.outline_names : s.outline.names = s.names := rfl

@[simp, grind =]
theorem Scope.outline_classContext : s.outline.classContext = s.classContext := rfl

@[simp, grind =]
theorem Scope.outline_isStatic : s.outline.isStatic = s.isStatic := rfl

@[simp, grind =]
theorem Scope.outline_probing : s.outline.probing = s.probing := rfl

@[simp, grind =]
theorem Scope.outline_classReference (name : String) :
    s.outline.classReference name = s.classReference name := rfl

end

/-- Scopes that are alike, with so many of the loops around, and perhaps with the results that
were seen so far.  The names may have to be certain ones. -/
structure Scope.Alike (names? : Option NameContext) (depth : Nat) (whole : Bool) (l : Ledger)
    (s t : Scope) : Prop where
  outline : s.outline = t.outline
  names : ∀ names, names? = some names → s.names = names
  env : s.env.Alike l t.env
  jumps : List.Forall₂ (Jumps.Alike l) (s.jumps.take depth) (t.jumps.take depth)
  results : whole = true → s.function = t.function

theorem forall₂_modify {α β : Type} {R : α → β → Prop} {as : List α} {bs : List β}
    (h : List.Forall₂ R as bs) {f : α → α} {g : β → β} (hfg : ∀ a b, R a b → R (f a) (g b))
    (i : Nat) : List.Forall₂ R (as.modify i f) (bs.modify i g) := by
  induction h generalizing i with
  | nil => simp
  | cons hfirst hrest ih =>
    cases i with
    | zero => exact .cons (hfg _ _ hfirst) hrest
    | succ i => exact .cons hfirst (ih i)

namespace Scope.Alike

variable {names? : Option NameContext} {depth : Nat} {whole : Bool} {s t : Scope} {e f : Env}

theorem mono (h : s.Alike names? depth whole l t) (hl : l ≤ l') :
    s.Alike names? depth whole l' t :=
  { h with env := h.env.mono hl, jumps := h.jumps.imp fun _ _ hj => hj.mono hl }

theorem names_eq (h : s.Alike names? depth whole l t) : s.names = t.names :=
  congrArg (·.names) h.outline

theorem classContext_eq (h : s.Alike names? depth whole l t) : s.classContext = t.classContext :=
  congrArg (·.classContext) h.outline

theorem including_eq (h : s.Alike names? depth whole l t) : s.including = t.including :=
  congrArg (·.including) h.outline

/-- What changes nothing but the outlines, and changes them alike. -/
theorem ofOutline {g : Scope → Scope} (h : s.Alike names? depth whole l t)
    (hg : ∀ s, (g s).outline = g s.outline ∧ (g s).names = s.names ∧ (g s).env = s.env ∧
      (g s).jumps = s.jumps ∧ (g s).function = s.function) :
    (g s).Alike names? depth whole l (g t) where
  outline := by rw [(hg s).1, (hg t).1, h.outline]
  names names hnames := (hg s).2.1.trans (h.names names hnames)
  env := by
    rw [(hg s).2.2.1, (hg t).2.2.1]
    exact h.env
  jumps := by
    rw [(hg s).2.2.2.1, (hg t).2.2.2.1]
    exact h.jumps
  results hwhole := by
    rw [(hg s).2.2.2.2, (hg t).2.2.2.2]
    exact h.results hwhole

theorem withEnv (h : s.Alike names? depth whole l t) (he : e.Alike l f) :
    Scope.Alike names? depth whole l { s with env := e } { t with env := f } :=
  { h with env := he, outline := h.outline }

theorem bind (h : s.Alike names? depth whole l t) (name : String) (ty : TyUnion) :
    (s.bind name ty).Alike names? depth whole l (t.bind name ty) :=
  h.withEnv (h.env.set name ty)

/-- Other names, where these need not be certain ones. -/
theorem withNames (h : s.Alike none depth whole l t) {names names' : NameContext}
    (hnames : names = names') :
    Scope.Alike none depth whole l { s with names } { t with names := names' } where
  outline := by
    subst hnames
    exact congrArg (fun s : Scope => { s with names }) h.outline
  names := nofun
  env := h.env
  jumps := h.jumps
  results := h.results

theorem observeReturn (h : s.Alike names? depth whole l t) (ty : TyUnion) :
    (s.observeReturn ty).Alike names? depth whole l (t.observeReturn ty) where
  outline := by
    have hhead : ∀ s : Scope, (s.observeReturn ty).outline = s.outline := by
      intro s
      unfold Scope.observeReturn Scope.outline
      cases s.function <;> rfl
    rw [hhead, hhead, h.outline]
  names := h.names
  env := h.env
  jumps := h.jumps
  results hwhole := congrArg (Option.map _) (h.results hwhole)

/-! ### Scopes of their own -/

theorem functionBody (h : s.Alike names? depth whole l t) (function : FunctionContext)
    (isStatic : Bool) :
    (s.functionBody function isStatic).Alike names? 0 true l
      (t.functionBody function isStatic) := by
  have henv : (s.functionBody function isStatic).env = (t.functionBody function isStatic).env := by
    unfold Scope.functionBody
    rw [h.classContext_eq]
  refine ⟨?_, h.names, henv ▸ ?_, .nil, fun _ => rfl⟩
  · unfold Scope.functionBody Scope.outline
    simp only [h.names_eq, h.classContext_eq, h.including_eq]
  · refine ⟨rfl, ?_⟩
    unfold Scope.functionBody
    dsimp only
    split <;> exact .none

theorem arrowBody (h : s.Alike names? depth whole l t) (function : FunctionContext)
    (isStatic : Bool) :
    (s.arrowBody function isStatic).Alike names? 0 true l (t.arrowBody function isStatic) := by
  have hbody := h.functionBody function isStatic
  refine ⟨hbody.outline, hbody.names, ?_, hbody.jumps, hbody.results⟩
  unfold Scope.arrowBody
  dsimp only
  rw [hbody.env.get?_eq]
  split
  · exact h.env.set _ _
  · exact h.env.erase _

theorem classBody (h : s.Alike names? depth whole l t) (c : ClassContext) :
    (s.classBody c).Alike names? 0 true l (t.classBody c) where
  outline := by
    unfold Scope.classBody Scope.outline
    simp only [h.names_eq, h.including_eq]
  names := h.names
  env := .empty
  jumps := .nil
  results _ := rfl

/-! ### Loops -/

theorem recordJump (h : s.Alike names? depth whole l t) (loops : Nat) (isContinue : Bool) :
    (s.recordJump loops isContinue).Alike names? depth whole l (t.recordJump loops isContinue) := by
  unfold Scope.recordJump
  split
  · exact h
  · refine { h with outline := h.outline, jumps := ?_ }
    dsimp only
    rw [List.take_modify, List.take_modify]
    refine forall₂_modify h.jumps (fun j k hjk => ?_) _
    have hlast : List.Forall₂ (Env.Alike l) [s.env] [t.env] := .cons h.env .nil
    split
    · exact { hjk with continues := List.rel_append hjk.continues hlast }
    · exact { hjk with breaks := List.rel_append hjk.breaks hlast }

theorem enterLoop (h : s.Alike names? depth whole l t) :
    s.enterLoop.Alike names? (depth + 1) whole l t.enterLoop :=
  { h with outline := h.outline, jumps := .cons ⟨.nil, .nil⟩ h.jumps }

theorem exitLoop (h : s.Alike names? (depth + 1) whole l t) :
    s.exitLoop.1.Alike l t.exitLoop.1 ∧ s.exitLoop.2.Alike names? depth whole l t.exitLoop.2 := by
  have hjumps := h.jumps
  unfold Scope.exitLoop
  cases hs : s.jumps with
  | nil =>
    cases ht : t.jumps with
    | nil =>
      refine ⟨⟨.nil, .nil⟩, { h with jumps := ?_ }⟩
      rw [hs, ht, List.take_nil]
      exact .nil
    | cons k rest =>
      rw [hs, ht] at hjumps
      cases hjumps
  | cons j rest =>
    cases ht : t.jumps with
    | nil =>
      rw [hs, ht] at hjumps
      cases hjumps
    | cons k rest' =>
      rw [hs, ht] at hjumps
      cases hjumps with
      | cons hfirst hrest => exact ⟨hfirst, { h with outline := h.outline, jumps := hrest }⟩

end Scope.Alike

end PhpCheck
