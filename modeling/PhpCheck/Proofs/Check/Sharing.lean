import PhpCheck.Proofs.Check.Frame
import PhpCheck.Proofs.Check.Uniform.Nodes

/-!
Environments that are the same snapshot.

A checker in which such environments have the same bindings is alike itself
(`Checker.shares_iff`).  So whatever was checked, they have the same bindings again
(`Check.visit_shares`), as a node does alike where the checkers are alike.  In a tree without
namespaces and imports, the names in force stay what they are (`Check.visit_names`).
-/

namespace PhpCheck

open Check

namespace Checker

/-- The environments from which control goes on, or leaves or starts over a loop. -/
def environments (c : Checker) : List Env :=
  c.scope.env :: c.scope.jumps.flatMap fun j => j.breaks ++ j.continues

/-- Snapshots have numbers that were given away already, and environments that are the same
snapshot have the same bindings. -/
structure Shares (c : Checker) : Prop where
  numbered : ∀ e ∈ c.environments, ∀ number, e.snapshot = some number → number < c.nextSnapshot
  bindings : ∀ e ∈ c.environments, ∀ other ∈ c.environments,
    e.isSnapshotOf other = true → e.bindings = other.bindings

variable {names? : Option NameContext} {l : Ledger} {c : Checker}

/-- An environment that is no snapshot, and the only one. -/
theorem Shares.of_alone {e : Env} (henvironments : c.environments = [e])
    (he : e.snapshot = none) : c.Shares := by
  have honly : ∀ other ∈ c.environments, other = e := fun other hother =>
    List.mem_singleton.1 (henvironments ▸ hother)
  constructor
  · intro other hother number hnumber
    rw [honly other hother, he] at hnumber
    cases hnumber
  · intro first hfirst second hsecond _
    rw [honly first hfirst, honly second hsecond]

theorem mem_environments {e : Env} : e ∈ c.environments ↔
    e = c.scope.env ∨ ∃ j ∈ c.scope.jumps, e ∈ j.breaks ∨ e ∈ j.continues := by
  simp [environments]

/-- A checker that is alike itself, with all of its loops. -/
abbrev AlikeSelf (names? : Option NameContext) (l : Ledger) (c : Checker) : Prop :=
  c.Alike names? c.scope.jumps.length true l c

/-- Each environment is alike itself. -/
theorem AlikeSelf.env (h : c.AlikeSelf names? l) {e : Env} (he : e ∈ c.environments) :
    e.Alike l e := by
  rcases mem_environments.1 he with rfl | ⟨j, hj, he⟩
  · exact h.scope.env
  · have hjumps := h.scope.jumps
    rw [List.take_length] at hjumps
    have halike := List.forall₂_same.1 hjumps j hj
    rcases he with he | he
    · exact List.forall₂_same.1 halike.breaks e he
    · exact List.forall₂_same.1 halike.continues e he

theorem AlikeSelf.of_env (h : ∀ e ∈ c.environments, e.Alike l e)
    (hbelow : l.Below c.nextSnapshot c.nextSnapshot) : c.AlikeSelf none l where
  outline := rfl
  scope := {
    outline := rfl
    names := nofun
    env := h _ (mem_environments.2 (.inl rfl))
    jumps := by
      rw [List.take_length]
      refine List.forall₂_same.2 fun j hj => ⟨?_, ?_⟩
      · exact List.forall₂_same.2 fun e he => h e (mem_environments.2 (.inr ⟨j, hj, .inl he⟩))
      · exact List.forall₂_same.2 fun e he => h e (mem_environments.2 (.inr ⟨j, hj, .inr he⟩))
    results := fun _ => rfl }
  below := hbelow

/-- What the environments of a checker bind that are one snapshot. -/
def bindingsOf (c : Checker) (number : Nat) : Table TyUnion :=
  ((c.environments.find? (·.snapshot == some number)).map (·.bindings)).getD .empty

/-- The snapshots of a checker, each of which stands for itself. -/
def ledger (c : Checker) : Ledger where
  twins := (List.range c.nextSnapshot).map fun n => ⟨n, n, c.bindingsOf n⟩
  coherent := by
    intro x hx y hy hxy
    obtain ⟨n, -, rfl⟩ := List.mem_map.1 hx
    obtain ⟨m, -, rfl⟩ := List.mem_map.1 hy
    obtain rfl | rfl := hxy <;> rfl

theorem below_ledger : c.ledger.Below c.nextSnapshot c.nextSnapshot := by
  intro x hx
  obtain ⟨n, hn, rfl⟩ := List.mem_map.1 hx
  exact ⟨List.mem_range.1 hn, List.mem_range.1 hn⟩

theorem Shares.bindings_eq_of (hc : c.Shares) {e : Env} (he : e ∈ c.environments) {number : Nat}
    (hnumber : e.snapshot = some number) : e.bindings = c.bindingsOf number := by
  unfold bindingsOf
  cases hfound : c.environments.find? (·.snapshot == some number) with
  | none =>
    have habsent := List.find?_eq_none.1 hfound e he
    rw [hnumber] at habsent
    simp at habsent
  | some other =>
    have hother : other.snapshot = some number := by simpa using List.find?_some hfound
    have hsame : e.isSnapshotOf other = true := by simp [Env.isSnapshotOf, hnumber, hother]
    exact hc.bindings e he other (List.mem_of_find?_eq_some hfound) hsame

/-- The checkers that are alike themselves. -/
theorem shares_iff : c.Shares ↔ ∃ l, c.AlikeSelf none l := by
  constructor
  · intro hc
    refine ⟨c.ledger, .of_env (fun e he => ⟨rfl, ?_⟩) below_ledger⟩
    cases hnumber : e.snapshot with
    | none => exact .none
    | some number =>
      refine .some (List.mem_map.2 ⟨number, List.mem_range.2 (hc.numbered e he number hnumber), ?_⟩)
      rw [hc.bindings_eq_of he hnumber]
  · rintro ⟨l, hc⟩
    refine ⟨fun e he number hnumber => ?_, fun e he other hother hsame => ?_⟩
    · have hentry := (hc.env he).snapshot
      rw [hnumber] at hentry
      cases hentry with
      | some hentry => exact (hc.below _ hentry).1
    · exact (hc.env he).bindings_eq (hc.env hother) hsame

theorem AlikeSelf.withNames (hc : c.AlikeSelf none l) : c.AlikeSelf (some c.scope.names) l :=
  { hc with scope := { hc.scope with names := fun _ h => Option.some.inj h } }

theorem AlikeSelf.shares (hc : c.AlikeSelf names? l) : c.Shares :=
  shares_iff.2 ⟨l, { hc with scope := { hc.scope with names := nofun } }⟩

/-- A step that keeps the loops around it leaves a checker alike itself. -/
theorem AlikeSelf.step {α : Type} {m : Check α} {R : Likeness α} {setting : Setting}
    {c' : Checker} {a : α} (hm : m.Agree names? .blank R m) (hcomposite : m.Composite)
    (hc : c.AlikeSelf names? l) (hrun : m setting c = .ok a c') :
    ∃ l', c'.AlikeSelf names? l' ∧ R.rel l' a a := by
  obtain ⟨l', -, hc', ha⟩ := hm l.blank_le hc hrun hrun
  rw [(hcomposite.keeps setting c a c' hrun).scope.jumps.length_eq] at hc'
  exact ⟨l', hc', ha⟩

end Checker

/-- The value of a step is alike itself. -/
theorem Check.Agree.of_shares {α : Type} {m : Check α} {R : Likeness α} {setting : Setting}
    {c c' : Checker} {a : α} (hm : m.Agree none .blank R m) (hc : c.Shares)
    (hrun : m setting c = .ok a c') : ∃ l, R.rel l a a := by
  obtain ⟨l, hc⟩ := Checker.shares_iff.1 hc
  obtain ⟨l', -, -, ha⟩ := hm l.blank_le hc hrun hrun
  exact ⟨l', ha⟩

section

variable {node : Node} {setting : Setting} {c c' : Checker} {result : Inferred}

/-- Whatever is checked, environments that are the same snapshot have the same bindings. -/
theorem Check.visit_shares (hc : c.Shares) (hrun : Check.visit node setting c = .ok result c') :
    c'.Shares := by
  obtain ⟨l, hc⟩ := Checker.shares_iff.1 hc
  obtain ⟨l', hc', -⟩ := hc.step (uniform_visit node.keeps_none) (composite_visit node) hrun
  exact hc'.shares

/-- A node in which no namespace is entered and nothing is imported leaves the names as they
are. -/
theorem Check.visit_names (h : node.Keeps (some c.scope.names)) (hc : c.Shares)
    (hrun : Check.visit node setting c = .ok result c') : c'.scope.names = c.scope.names := by
  obtain ⟨l, hc⟩ := Checker.shares_iff.1 hc
  obtain ⟨l', hc', -⟩ := hc.withNames.step (uniform_visit h) (composite_visit node) hrun
  exact hc'.scope.names _ rfl

end

end PhpCheck
