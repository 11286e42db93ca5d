import PhpCheck.Session.Run

/-!
The order of findings in a report.

Findings are compared by their place, their kind and their message.  This is a total
preorder, and among the findings of one file it tells any two apart.  So a list of
findings that is put in order, each of them once, depends only on which findings are in
it (`Session.tidy_congr`).
-/

namespace PhpCheck

open Std

/-! ### Comparing -/

theorem transCmp_on {α β : Type} (cmp : β → β → Ordering) [TransCmp cmp] (f : α → β) :
    TransCmp fun a b => cmp (f a) (f b) where
  eq_swap := OrientedCmp.eq_swap
  isLE_trans := TransCmp.isLE_trans

instance : TransCmp Piece.compare :=
  inferInstanceAs (TransCmp (compareLex (compareOn Piece.rank) (compareOn Piece.text)))

theorem Path.compare_go (ps qs : List Piece) :
    Path.compare.go ps qs = List.compareLex Piece.compare ps qs := by
  induction ps generalizing qs with
  | nil => cases qs <;> rfl
  | cons p ps ih =>
    cases qs with
    | nil => rfl
    | cons q qs => rw [Path.compare.go, List.compareLex_cons_cons, ih]

instance : TransCmp Path.compare := by
  have hcompare : Path.compare =
      fun p q => List.compareLex Piece.compare (Path.pieces p) (Path.pieces q) :=
    funext fun p => funext fun q => Path.compare_go _ _
  rw [hcompare]
  exact transCmp_on _ Path.pieces

instance : TransCmp Location.compare :=
  have := transCmp_on Path.compare Location.file
  inferInstanceAs (TransCmp
    (compareLex _ (compareLex (compareOn Location.line) (compareOn Location.column))))

instance : TransCmp Diagnostic.compare :=
  have := transCmp_on Location.compare Diagnostic.location
  inferInstanceAs (TransCmp (compareLex _ (compareOn fun d : Diagnostic => d.kind.rank)))

instance : TransCmp Diagnostic.compareMessage :=
  inferInstanceAs (TransCmp (compareLex Diagnostic.compare (compareOn Diagnostic.message)))

theorem DiagnosticKind.all_rank (k : DiagnosticKind) : all[k.rank]? = some k := by
  cases k <;> rfl

theorem DiagnosticKind.rank_injective {k k' : DiagnosticKind} (hrank : k.rank = k'.rank) :
    k = k' := by
  have hsome := k.all_rank
  rw [hrank, k'.all_rank] at hsome
  exact (Option.some.inj hsome).symm

/-- Findings of one file that compare equal are equal. -/
theorem Diagnostic.eq_of_compareMessage {a b : Diagnostic} (hcompare : a.compareMessage b = .eq)
    (hfile : a.location.file = b.location.file) : a = b := by
  obtain ⟨kind, ⟨file, line, column⟩, message⟩ := a
  obtain ⟨kind', ⟨file', line', column'⟩, message'⟩ := b
  rw [compareMessage, Diagnostic.compare, Location.compare] at hcompare
  simp only [Ordering.then_eq_eq, Std.compare_eq_iff_eq] at hcompare
  obtain ⟨⟨⟨-, hline, hcolumn⟩, hrank⟩, hmessage⟩ := hcompare
  have hkind := DiagnosticKind.rank_injective hrank
  cases hfile
  cases hline
  cases hcolumn
  cases hkind
  cases hmessage
  rfl

/-! ### Lists without repetitions -/

theorem eraseRepsBy_loop {α : Type} (r : α → α → Bool) (a : α) (as acc : List α) :
    List.eraseRepsBy.loop r a as acc = acc.reverse ++ List.eraseRepsBy.loop r a as [] := by
  induction as generalizing a acc with
  | nil => simp [List.eraseRepsBy.loop]
  | cons b as ih =>
    rw [List.eraseRepsBy.loop, List.eraseRepsBy.loop]
    cases r a b with
    | true => exact ih a acc
    | false =>
      dsimp only
      rw [ih b (a :: acc), ih b [a], List.reverse_cons, List.append_assoc]
      rfl

section

variable {α : Type} [BEq α]

theorem eraseReps_cons_cons (a b : α) (as : List α) : (a :: b :: as).eraseReps =
    if a == b then (a :: as).eraseReps else a :: (b :: as).eraseReps := by
  show List.eraseRepsBy.loop _ a (b :: as) [] = if a == b then List.eraseRepsBy.loop _ a as []
    else a :: List.eraseRepsBy.loop _ b as []
  rw [List.eraseRepsBy.loop]
  cases a == b with
  | true => rfl
  | false => exact eraseRepsBy_loop _ b as [a]

theorem eraseReps_cons_sublist (a : α) (as : List α) :
    (a :: as).eraseReps.Sublist (a :: as) := by
  induction as generalizing a with
  | nil => exact List.Sublist.refl [a]
  | cons b as ih =>
    rw [eraseReps_cons_cons]
    split
    · exact (ih a).trans (.cons_cons a (List.sublist_cons_self b as))
    · exact (ih b).cons_cons a

theorem eraseReps_sublist (as : List α) : as.eraseReps.Sublist as := by
  cases as with
  | nil => exact .slnil
  | cons a as => exact eraseReps_cons_sublist a as

variable [LawfulBEq α]

theorem mem_eraseReps_cons {x a : α} {as : List α} : x ∈ (a :: as).eraseReps ↔ x ∈ a :: as := by
  induction as generalizing a with
  | nil => rfl
  | cons b as ih =>
    rw [eraseReps_cons_cons]
    split
    · rename_i heq
      rw [ih, eq_of_beq heq]
      simp
    · rw [List.mem_cons, ih, List.mem_cons (l := b :: as)]

/-- In a list that is in order, repetitions stand next to each other. -/
theorem nodup_eraseReps_cons {le : α → α → Prop} {a : α} {as : List α}
    (hanti : ∀ x ∈ a :: as, ∀ y ∈ a :: as, le x y → le y x → x = y)
    (hsorted : (a :: as).Pairwise le) : (a :: as).eraseReps.Nodup := by
  induction as generalizing a with
  | nil => exact List.nodup_cons.2 ⟨List.not_mem_nil, List.nodup_nil⟩
  | cons b as ih =>
    have hsub : (a :: as).Sublist (a :: b :: as) := .cons_cons a (List.sublist_cons_self b as)
    rw [eraseReps_cons_cons]
    split
    · exact ih (fun x hx y hy => hanti x (hsub.subset hx) y (hsub.subset hy)) (hsorted.sublist hsub)
    · rename_i hne
      obtain ⟨hfirst, htail⟩ := List.pairwise_cons.1 hsorted
      refine List.nodup_cons.2 ⟨fun hmem => hne ?_, ih (fun x hx y hy =>
        hanti x (List.mem_cons_of_mem a hx) y (List.mem_cons_of_mem a hy)) htail⟩
      -- A repetition of `a` behind `b` would have `b` between equals.
      rcases List.mem_cons.1 (mem_eraseReps_cons.1 hmem) with rfl | hlater
      · exact beq_self_eq_true a
      · have hba := (List.pairwise_cons.1 htail).1 a hlater
        have hab := hfirst b List.mem_cons_self
        exact beq_iff_eq.2 (hanti a List.mem_cons_self b
          (List.mem_cons_of_mem a List.mem_cons_self) hab hba)

theorem mem_eraseReps {x : α} {as : List α} : x ∈ as.eraseReps ↔ x ∈ as := by
  cases as with
  | nil => rfl
  | cons a as => exact mem_eraseReps_cons

theorem nodup_eraseReps {le : α → α → Prop} {as : List α}
    (hanti : ∀ x ∈ as, ∀ y ∈ as, le x y → le y x → x = y) (hsorted : as.Pairwise le) :
    as.eraseReps.Nodup := by
  cases as with
  | nil => exact List.nodup_nil
  | cons a as => exact nodup_eraseReps_cons hanti hsorted

end

/-! ### Findings in order -/

namespace Session

theorem mem_tidy {d : Diagnostic} {found : List Diagnostic} : d ∈ tidy found ↔ d ∈ found := by
  rw [tidy, mem_eraseReps, List.mem_mergeSort]

theorem pairwise_mergeSort_compareMessage (found : List Diagnostic) :
    (found.mergeSort fun a b => (a.compareMessage b).isLE).Pairwise fun a b =>
      (a.compareMessage b).isLE = true := by
  refine List.pairwise_mergeSort (fun a b c => TransCmp.isLE_trans) (fun a b => ?_) found
  have hswap : a.compareMessage b = (b.compareMessage a).swap := OrientedCmp.eq_swap
  rw [hswap]
  cases b.compareMessage a <;> rfl

theorem isLE_antisymm {a b : Diagnostic} (hfile : a.location.file = b.location.file)
    (hab : (a.compareMessage b).isLE = true) (hba : (b.compareMessage a).isLE = true) : a = b :=
  Diagnostic.eq_of_compareMessage (OrientedCmp.isLE_antisymm hab hba) hfile

theorem pairwise_tidy (found : List Diagnostic) :
    (tidy found).Pairwise fun a b => (a.compareMessage b).isLE = true :=
  (pairwise_mergeSort_compareMessage found).sublist (eraseReps_sublist _)

theorem nodup_tidy {found : List Diagnostic} {file : String}
    (hfile : ∀ d ∈ found, d.location.file = file) : (tidy found).Nodup := by
  refine nodup_eraseReps (fun a ha b hb => isLE_antisymm ?_)
    (pairwise_mergeSort_compareMessage found)
  rw [hfile a (List.mem_mergeSort.1 ha), hfile b (List.mem_mergeSort.1 hb)]

/-- Findings of a file that are in order, each of them once, are those that are tidied. -/
theorem tidy_eq_of_mem {found ordered : List Diagnostic} {file : String}
    (hfile : ∀ d ∈ found, d.location.file = file) (hsame : ∀ d, d ∈ found ↔ d ∈ ordered)
    (hsorted : ordered.Pairwise fun a b => (a.compareMessage b).isLE = true)
    (hnodup : ordered.Nodup) : tidy found = ordered := by
  have hperm : (tidy found).Perm ordered := by
    rw [List.perm_ext_iff_of_nodup (nodup_tidy hfile) hnodup]
    intro d
    rw [mem_tidy, hsame]
  refine hperm.eq_of_pairwise (fun a b ha hb => isLE_antisymm ?_) (pairwise_tidy found) hsorted
  rw [hfile a (mem_tidy.1 ha), hfile b ((hsame b).2 hb)]

/-- The findings of a file in order depend on which they are. -/
theorem tidy_congr {found found' : List Diagnostic} {file : String}
    (hfile : ∀ d ∈ found, d.location.file = file) (hsame : ∀ d, d ∈ found ↔ d ∈ found') :
    tidy found = tidy found' :=
  tidy_eq_of_mem hfile (fun d => (hsame d).trans mem_tidy.symm) (pairwise_tidy found')
    (nodup_tidy fun d hd => hfile d ((hsame d).2 hd))

/-- Leaving findings out and putting the others in order are done in any order. -/
theorem tidy_filter {found : List Diagnostic} {file : String}
    (hfile : ∀ d ∈ found, d.location.file = file) (p : Diagnostic → Bool) :
    tidy (found.filter p) = (tidy found).filter p := by
  refine tidy_eq_of_mem (fun d hd => hfile d ((List.mem_filter.1 hd).1)) (fun d => ?_)
    ((pairwise_tidy found).filter p) ((nodup_tidy hfile).filter p)
  rw [List.mem_filter, List.mem_filter, mem_tidy]

/-- Findings that are tidied are in the order of a report. -/
theorem mergeSort_tidy (found : List Diagnostic) :
    ((tidy found).mergeSort fun a b => (a.compare b).isLE) = tidy found := by
  refine List.mergeSort_of_pairwise ((pairwise_tidy found).imp fun {a b} hab => ?_)
  rw [Diagnostic.compareMessage] at hab
  cases hcompare : a.compare b with
  | gt =>
    rw [hcompare] at hab
    cases hab
  | lt | eq => rfl

end Session

end PhpCheck
