import PhpCheck.Session.Basic

/-!
What holds of a session whenever a file is entered or left.

Files are entered and left like the calls of a program: no file is entered while it is
under analysis, and the one that was entered last is left first.  `Moment.Follows` says
of a moment that it may come after those before it, and `Session.Sound` that all of a
session's journal is like that and that its other fields agree with it.  Entering
(`Session.Sound.enter`) and leaving (`Session.Sound.leave`) keep a session sound.
-/

namespace PhpCheck

/-! ### Journals -/

/-- The files that are under analysis behind some moments, the latest of which is first. -/
def filesAt : List Moment → List String
  | [] => []
  | m :: _ => m.inProgress

/-- The file that is entered at a moment because another one includes it or because it
is to declare a name. -/
def Moment.loaded? (m : Moment) : Option String :=
  match m.event with
  | .entered path .included | .entered path .autoloaded => some path
  | _ => none

/-- The files that were included or autoloaded, the latest first. -/
def loadedFiles (journal : List Moment) : List String := journal.filterMap Moment.loaded?

/-- A moment may come after those before it, where so many files may be under analysis
that load one another. -/
structure Moment.Follows (limit : Nat) (earlier : List Moment) (m : Moment) : Prop where
  depth_eq : m.depth = m.inProgress.length
  nodup : m.inProgress.Nodup
  depth_le : m.depth ≤ max 1 limit
  entered : ∀ path cause, m.event = .entered path cause →
    path ∉ filesAt earlier ∧ m.inProgress = path :: filesAt earlier
  left : ∀ path outcome, m.event = .left path outcome → filesAt earlier = path :: m.inProgress
  /-- A file that has an outcome of its own is not entered again. -/
  settled : ∀ path cause, m.event = .entered path cause →
    ∀ m' ∈ earlier, ∀ outcome, m'.event = .left path outcome → outcome.included = true
  loaded : ∀ path, m.loaded? = some path → path ∉ loadedFiles earlier

/-- Every moment of a journal may come after those before it. -/
def Orderly (limit : Nat) (journal : List Moment) : Prop :=
  ∀ m earlier, m :: earlier <:+ journal → m.Follows limit earlier

theorem Orderly.nil (limit : Nat) : Orderly limit [] := by
  intro m earlier hsuffix
  have hlength := hsuffix.length_le
  simp at hlength

theorem Orderly.cons {limit : Nat} {m : Moment} {journal : List Moment}
    (hj : Orderly limit journal) (hm : m.Follows limit journal) : Orderly limit (m :: journal) := by
  intro m' earlier hsuffix
  rcases List.suffix_cons_iff.1 hsuffix with heq | hsuffix
  · rw [List.cons.injEq] at heq
    rw [heq.1, heq.2]
    exact hm
  · exact hj m' earlier hsuffix

theorem Orderly.nodup_loadedFiles {limit : Nat} {journal : List Moment}
    (hj : Orderly limit journal) : (loadedFiles journal).Nodup := by
  induction journal with
  | nil => exact List.nodup_nil
  | cons m earlier ih =>
    have hrest := ih fun m' earlier' hsuffix =>
      hj m' earlier' (hsuffix.trans (List.suffix_cons m earlier))
    have hm := hj m earlier List.suffix_rfl
    rw [loadedFiles, List.filterMap_cons]
    cases hloaded : m.loaded? with
    | none => exact hrest
    | some path => exact List.nodup_cons.2 ⟨hm.loaded path hloaded, hrest⟩

/-! ### Sessions -/

namespace Session

/-- How many files may be under analysis that load one another. -/
def limit (s : Session) : Nat := s.config.analyzer.maxLoadDepth

/-- The journal of a session is orderly, and its other fields agree with it. -/
structure Sound (s : Session) : Prop where
  orderly : Orderly s.limit s.journal
  current : filesAt s.journal = s.inProgress
  depth_eq : s.depth = s.inProgress.length
  nodup : s.inProgress.Nodup
  depth_le : s.depth ≤ max 1 s.limit
  order_nodup : s.order.Nodup
  mem_order : ∀ path, path ∈ s.order ↔ s.results.contains path = true
  loaded : ∀ path ∈ loadedFiles s.journal, path ∈ s.inProgress ∨ s.results.contains path = true
  stored : ∀ m ∈ s.journal, ∀ path outcome, m.event = .left path outcome →
    outcome.included = false → s.results.get? path = some outcome
  unsettled : ∀ path ∈ s.inProgress, ∀ outcome, s.results.get? path = some outcome →
    outcome.included = true

/-- A file may be entered.  One that was analyzed before is entered again only if it is
asked for, and has only been included. -/
structure Admits (s : Session) (path : String) (cause : Cause) : Prop where
  notInProgress : path ∉ s.inProgress
  depth_lt : s.depth < max 1 s.limit
  unsettled : ∀ outcome, s.results.get? path = some outcome → outcome.included = true
  fresh : cause ≠ .direct → s.results.contains path = false

theorem sound_start (config : Config) (loader : Loader) (order : ClassInfo.Order) :
    (start config loader order).Sound where
  orderly := .nil _
  current := rfl
  depth_eq := rfl
  nodup := List.nodup_nil
  depth_le := Nat.zero_le _
  order_nodup := List.nodup_nil
  mem_order := by
    intro path
    simp [start, Table.contains]
  loaded := by
    intro path hpath
    simp [start, loadedFiles] at hpath
  stored := by
    intro m hm
    simp [start] at hm
  unsettled := by
    intro path hpath
    simp [start] at hpath

theorem contains_insert (t : Table FileOutcome) (path other : String) (outcome : FileOutcome) :
    (t.insert path outcome).contains other = true ↔ path = other ∨ t.contains other = true := by
  rw [Table.contains, Table.get?_insert, Table.contains]
  by_cases heq : path = other
  · simp [heq]
  · simp [heq]

variable {s : Session} {path : String} {cause : Cause}

/-! ### Entering a file -/

/-- Entering a file that may be entered. -/
theorem Sound.enter (hs : s.Sound) (ha : s.Admits path cause) : (s.enter path cause).Sound := by
  have hdepth : s.depth + 1 = (path :: s.inProgress).length := by
    rw [List.length_cons, hs.depth_eq]
  have hnodup : (path :: s.inProgress).Nodup := List.nodup_cons.2 ⟨ha.notInProgress, hs.nodup⟩
  have hle : s.depth + 1 ≤ max 1 s.limit := ha.depth_lt
  have hloaded : ∀ p, Moment.loaded? ⟨.entered path cause, path :: s.inProgress, s.depth + 1⟩ =
      some p → p = path ∧ cause ≠ .direct := by
    intro p hp
    cases cause with
    | direct => simp [Moment.loaded?] at hp
    | included | autoloaded =>
      simp only [Moment.loaded?, Option.some.injEq] at hp
      exact ⟨hp.symm, by simp⟩
  have hunsettled : ∀ p ∈ path :: s.inProgress, ∀ outcome, s.results.get? p = some outcome →
      outcome.included = true := by
    intro p hp
    rcases List.mem_cons.1 hp with rfl | hp
    · exact ha.unsettled
    · exact hs.unsettled p hp
  refine ⟨hs.orderly.cons ⟨hdepth, hnodup, hle, ?_, ?_, ?_, ?_⟩, rfl, hdepth, hnodup, hle,
    hs.order_nodup, hs.mem_order, ?_, ?_, hunsettled⟩
  · intro p c hevent
    cases hevent
    rw [hs.current]
    exact ⟨ha.notInProgress, rfl⟩
  · intro p outcome hevent
    cases hevent
  · intro p c hevent m hm outcome hleft
    cases hevent
    cases hincluded : outcome.included with
    | true => rfl
    | false =>
      have hstored := hs.stored m hm path outcome hleft hincluded
      rw [ha.unsettled outcome hstored] at hincluded
      cases hincluded
  · -- A file that was loaded before is under analysis or has an outcome.
    intro p hp hearlier
    obtain ⟨rfl, hcause⟩ := hloaded p hp
    rcases hs.loaded p hearlier with hin | hresult
    · exact ha.notInProgress hin
    · rw [ha.fresh hcause] at hresult
      cases hresult
  · intro p hp
    show p ∈ path :: s.inProgress ∨ s.results.contains p = true
    rcases List.mem_filterMap.1 hp with ⟨m, hm, hmp⟩
    rcases List.mem_cons.1 hm with rfl | hm
    · obtain ⟨rfl, -⟩ := hloaded p hmp
      exact .inl List.mem_cons_self
    · rcases hs.loaded p (List.mem_filterMap.2 ⟨m, hm, hmp⟩) with hin | hresult
      · exact .inl (List.mem_cons_of_mem _ hin)
      · exact .inr hresult
  · intro m hm p outcome hleft
    rcases List.mem_cons.1 hm with rfl | hm
    · cases hleft
    · exact hs.stored m hm p outcome hleft

/-! ### Leaving a file -/

theorem filter_ne_cons {path : String} {rest : List String} (hnew : path ∉ rest) :
    (path :: rest).filter (· != path) = rest := by
  rw [List.filter_cons, if_neg (by simp)]
  refine List.filter_eq_self.2 fun q hq => ?_
  have hne : q ≠ path := fun heq => hnew (heq ▸ hq)
  simpa using hne

theorem Sound.nodup_order_leave (hs : s.Sound) (path : String) (outcome : FileOutcome) :
    (s.leave path outcome).order.Nodup := by
  show (if s.results.contains path then s.order else s.order ++ [path]).Nodup
  by_cases hold : s.results.contains path = true
  · rw [if_pos hold]
    exact hs.order_nodup
  · rw [if_neg hold]
    have hnew : path ∉ s.order := fun hin => hold ((hs.mem_order path).1 hin)
    refine List.nodup_append.2 ⟨hs.order_nodup, by simp, ?_⟩
    intro a ha b hb heq
    rw [List.mem_singleton] at hb
    exact hnew (hb ▸ heq ▸ ha)

theorem Sound.mem_order_leave (hs : s.Sound) (path : String) (outcome : FileOutcome) (p : String) :
    p ∈ (s.leave path outcome).order ↔ (s.leave path outcome).results.contains p = true := by
  show p ∈ (if s.results.contains path then s.order else s.order ++ [path]) ↔
    (s.results.insert path outcome).contains p = true
  rw [contains_insert]
  by_cases hold : s.results.contains path = true
  · rw [if_pos hold, hs.mem_order]
    constructor
    · exact .inr
    · rintro (rfl | hin)
      · exact hold
      · exact hin
  · rw [if_neg hold, List.mem_append, List.mem_singleton, hs.mem_order]
    exact ⟨fun h => h.symm.imp_left Eq.symm, fun h => h.symm.imp_right Eq.symm⟩

/-- Outcomes of their own are not replaced: the file that is left had none. -/
theorem Sound.stored_leave (hs : s.Sound) (hin : path ∈ s.inProgress) (outcome : FileOutcome) :
    ∀ m ∈ (s.leave path outcome).journal, ∀ p o, m.event = .left p o → o.included = false →
      (s.leave path outcome).results.get? p = some o := by
  intro m hm p o hleft hincluded
  show (s.results.insert path outcome).get? p = some o
  rw [Table.get?_insert]
  rcases List.mem_cons.1 hm with rfl | hm
  · cases hleft
    rw [if_pos rfl]
  · have hstored := hs.stored m hm p o hleft hincluded
    have hne : path ≠ p := by
      rintro rfl
      rw [hs.unsettled path hin o hstored] at hincluded
      cases hincluded
    rw [if_neg hne]
    exact hstored

/-- Leaving the file that was entered last. -/
theorem Sound.leave (hs : s.Sound) {rest : List String} (hp : s.inProgress = path :: rest)
    (outcome : FileOutcome) : (s.leave path outcome).Sound := by
  have hnodup := hs.nodup
  rw [hp, List.nodup_cons] at hnodup
  have hrest : s.inProgress.filter (· != path) = rest := by
    rw [hp, filter_ne_cons hnodup.1]
  have hdepth : s.depth - 1 = rest.length := by
    have hlength := hs.depth_eq
    rw [hp, List.length_cons] at hlength
    omega
  have hle : s.depth - 1 ≤ max 1 s.limit := by
    have hbound := hs.depth_le
    omega
  have hfollows : Moment.Follows s.limit s.journal
      ⟨.left path outcome, s.inProgress.filter (· != path), s.depth - 1⟩ := by
    refine ⟨by rw [hrest, hdepth], by rw [hrest]; exact hnodup.2, hle, ?_, ?_, ?_, ?_⟩
    · intro p c hevent
      cases hevent
    · intro p o hevent
      cases hevent
      rw [hs.current, hrest, hp]
    · intro p c hevent
      cases hevent
    · intro p hloaded
      simp [Moment.loaded?] at hloaded
  refine ⟨hs.orderly.cons hfollows, rfl, hfollows.depth_eq, hfollows.nodup, hle,
    hs.nodup_order_leave path outcome, hs.mem_order_leave path outcome, ?_,
    hs.stored_leave (by rw [hp]; exact List.mem_cons_self) outcome, ?_⟩
  · intro p hloaded
    show p ∈ s.inProgress.filter (· != path) ∨ (s.results.insert path outcome).contains p = true
    rw [contains_insert, hrest]
    have hearlier : p ∈ loadedFiles s.journal := by
      rcases List.mem_filterMap.1 hloaded with ⟨m, hm, hmp⟩
      rcases List.mem_cons.1 hm with rfl | hm
      · simp [Moment.loaded?] at hmp
      · exact List.mem_filterMap.2 ⟨m, hm, hmp⟩
    rcases hs.loaded p hearlier with hin | hresult
    · rw [hp] at hin
      rcases List.mem_cons.1 hin with rfl | hin
      · exact .inr (.inl rfl)
      · exact .inl hin
    · exact .inr (.inr hresult)
  · intro p hin o hresult
    have hresult : (s.results.insert path outcome).get? p = some o := hresult
    have hin : p ∈ s.inProgress.filter (· != path) := hin
    rw [hrest] at hin
    have hne : path ≠ p := fun heq => hnodup.1 (heq ▸ hin)
    rw [Table.get?_insert, if_neg hne] at hresult
    exact hs.unsettled p (by rw [hp]; exact List.mem_cons_of_mem _ hin) o hresult

end Session

end PhpCheck
