import Mathlib
import PhpCheck.Path

/-!
Paths without detours.

`Path.normalize` walks along the steps of a path and keeps the way back to the start: a name
is put on top of what is kept, and a step up takes off what is there.  Over names this is what
a step up means, so the end of a walk from a directory is the directory without as many names
as the way rises above its start, and then the names that the way itself leaves
(`Path.foldl_step`).

A way that starts nowhere has nothing to take off.  Its first step up beyond the start is kept,
but the next one takes off the step up that was kept, so of the steps above the start only the
parity is left.  A path may therefore be normalized before it is joined to a directory exactly
when it rises above its start at most once (`Path.normalize_join`).
-/

namespace PhpCheck.Path

/-! ### Walking -/

/-- How many of the steps up have no name in front of them that they could undo: the height
above its start that a way reaches. -/
def rise : List Piece → Nat
  | [] => 0
  | .up :: rest => rise rest + 1
  | .name _ :: rest => rise rest - 1
  | _ :: rest => rise rest

/-- The names that are left at the end of a way that started with the names `kept`, the last
name first. -/
def left (kept : List String) : List Piece → List String
  | [] => kept
  | .up :: rest => left kept.tail rest
  | .name text :: rest => left (text :: kept) rest
  | _ :: rest => left kept rest

/-- What a walk keeps of its way over names, the last one first, and over steps up that
nothing could undo: of these only the parity. -/
def keeping (names : List String) (above : Nat) : List Piece :=
  names.map .name ++ List.replicate (above % 2) .up

theorem rise_le_count (ps : List Piece) : rise ps ≤ ps.count .up := by
  fun_induction rise ps with
  | case1 => exact Nat.le_refl 0
  | case2 rest ih => simpa using ih
  | case3 text rest ih =>
    rw [List.count_cons_of_ne (by simp)]
    omega
  | case4 p rest hup hname ih =>
    rw [List.count_cons_of_ne (by simpa using hup)]
    exact ih

/-- What is below the names of the start stays below, but for the steps up that get there. -/
theorem left_append (ks bs : List String) (ps : List Piece) :
    left (ks ++ bs) ps = left ks ps ++ bs.drop (rise ps - ks.length) := by
  fun_induction left ks ps generalizing bs with
  | case1 ks => simp [left, rise]
  | case2 ks rest ih =>
    cases ks with
    | nil =>
      have hdrop : bs.tail.drop (rise rest) = bs.drop (rise rest + 1) := List.drop_tail ..
      simpa [left, rise, hdrop] using ih bs.tail
    | cons k ks => simpa [left, rise] using ih bs
  | case3 ks text rest ih =>
    have hdrop : rise rest - 1 - ks.length = rise rest - (ks.length + 1) := by omega
    simpa [left, rise, hdrop] using ih bs
  | case4 ks p rest hup hname ih =>
    have hrise : rise (p :: rest) = rise rest := by
      cases p <;> simp_all [rise]
    have hleft : left (ks ++ bs) (p :: rest) = left (ks ++ bs) rest := by
      cases p <;> simp_all [left]
    rw [hrise, hleft, ih]

/-- A step up with no name to undo is undone by the next one. -/
theorem step_up_keeping {base : List Piece} (hbase : base = [] ∨ base = [.root]) (above : Nat) :
    step (keeping [] above ++ base) .up = keeping [] (above + 1) ++ base := by
  rcases Nat.mod_two_eq_zero_or_one above with h | h
  · have hsucc : (above + 1) % 2 = 1 := by omega
    rcases hbase with rfl | rfl <;> simp [keeping, h, hsucc, step]
  · have hsucc : (above + 1) % 2 = 0 := by omega
    simp [keeping, h, hsucc, step]

/-- The end of a walk from the root, or from nowhere. -/
theorem foldl_step {base : List Piece} (hbase : base = [] ∨ base = [.root]) {ps : List Piece}
    (hps : .root ∉ ps) (names : List String) (above : Nat) :
    ps.foldl step (keeping names above ++ base) =
      keeping (left names ps) (above + (rise ps - names.length)) ++ base := by
  induction ps generalizing names above with
  | nil => simp [left, rise]
  | cons p ps ih =>
    have ih := ih fun h => hps (List.mem_cons_of_mem p h)
    rw [List.foldl_cons]
    cases p with
    | root => exact absurd List.mem_cons_self hps
    | here => simpa [left, rise, step] using ih names above
    | name text =>
      have habove : rise ps - 1 - names.length = rise ps - (names.length + 1) := by omega
      simpa [left, rise, habove, keeping, step] using ih (text :: names) above
    | up =>
      cases names with
      | nil =>
        have habove : above + 1 + rise ps = above + (rise ps + 1) := by omega
        simpa [left, rise, step_up_keeping hbase, habove] using ih [] (above + 1)
      | cons name names => simpa [left, rise, keeping, step] using ih names above

/-! ### The steps of a text -/

/-- The steps between the slashes of a text. -/
def parts (cs : List Char) : List Piece := (cs.splitOnP isSlash).filterMap Piece.ofPart?

/-- A piece that stands between slashes and is read back from its text. -/
structure IsPart (p : Piece) : Prop where
  read : Piece.ofPart? p.text.toList = some p
  slash : ∀ c ∈ p.text.toList, isSlash c = false

theorem splitOnP_slash (a b : List Char) :
    (a ++ '/' :: b).splitOnP isSlash = a.splitOnP isSlash ++ b.splitOnP isSlash := by
  induction a with
  | nil => simp [List.splitOnP_cons_eq_if_modifyHead, isSlash]
  | cons c a ih =>
    rw [List.cons_append, List.splitOnP_cons_eq_if_modifyHead,
      List.splitOnP_cons_eq_if_modifyHead, ih]
    split
    · rfl
    · obtain ⟨first, rest, hparts⟩ := List.exists_cons_of_ne_nil (List.splitOnP_ne_nil isSlash a)
      simp [hparts]

theorem parts_slash (a b : List Char) : parts (a ++ '/' :: b) = parts a ++ parts b := by
  rw [parts, splitOnP_slash, List.filterMap_append]
  rfl

theorem isSlash_of_mem_splitOnP {cs part : List Char} (hpart : part ∈ cs.splitOnP isSlash) :
    ∀ c ∈ part, isSlash c = false := by
  induction cs generalizing part with
  | nil => simp_all
  | cons c cs ih =>
    obtain ⟨first, rest, hparts⟩ := List.exists_cons_of_ne_nil (List.splitOnP_ne_nil isSlash cs)
    rw [hparts] at ih
    rw [List.splitOnP_cons_eq_if_modifyHead, hparts] at hpart
    split at hpart
    · rcases List.mem_cons.1 hpart with rfl | hpart
      · exact nofun
      · exact ih hpart
    · rename_i hc
      rcases List.mem_cons.1 hpart with rfl | hpart
      · exact List.forall_mem_cons.2 ⟨by simpa using hc, ih List.mem_cons_self⟩
      · exact ih (List.mem_cons_of_mem first hpart)

theorem isPart_of_mem {cs : List Char} {p : Piece} (hp : p ∈ parts cs) : IsPart p := by
  obtain ⟨part, hpart, hread⟩ := List.mem_filterMap.1 hp
  have hslash := isSlash_of_mem_splitOnP hpart
  unfold Piece.ofPart? at hread
  split at hread
  · cases hread
  · cases hread
  · cases hread
    exact ⟨rfl, hslash⟩
  · rename_i hempty hdot hup
    cases hread
    refine ⟨?_, by simpa [Piece.text] using hslash⟩
    rw [Piece.text, String.toList_ofList, Piece.ofPart?]
    · exact hempty
    · exact hdot
    · exact hup

theorem IsPart.ne_root {p : Piece} (hp : IsPart p) : p ≠ .root := by
  rintro rfl
  exact absurd hp.read (by decide)

/-- The steps of a path are those between its slashes, behind the root or a lone dot that it
may start with. -/
theorem pieces_cases (path : String) :
    isAbsolute path = true ∧ pieces path = .root :: parts path.toList ∨
      isAbsolute path = false ∧
        (pieces path = parts path.toList ∨ pieces path = .here :: parts path.toList) := by
  unfold pieces isAbsolute parts
  cases hcs : path.toList with
  | nil => exact .inr ⟨rfl, .inl rfl⟩
  | cons c cs =>
    obtain ⟨first, rest, hparts⟩ := List.exists_cons_of_ne_nil (List.splitOnP_ne_nil isSlash cs)
    rw [List.splitOnP_cons_eq_if_modifyHead, hparts]
    cases hc : isSlash c with
    | true => exact .inl ⟨hc, rfl⟩
    | false =>
      refine .inr ⟨hc, ?_⟩
      simp only [Bool.false_eq_true, if_false, List.modifyHead_cons]
      split
      · rename_i heq
        cases heq
      · rename_i heq
        injection heq with hfirst hrest
        rw [hfirst, hrest]
        exact .inr rfl
      · exact .inl rfl

theorem pieces_absolute {path : String} (hpath : isAbsolute path = true) :
    pieces path = .root :: parts path.toList := by
  rcases pieces_cases path with ⟨-, h⟩ | ⟨h, -⟩
  · exact h
  · rw [hpath] at h
    cases h

/-! ### Texts of steps -/

theorem splitOnP_intercalate {p : Piece} {ps : List Piece} (hps : ∀ q ∈ p :: ps, IsPart q) :
    ("/".intercalate ((p :: ps).map Piece.text)).toList.splitOnP isSlash =
      (p :: ps).map (·.text.toList) := by
  have hone : ∀ q, IsPart q → q.text.toList.splitOnP isSlash = [q.text.toList] :=
    fun q hq => List.splitOnP_eq_singleton hq.slash
  induction ps generalizing p with
  | nil => simpa using hone p (hps p List.mem_cons_self)
  | cons q ps ih =>
    obtain ⟨hp, hps⟩ := List.forall_mem_cons.1 hps
    have hslash := splitOnP_slash p.text.toList ("/".intercalate ((q :: ps).map Piece.text)).toList
    rw [hone p hp, ih hps] at hslash
    rw [List.map_cons, List.map_cons, String.intercalate_cons_cons, String.toList_append,
      String.toList_append, List.append_assoc]
    exact hslash

theorem filterMap_ofPart? {ps : List Piece} (hps : ∀ p ∈ ps, IsPart p) :
    (ps.map (·.text.toList)).filterMap Piece.ofPart? = ps := by
  induction ps with
  | nil => rfl
  | cons p ps ih =>
    obtain ⟨hp, hps⟩ := List.forall_mem_cons.1 hps
    rw [List.map_cons, List.filterMap_cons_some hp.read, ih hps]

/-- The steps of a path from nowhere are read back from its text. -/
theorem pieces_intercalate {ps : List Piece} (hps : ∀ p ∈ ps, IsPart p) :
    pieces ("/".intercalate (ps.map Piece.text)) = ps := by
  cases ps with
  | nil => rfl
  | cons p ps =>
    have hp := (hps p List.mem_cons_self).read
    rw [pieces, splitOnP_intercalate hps, List.map_cons]
    split
    · rename_i heq
      injection heq with hfirst
      rw [hfirst] at hp
      cases hp
    · rename_i heq
      injection heq with hfirst
      rw [hfirst] at hp
      cases hp
    · exact filterMap_ofPart? hps

theorem isAbsolute_intercalate {ps : List Piece} (hps : ∀ p ∈ ps, IsPart p) :
    isAbsolute ("/".intercalate (ps.map Piece.text)) = false := by
  rcases pieces_cases ("/".intercalate (ps.map Piece.text)) with ⟨-, h⟩ | ⟨h, -⟩
  · rw [pieces_intercalate hps] at h
    exact absurd rfl (hps .root (h ▸ List.mem_cons_self)).ne_root
  · exact h

/-- The steps of a path from the root are read back from its text. -/
theorem pieces_ofPieces_root {ps : List Piece} (hps : ∀ p ∈ ps, IsPart p) :
    pieces (ofPieces (.root :: ps)) = .root :: ps := by
  have htext : (ofPieces (.root :: ps)).toList =
      [] ++ '/' :: ("/".intercalate (ps.map Piece.text)).toList := by
    rw [ofPieces, String.toList_append]
    rfl
  have hparts : parts ("/".intercalate (ps.map Piece.text)).toList = ps := by
    cases ps with
    | nil => rfl
    | cons p ps => rw [parts, splitOnP_intercalate hps, filterMap_ofPart? hps]
  rw [pieces_absolute (by rw [isAbsolute, htext]; rfl), htext, parts_slash, hparts]
  rfl

theorem ofPieces_relative {ps : List Piece} (hps : ∀ p ∈ ps, IsPart p) :
    ofPieces ps = "/".intercalate (ps.map Piece.text) := by
  cases ps with
  | nil => rfl
  | cons p ps =>
    have hp := (hps p List.mem_cons_self).ne_root
    cases p <;> first | rfl | exact absurd rfl hp

/-! ### What is left of a way -/

/-- What is left of the steps of a way without root. -/
def outcome (ps : List Piece) : List Piece := (keeping (left [] ps) (rise ps)).reverse

theorem isPart_up : IsPart .up := ⟨by decide, by simp [Piece.text, isSlash]⟩

theorem mem_left {text : String} {ks : List String} {ps : List Piece} (h : text ∈ left ks ps) :
    text ∈ ks ∨ .name text ∈ ps := by
  fun_induction left ks ps with
  | case1 ks => exact .inl h
  | case2 ks rest ih => exact (ih h).imp List.mem_of_mem_tail (List.mem_cons_of_mem _)
  | case3 ks first rest ih =>
    rcases ih h with h | h
    · rcases List.mem_cons.1 h with rfl | h
      · exact .inr List.mem_cons_self
      · exact .inl h
    · exact .inr (List.mem_cons_of_mem _ h)
  | case4 ks p rest hup hname ih => exact (ih h).imp_right (List.mem_cons_of_mem _)

theorem isPart_outcome {ps : List Piece} (hps : ∀ p ∈ ps, IsPart p) :
    ∀ p ∈ outcome ps, IsPart p := by
  intro p hp
  rcases List.mem_append.1 (List.mem_reverse.1 hp) with hp | hp
  · obtain ⟨text, htext, rfl⟩ := List.mem_map.1 hp
    exact hps _ ((mem_left htext).resolve_left List.not_mem_nil)
  · rw [List.eq_of_mem_replicate hp]
    exact isPart_up

theorem left_names (ks names : List String) (ps : List Piece) :
    left ks (names.map .name ++ ps) = left (names.reverse ++ ks) ps := by
  induction names generalizing ks with
  | nil => rfl
  | cons name names ih => simpa [left] using ih (name :: ks)

theorem rise_names (names : List String) (ps : List Piece) :
    rise (names.map .name ++ ps) = rise ps - names.length := by
  induction names with
  | nil => rfl
  | cons name names ih =>
    rw [List.map_cons, List.cons_append, rise, ih, List.length_cons]
    omega

theorem left_ups (n : Nat) (ps : List Piece) :
    left [] (List.replicate n .up ++ ps) = left [] ps := by
  induction n with
  | zero => rfl
  | succ n ih => simpa [List.replicate_succ, left] using ih

theorem rise_ups (n : Nat) (ps : List Piece) :
    rise (List.replicate n .up ++ ps) = n + rise ps := by
  induction n with
  | zero => simp
  | succ n ih =>
    rw [List.replicate_succ, List.cons_append, rise, ih]
    omega

theorem outcome_eq (ps : List Piece) :
    outcome ps = List.replicate (rise ps % 2) .up ++ ((left [] ps).reverse.map .name ++ []) := by
  simp [outcome, keeping]

theorem left_outcome (ps : List Piece) : left [] (outcome ps) = left [] ps := by
  rw [outcome_eq, left_ups, left_names]
  simp [left]

theorem rise_outcome (ps : List Piece) : rise (outcome ps) = rise ps % 2 := by
  rw [outcome_eq, rise_ups, rise_names]
  simp [rise]

theorem outcome_outcome (ps : List Piece) : outcome (outcome ps) = outcome ps := by
  rw [outcome, left_outcome, rise_outcome, outcome, keeping, keeping, Nat.mod_mod]

/-! ### Normal forms -/

theorem normalize_root {path : String} {ps : List Piece} (hpath : pieces path = .root :: ps)
    (hps : ∀ p ∈ ps, IsPart p) : normalize path = ofPieces (.root :: outcome ps) := by
  have hwalk := @foldl_step _ (.inr rfl) ps (fun h => (hps _ h).ne_root rfl) [] 0
  have hstart : keeping [] 0 ++ [.root] = step [] .root := rfl
  rw [hstart, Nat.zero_add, List.length_nil, Nat.sub_zero] at hwalk
  rw [normalize, hpath, List.foldl_cons, hwalk, List.reverse_append, outcome]
  rfl

theorem normalize_relative {path : String} {ps : List Piece}
    (hpath : pieces path = ps ∨ pieces path = .here :: ps) (hps : ∀ p ∈ ps, IsPart p) :
    normalize path = ofPieces (outcome ps) := by
  have hwalk := @foldl_step _ (.inl rfl) ps (fun h => (hps _ h).ne_root rfl) [] 0
  have hstart : keeping [] 0 ++ [] = [] := rfl
  rw [hstart, Nat.zero_add, List.length_nil, Nat.sub_zero, List.append_nil] at hwalk
  have hpieces : (pieces path).foldl step [] = ps.foldl step [] := by
    rcases hpath with h | h <;> rw [h]
    rfl
  rw [normalize, hpieces, hwalk, outcome]

/-- A relative path in normal form: its steps, and that it is relative. -/
theorem normalize_steps {path : String} (hpath : isAbsolute path = false) :
    isAbsolute (normalize path) = false ∧
      parts (normalize path).toList = outcome (parts path.toList) ∧
      pieces (normalize path) = outcome (parts path.toList) := by
  have hps : ∀ p ∈ parts path.toList, IsPart p := fun p hp => isPart_of_mem hp
  have houtcome := isPart_outcome hps
  have hpieces := (pieces_cases path).resolve_left (fun h => by rw [hpath] at h; cases h.1)
  rw [normalize_relative hpieces.2 hps, ofPieces_relative houtcome]
  refine ⟨isAbsolute_intercalate houtcome, ?_, pieces_intercalate houtcome⟩
  cases hps' : outcome (parts path.toList) with
  | nil => rfl
  | cons p ps =>
    rw [parts, splitOnP_intercalate (hps' ▸ houtcome), filterMap_ofPart? (hps' ▸ houtcome)]

theorem normalize_normalize (path : String) : normalize (normalize path) = normalize path := by
  have hps : ∀ p ∈ parts path.toList, IsPart p := fun p hp => isPart_of_mem hp
  have houtcome := isPart_outcome hps
  cases hpath : isAbsolute path with
  | true =>
    rw [normalize_root (pieces_absolute hpath) hps,
      normalize_root (pieces_ofPieces_root houtcome) houtcome, outcome_outcome]
  | false =>
    obtain ⟨-, -, hpieces⟩ := normalize_steps hpath
    have hrelative := (pieces_cases path).resolve_left (fun h => by rw [hpath] at h; cases h.1)
    rw [normalize_relative (.inl hpieces) houtcome, normalize_relative hrelative.2 hps,
      outcome_outcome]

/-! ### Joining -/

theorem pieces_join {dir path : String} {ps : List Piece} (hdir : pieces dir = .root :: ps)
    (hpath : isAbsolute path = false) :
    pieces (join dir path) = .root :: (ps ++ parts path.toList) := by
  have habs : isAbsolute dir = true ∧ parts dir.toList = ps := by
    rcases pieces_cases dir with ⟨h, hpieces⟩ | ⟨-, hpieces | hpieces⟩
    · rw [hdir] at hpieces
      injection hpieces with _ hps
      exact ⟨h, hps.symm⟩
    · have hroot := isPart_of_mem (hpieces ▸ hdir ▸ List.mem_cons_self (a := Piece.root))
      exact absurd rfl hroot.ne_root
    · rw [hdir] at hpieces
      cases hpieces
  obtain ⟨habs, rfl⟩ := habs
  obtain ⟨c, cs, hcs⟩ : ∃ c cs, dir.toList = c :: cs := by
    cases hcs : dir.toList with
    | nil =>
      rw [isAbsolute, hcs] at habs
      cases habs
    | cons c cs => exact ⟨c, cs, rfl⟩
  have hempty : dir.isEmpty = false := by
    rw [Bool.eq_false_iff]
    intro h
    rw [String.isEmpty_iff.1 h] at hcs
    cases hcs
  -- Whatever is put behind a directory starts as the directory does.
  have hbehind : ∀ text : String, isAbsolute (dir ++ text) = true := by
    intro text
    rw [isAbsolute, hcs] at habs
    rw [isAbsolute, String.toList_append, hcs]
    exact habs
  rw [join, hpath, hempty, Bool.false_or, if_neg Bool.false_ne_true]
  split
  · rename_i hlast
    obtain ⟨c, hc, hslash⟩ := (Option.any_eq_true _ _).1 hlast
    obtain ⟨front, hfront⟩ := List.getLast?_eq_some_iff.1 hc
    obtain rfl : c = '/' := by simpa [isSlash] using hslash
    have hparts := parts_slash front []
    rw [pieces_absolute (hbehind _), String.toList_append, hfront, List.append_assoc, hparts]
    exact congrArg _ ((parts_slash front path.toList).trans (by simp [parts, Piece.ofPart?]))
  · rw [String.append_assoc, pieces_absolute (hbehind _), String.toList_append,
      String.toList_append]
    exact congrArg _ (parts_slash dir.toList path.toList)

theorem length_of_keeping {names names' : List String} {above above' : Nat}
    (h : keeping names above = keeping names' above') : names.length = names'.length := by
  have hcount : ∀ (names : List String) above,
      (keeping names above).countP (· != .up) = names.length := fun names above => by
    have hnames : (names.map Piece.name).countP (· != .up) = (names.map Piece.name).length :=
      List.countP_eq_length.2 fun p hp => by
        obtain ⟨text, -, rfl⟩ := List.mem_map.1 hp
        rfl
    have hups : (List.replicate (above % 2) Piece.up).countP (· != .up) = 0 :=
      List.countP_eq_zero.2 fun p hp => by simp [List.eq_of_mem_replicate hp]
    rw [keeping, List.countP_append, hnames, hups, List.length_map, Nat.add_zero]
  rw [← hcount names above, h, hcount]

/-- What is left of a way that starts with names, by what is left of the rest of it. -/
theorem outcome_names (names : List String) (ps : List Piece) :
    outcome (names.map .name ++ ps) =
      (keeping (left [] ps ++ names.reverse.drop (rise ps)) (rise ps - names.length)).reverse := by
  have hleft := left_append [] names.reverse ps
  rw [List.nil_append, List.length_nil, Nat.sub_zero] at hleft
  rw [outcome, left_names, rise_names, List.append_nil, hleft]

/-- The steps of a path that was joined to a directory, without detours. -/
theorem normalize_join_eq {dir path : String} {names : List String}
    (hdir : pieces dir = .root :: names.map .name) (hpath : isAbsolute path = false) :
    normalize (join dir path) = ofPieces (.root :: outcome (names.map .name ++ parts path.toList)) ∧
      ∀ p ∈ outcome (names.map .name ++ parts path.toList), IsPart p := by
  have hjoin := pieces_join hdir hpath
  have hps : ∀ p ∈ names.map Piece.name ++ parts path.toList, IsPart p := by
    intro p hp
    rcases pieces_cases (join dir path) with ⟨-, h⟩ | ⟨-, h | h⟩
    · rw [hjoin] at h
      injection h with _ h
      exact isPart_of_mem (h ▸ hp)
    · exact absurd rfl (isPart_of_mem (h ▸ hjoin ▸ List.mem_cons_self (a := Piece.root))).ne_root
    · rw [hjoin] at h
      cases h
  exact ⟨normalize_root hjoin hps, isPart_outcome hps⟩

theorem rise_pieces {path : String} (hpath : isAbsolute path = false) :
    rise (pieces path) = rise (parts path.toList) := by
  rcases pieces_cases path with ⟨h, -⟩ | ⟨-, h | h⟩
  · rw [hpath] at h
    cases h
  · rw [h]
  · rw [h, rise]
    · exact nofun
    · exact nofun

/-- Normalizing twice changes nothing.  A relative path that is joined to a directory, which
has as many steps as the path has steps up, may be normalized before, exactly when the path
rises above its start at most once. -/
theorem normalize_join (path : String) :
    normalize (normalize path) = normalize path ∧
      ∀ (dir : String) (names : List String), pieces dir = .root :: names.map .name →
        isAbsolute path = false → (pieces path).count .up ≤ (pieces dir).length →
        (normalize (join dir path) = normalize (join dir (normalize path)) ↔
          rise (pieces path) ≤ 1) := by
  refine ⟨normalize_normalize path, fun dir names hdir hpath hups => ?_⟩
  have hbound := Nat.le_trans (rise_le_count _) hups
  obtain ⟨habs, hparts, -⟩ := normalize_steps hpath
  obtain ⟨hat, hfirst⟩ := normalize_join_eq hdir hpath
  obtain ⟨hbehind, hsecond⟩ := normalize_join_eq hdir habs
  rw [hparts] at hbehind hsecond
  rw [hdir, List.length_cons, List.length_map, rise_pieces hpath] at hbound
  rw [hat, hbehind, rise_pieces hpath]
  constructor
  · intro h
    have hpieces := congrArg pieces h
    rw [pieces_ofPieces_root hfirst, pieces_ofPieces_root hsecond, List.cons_inj_right,
      outcome_names, outcome_names, List.reverse_inj, left_outcome, rise_outcome] at hpieces
    have hlength := length_of_keeping hpieces
    simp only [List.length_append, List.length_drop, List.length_reverse] at hlength
    omega
  · intro h
    have hmod : rise (parts path.toList) % 2 = rise (parts path.toList) :=
      Nat.mod_eq_of_lt (by omega)
    rw [outcome_names, outcome_names, left_outcome, rise_outcome, hmod]

/-- Two steps up in front of a relative path undo each other. -/
theorem normalize_join_up_up :
    pieces "/a/b" = .root :: ["a", "b"].map .name ∧ isAbsolute "../../x" = false ∧
      (pieces "../../x").count .up ≤ (pieces "/a/b").length ∧
      normalize (join "/a/b" "../../x") ≠ normalize (join "/a/b" (normalize "../../x")) := by
  have hdir : pieces "/a/b" = .root :: ["a", "b"].map .name := by decide
  have hpath : isAbsolute "../../x" = false := by decide
  have hups : (pieces "../../x").count .up ≤ (pieces "/a/b").length := by decide
  have hrise : ¬ rise (pieces "../../x") ≤ 1 := by decide
  exact ⟨hdir, hpath, hups, fun h =>
    hrise (((normalize_join "../../x").2 "/a/b" ["a", "b"] hdir hpath hups).1 h)⟩

end PhpCheck.Path
