import PhpCheck.Grammar.File
import PhpCheck.Proofs.Grammar.Reading.Statements
import PhpCheck.Session.Run

/-!
Whole files, read from their tokens.

Code embedded in quoted text begins behind the quoted text it stands in, so the offset at which
it begins grows from one level to the next and the size of the text bounds the levels
(`embeddedCode_reads`).  What follows for the tree of a text: the spans of all its nodes fit
the text (`parse_spans_fit`), and no bound ends the reading (`reading_progress`).

Each error node is accounted for by a fault of its own (`parse_fair`), so a text without faults
has a tree without error nodes, and reading a source never has to refuse a tree for its error
nodes alone (`faults_cover_errorNodes`).
-/

namespace PhpCheck

namespace Grammar

section

variable {G : Ground} {atToken : Bool} {w : Nat}

/-! ### Nesting -/

/-- Each nesting level reads fairly if the code embedded in quoted text is read so. -/
theorem descend_reads {code : Nat → Nat → Parse Node} (hcode : ∀ {atToken w start stop},
    (G.known → G.lo < start ∧ G.src.IsPlace start ∧ G.src.IsPlace stop ∧ start ≤ stop) →
      Reads G atToken false w (code start stop)) (depth : Nat) :
    (descend code depth).Reads G := by
  induction depth with
  | zero =>
    refine ⟨fun min => ?_, ?_, fun hplaces => hcode hplaces⟩
    · exact .currentSpan fun span hspan => .throw hspan nofun
    · exact .currentSpan fun span hspan => .throw hspan nofun
  | succ depth ih =>
    exact ⟨fun min => binary_reads ih min, statement_reads ih, fun hplaces => hcode hplaces⟩

theorem wholeExpression_reads {below : Below} (hbelow : below.Reads G) :
    Reads G atToken true w (wholeExpression below) := by
  unfold wholeExpression
  refine .took (hbelow.expression _) fun value hvalue =>
    .current (fun s hs => ?_) fun s tok hs htok => ?_
  · rw [hs]
    exact .pure hvalue (by simp)
  · rw [hs]
    exact .throw (fits_tokenSpan htok) nofun

/-! ### Embedded code -/

/-- The ground on which code between two places of a text is read. -/
def Ground.within (G : Ground) (start stop : Nat) : Ground :=
  { src := G.src.truncate stop, lo := start, known := G.known, whole := fun _ => rfl }

theorem Ground.le_size {o : Nat} (hG : G.known) (ho : G.src.IsPlace o) : o ≤ G.src.size := by
  rw [G.whole hG] at ho ⊢
  exact ho.le_size

/-- Up to where the text is cut off, it has the places of the whole text. -/
theorem Ground.isPlace_truncate {stop o : Nat} (hG : G.known) (hstop : G.src.IsPlace stop) :
    (G.src.truncate stop).IsPlace o ↔ G.src.IsPlace o ∧ o ≤ stop := by
  rw [G.whole hG] at hstop
  have hiff := hstop.truncate_iff (a := o)
  rwa [← G.whole hG] at hiff

/-- What fits the text that is cut off fits the whole text. -/
theorem Ground.fits_of_truncate {stop : Nat} {span : Span} (hG : G.known)
    (hstop : G.src.IsPlace stop) (hspan : span.Fits (G.src.truncate stop)) : span.Fits G.src := by
  rw [G.whole hG] at hstop ⊢
  refine Span.Fits.of_truncate hstop ?_
  rwa [← G.whole hG]

/-- The state in front of embedded code. -/
theorem Ground.stands_within {start stop : Nat} (hplaces : G.known →
    G.src.IsPlace start ∧ G.src.IsPlace stop ∧ start ≤ stop) :
    (State.ofLexemes (tokenizeCode (G.src.truncate stop) start)).Stands (G.within start stop) := by
  refine stands_settle (fun _ => Source.isPlace_zero _)
    (fun _ t ht => absurd ht (Option.not_mem_none t))
    (fun _ e he => absurd he List.not_mem_nil) fun hG l hl => ?_
  obtain ⟨hstart, hstop, hle⟩ := hplaces hG
  exact placed_of_mem_tokenizeCode ((G.isPlace_truncate hG hstop).2 ⟨hstart, hle⟩) hl

/-- The faults of embedded code are added to those of the text around it, and account for its
error nodes. -/
theorem fair_noted {α : Type} [Result α] {a : α} {s : State} {errors : List SyntaxError}
    (hs : s.Stands G) (herrors : G.known → ∀ e ∈ errors, e.fault ≠ .stalled)
    (ha : Result.Fits G a) (hw : Result.errors a ≤ errors.length) :
    Fair G s false w (.ok a { s with errors := s.errors ++ errors }) := by
  have hstands : State.Stands G { s with errors := s.errors ++ errors } :=
    ⟨hs.settled, hs.current, hs.doc, hs.prevEnd, hs.rest, fun hG =>
      List.forall_mem_append.2 ⟨hs.errors hG, herrors hG⟩⟩
  have hlength : (s.errors ++ errors).length = s.errors.length + errors.length :=
    List.length_append
  have hle : s.errors.length ≤ (s.errors ++ errors).length := hlength ▸ Nat.le_add_right _ _
  refine .ok ⟨hstands, List.suffix_refl _, hle, Nat.add_le_add_right hle _⟩ ha nofun ?_
  show _ ≤ (s.errors ++ errors).length + w
  omega

theorem embedded_reads {below : Below} {start stop : Nat}
    (hbelow : below.Reads (G.within start stop))
    (hplaces : G.known → G.src.IsPlace start ∧ G.src.IsPlace stop ∧ start ≤ stop) :
    Reads G atToken false w (embedded below start stop) := by
  have hreads : Reads (G.within start stop) false true 0 (wholeExpression below) :=
    wholeExpression_reads hbelow
  intro s hs _
  have hinner := hreads _ (G.stands_within hplaces) nofun
  have hread : (MonadReader.read : Parse Source) G.src s = .ok G.src s := rfl
  rw [embedded, bind_ok hread]
  cases hr : wholeExpression below (G.src.truncate stop)
      (State.ofLexemes (tokenizeCode (G.src.truncate stop) start)) with
  | ok value after =>
    rw [show (G.within start stop).src = G.src.truncate stop from rfl, hr] at hinner
    cases hinner with
    | ok step fits consumed errors =>
      refine fair_noted hs step.stands.errors (fun hG n hn => ?_) (by omega)
      exact G.fits_of_truncate hG (hplaces hG).2.1 (fits hG n hn)
  | error e after =>
    rw [show (G.within start stop).src = G.src.truncate stop from rfl, hr] at hinner
    cases hinner with
    | error step fits fault =>
      have herrors : G.known → ∀ e' ∈ after.errors ++ [e], e'.fault ≠ .stalled := fun hG =>
        List.forall_mem_append.2 ⟨step.stands.errors hG, List.forall_mem_singleton.2 fault⟩
      have hspan : Result.Fits G e.span := fun hG =>
        G.fits_of_truncate hG (hplaces hG).2.1 (fits hG)
      have hrun : Fair G s false w (.ok (Node.ofKind .error e.span [])
          { s with errors := s.errors ++ (after.errors ++ [e]) }) :=
        fair_noted hs herrors (fits_ofKind.2 ⟨hspan, fits_nil⟩)
          (by rw [errors_node]; simp [Node.ofKind])
      rwa [← List.append_assoc] at hrun

theorem embeddedCode_reads {levels start stop : Nat}
    (hlevels : G.known → G.src.size ≤ G.lo + levels)
    (hplaces : G.known → G.lo < start ∧ G.src.IsPlace start ∧ G.src.IsPlace stop ∧ start ≤ stop) :
    Reads G atToken false w (embeddedCode levels start stop) := by
  induction levels generalizing G start stop atToken w with
  | zero =>
    have hunknown : ¬G.known := fun hG => by
      have hle := hlevels hG
      have hlt := (hplaces hG).1
      have hstart := G.le_size hG (hplaces hG).2.1
      omega
    exact fun s hs _ => fair_noted hs (fun hG => absurd hG hunknown)
      (fits_ofKind.2 ⟨fun hG => absurd hG hunknown, fits_nil⟩)
        (by rw [errors_node]; simp [Node.ofKind])
  | succ levels ih =>
    refine embedded_reads (descend_reads (fun hplaces' => ih (fun hG => ?_) hplaces') _)
      fun hG => (hplaces hG).2
    obtain ⟨hlt, -, hstop, -⟩ := hplaces hG
    have hsize : (G.src.truncate stop).size = stop := by
      rw [G.whole hG] at hstop ⊢
      exact hstop.size_truncate
    have hle := hlevels hG
    have hstop' := G.le_size hG hstop
    show (G.src.truncate stop).size ≤ start + levels
    omega

end

/-! ### Progress -/

/-- A text of whose tokens nothing is known. -/
def Ground.unknown (src : Source) : Ground := { src, lo := 0, known := False, whole := nofun }

section

variable {src : Source} {s : State}

theorem State.stands_unknown (hs : s.current.isSome = true) : s.Stands (.unknown src) :=
  have hunknown : ¬(Ground.unknown src).known := not_false
  ⟨fun h => absurd (h ▸ hs) nofun, (absurd · hunknown), (absurd · hunknown), (absurd · hunknown),
    (absurd · hunknown), (absurd · hunknown)⟩

/-- The grammar from any nesting level on, over any tokens. -/
theorem descend_unknown (levels depth : Nat) :
    (descend (embeddedCode levels) depth).Reads (.unknown src) :=
  descend_reads (fun hplaces => embeddedCode_reads (absurd · not_false) hplaces) depth

variable {α : Type} [Result α] {p : Parse α} {w : Nat} {a : α} {s' : State} {e : SyntaxError}

/-- A production that owes a token has consumed one when it succeeds. -/
theorem Reads.consumed [Counted α] (hp : Reads (.unknown src) true true w p)
    (hs : s.current.isSome = true)
    (hr : p src s = .ok a s') : s.Consumed s' := by
  have hfair : Fair (.unknown src) s true w (p src s) := hp s (State.stands_unknown hs) fun _ => hs
  rw [hr] at hfair
  cases hfair with
  | ok step fits consumed errors => exact consumed_of_suffix step.pending (consumed rfl (counted a))

/-- Skipping tokens after a production has failed consumes one in any case, if skipping
`moves` from the token at which the production began; if not, that token may be current still. -/
theorem Reads.consumed_after (hp : Reads (.unknown src) true true w p) {t : Token}
    (ht : s.current = some t) (hr : p src s = .error e s') {skip : Parse Unit} (moves : Prop)
    (hskip : ∀ s' : State, s'.Stands (.unknown src) → ∃ s'', skip src s' = .ok () s'' ∧
      Step (.unknown src) s' s'' ∧
        (s'.current = some t → moves → s''.pending.length < s'.pending.length)) :
    ∃ s'', (note e >>= fun _ => skip) src s' = .ok () s'' ∧
      (s.Consumed s'' ∨ ¬moves ∧ s''.current = some t) := by
  have hfair : Fair (.unknown src) s true w (p src s) :=
    hp s (State.stands_unknown (ht ▸ rfl)) fun _ => ht ▸ rfl
  rw [hr] at hfair
  cases hfair with
  | error step fits fault =>
    obtain ⟨s'', hrun, hstep, hlt⟩ := hskip _ (step.stands.noted fault)
    have hle := step.pending.length_le
    have hle' := hstep.pending.length_le
    have hnoted : s'.errors.length ≤ (s'.errors ++ [e]).length :=
      List.length_append ▸ Nat.le_add_right _ _
    have hwhole : Step (.unknown src) s s'' := ⟨hstep.stands, hstep.pending.trans step.pending,
      Nat.le_trans step.errors (Nat.le_trans hnoted hstep.errors),
      Nat.le_trans step.faults (Nat.le_trans (Nat.add_le_add_right hnoted _) hstep.faults)⟩
    refine ⟨s'', hrun, ?_⟩
    rcases hwhole.consumed_or_same ht with hless | hsame
    · exact .inl (consumed_of_suffix hwhole.pending hless)
    by_cases hmoves : moves
    · refine .inl (consumed_of_suffix hwhole.pending ?_)
      rcases step.consumed_or_same ht with hless | hsame
      · exact Nat.lt_of_le_of_lt hle' hless
      · exact Nat.lt_of_lt_of_le (hlt hsame hmoves) hle
    · exact .inr ⟨hmoves, hsame⟩

end

end Grammar

/-! ### Whole texts -/

section

variable (text : String)

/-- The ground of a whole text. -/
def Grammar.Ground.ofText : Grammar.Ground :=
  { src := .ofString text, lo := 0, known := True, whole := fun _ => rfl }

open Grammar in
/-- What is said of productions, said of a file. -/
theorem parse_fair : let src := Source.ofString text
    (∀ n ∈ (parse src).1.walk, n.span.Fits src) ∧
      (parse src).1.errorNodes.length ≤ (parse src).2.length ∧
        ∀ e ∈ (parse src).2, e.fault ≠ .stalled := by
  intro src
  let G := Ground.ofText text
  have hlevels : G.known → G.src.size ≤ G.lo + src.size := fun _ => Nat.le_add_left _ _
  have htop : (top src).Reads G := descend_reads (embeddedCode_reads hlevels) _
  have hfile : Reads G false false 0 (statementsUntil (top src) []) := statementsUntil_reads htop []
  have hstart : (State.ofLexemes (tokenize src)).Stands G :=
    stands_settle (fun _ => Source.isPlace_zero _) (fun _ t ht => absurd ht (Option.not_mem_none t))
      (fun _ e he => absurd he List.not_mem_nil) fun _ l hl => placed_of_mem_tokenize hl
  have hspan : Result.Fits G (src.span 0 src.size) := fun _ =>
    Source.span_fits (Source.isPlace_zero _) (Source.isPlace_size _) (Nat.zero_le _)
  have hrun := hfile _ hstart nofun
  rw [show G.src = src from rfl] at hrun
  rw [parse]
  cases hr : statementsUntil (top src) [] src (State.ofLexemes (tokenize src)) with
  | ok statements s =>
    rw [hr] at hrun
    cases hrun with
    | ok step fits consumed errors =>
      refine ⟨(fits_ofKind (G := G)).2 ⟨hspan, fits⟩ trivial, ?_, step.stands.errors trivial⟩
      have hroot := errors_ofKind
        (by nofun : NodeKind.sourceFile ≠ .error) (src.span 0 src.size) statements
      exact hroot.trans_le (Nat.le_trans (Nat.le_add_left _ _) errors)
  | error e s =>
    rw [hr] at hrun
    cases hrun with
    | error step fits fault =>
      refine ⟨(fits_ofKind (G := G)).2 ⟨hspan, fits_nil⟩ trivial, ?_, ?_⟩
      · have hroot := errors_ofKind
          (by nofun : NodeKind.sourceFile ≠ .error) (src.span 0 src.size) []
        exact hroot.trans_le (Nat.zero_le _)
      · exact List.forall_mem_append.2
          ⟨step.stands.errors trivial, List.forall_mem_singleton.2 fault⟩

/-- Every node of a tree goes from one character boundary of the text to another, with the lines
and columns that the text has there. -/
theorem parse_spans_fit : ∀ n ∈ (parse (.ofString text)).1.walk,
    n.span.Fits (.ofString text) ∧ n.span.stop ≤ (Source.ofString text).size := fun n hn =>
  have hfits := (parse_fair text).1 n hn
  ⟨hfits, hfits.stop.le_size⟩

/-- The error node of a word that is left over in code within quoted text. -/
theorem parse_spans_fit_embedded :
    let src := Source.ofString "é<?php\n\"\x7b$a b\x7d\";\n\x7d"
    ∃ n ∈ (parse src).1.walk, n.kind = .error ∧ n.span = ⟨13, 14, 2, 6, 2, 7⟩ ∧
      n.span.Fits src ∧ n.span.stop ≤ src.size := by
  intro src
  have hfind : ((parse src).1.walk.find? (·.span.start == 13)).map (fun n => (n.kind, n.span)) =
      some (.error, ⟨13, 14, 2, 6, 2, 7⟩) := by decide +kernel
  obtain ⟨n, hn, heq⟩ := Option.map_eq_some_iff.1 hfind
  obtain ⟨hkind, hspan⟩ := Prod.mk.inj heq
  have hmem := List.mem_of_find?_eq_some hn
  exact ⟨n, hmem, hkind, hspan, parse_spans_fit _ n hmem⟩

open Grammar in
/-- From any state at a token, a statement, an expression and a class member consume a token when
they succeed, and so they do together with the skipping when they fail, but for a class member
at the brace that closes the class.  In the reading of a text no bound is ever reached: not that
on the number of tokens, and none on repetition or on quoted text within quoted text. -/
theorem reading_progress :
    (∀ (src : Source) (levels depth : Nat) (s : State) (t : Token), s.current = some t →
      let below := descend (embeddedCode levels) depth
      (∀ n s', below .statement src s = .ok n s' → s.Consumed s') ∧
      (∀ min n s', below (.expression min) src s = .ok n s' → s.Consumed s') ∧
      (∀ member s', classMember below src s = .ok member s' → s.Consumed s') ∧
      (∀ e s', below .statement src s = .error e s' →
        ∃ s'', (do note e; synchronize : Parse Unit) src s' = .ok () s'' ∧ s.Consumed s'') ∧
      (∀ e s', classMember below src s = .error e s' →
        ∃ s'', (do note e; synchronizeMember : Parse Unit) src s' = .ok () s'' ∧
          (s.Consumed s'' ∨ t.kind = .rBrace ∧ s''.current = some t))) ∧
    ∀ text : String, let src := Source.ofString text
      (∀ fuel, text.toList.length ≤ fuel →
        Scanner.takeUpTo src fuel (Scanner.ofSource src) = tokenize src) ∧
      ∀ e ∈ (parse src).2, e.fault ≠ .stalled := by
  refine ⟨fun src levels depth s t ht => ?_, fun text =>
    ⟨fun fuel hfuel => ?_, (parse_fair text).2.2⟩⟩
  · intro below
    have hbelow : below.Reads (.unknown src) := descend_unknown levels depth
    have hs : s.current.isSome = true := ht ▸ rfl
    have hmember : Reads (.unknown src) true true 0 (classMember below) := classMember_reads hbelow
    have hstatement : Reads (.unknown src) true true 0 (below .statement) := hbelow.statement
    refine ⟨fun n s' hr => hstatement.consumed hs hr, fun min n s' hr => ?_,
      fun member s' hr => hmember.consumed hs hr, fun e s' hr => ?_, fun e s' hr => ?_⟩
    · have hexpression : Reads (.unknown src) true true 0 (below (.expression min)) :=
        hbelow.expression min
      exact hexpression.consumed hs hr
    · obtain ⟨s'', hrun, hconsumed⟩ := hstatement.consumed_after ht hr True fun s' hs' => by
        obtain ⟨s'', hrun, hstep, hlt⟩ := synchronize_ok src hs'
        exact ⟨s'', hrun, hstep, fun ht' _ => hlt (ht' ▸ rfl)⟩
      exact ⟨s'', hrun, hconsumed.resolve_right fun h => h.1 trivial⟩
    · obtain ⟨s'', hrun, hconsumed⟩ := hmember.consumed_after ht hr (t.kind ≠ .rBrace)
        fun s' hs' => by
          obtain ⟨s'', hrun, hstep, hlt⟩ := synchronizeMember_ok src hs'
          exact ⟨s'', hrun, hstep, fun ht' hkind => hlt t ht' hkind⟩
      exact ⟨s'', hrun, hconsumed.imp_right fun h => ⟨not_not.1 h.1, h.2⟩⟩
  · exact Scanner.takeUpTo_eq_all hfuel

/-- The state in which a run has failed. -/
def failedIn {ε σ α : Type} : EStateM.Result ε σ α → Option σ
  | .ok _ _ => none
  | .error _ s => some s

open Grammar in
/-- A brace that closes nothing is not read, but skipped. -/
theorem reading_progress_stray :
    let src := Source.ofString "\x7d;"
    let s := State.ofLexemes (tokenizeCode src 0)
    ∃ t, s.current = some t ∧ t.kind = .rBrace ∧
      ∃ e s', descend (embeddedCode 0) 1 .statement src s = .error e s' ∧ s'.current = some t ∧
        ∃ s'', (do note e; synchronize : Parse Unit) src s' = .ok () s'' ∧ s.Consumed s'' := by
  intro src s
  obtain ⟨t, ht⟩ : ∃ t, s.current = some t := Option.isSome_iff_exists.1 (by decide +kernel)
  have hkind : s.current.map (·.kind) = some .rBrace := by decide +kernel
  have hfails : (failedIn (descend (embeddedCode 0) 1 .statement src s)).bind (·.current) =
      s.current := by decide +kernel
  rw [ht] at hkind hfails
  refine ⟨t, ht, Option.some.inj hkind, ?_⟩
  cases hr : descend (embeddedCode 0) 1 .statement src s with
  | ok n s' =>
    rw [hr] at hfails
    cases hfails
  | error e s' =>
    rw [hr] at hfails
    exact ⟨e, s', rfl, hfails, (reading_progress.1 src 0 1 s t ht).2.2.2.1 e s' hr⟩

end

namespace Node

theorem hasError_eq_false_iff {n : Node} : n.hasError = false ↔ n.errorNodes = [] := by
  rw [hasError, errorNodes, List.any_eq_false, List.filter_eq_nil_iff]

end Node

theorem errorNodes_eq_nil {text : String} (hfaults : (parse (.ofString text)).2 = []) :
    (parse (.ofString text)).1.errorNodes = [] := by
  have hle := (parse_fair text).2.1
  rw [hfaults] at hle
  exact List.length_eq_zero_iff.1 (Nat.le_zero.1 hle)

/-- The findings of a text that cannot be read. -/
def syntaxFindings (path text : String) : List Diagnostic :=
  (parse (.ofString text)).2.map fun e => ⟨.syntaxError, .ofSpan path e.span, e.message⟩

theorem parseSource_of_nil {path text : String} (hfaults : (parse (.ofString text)).2 = []) :
    parseSource path text = .ok (parse (.ofString text)).1 := by
  have hnodes := Node.hasError_eq_false_iff.2 (errorNodes_eq_nil hfaults)
  simp only [parseSource, hfaults, hnodes]
  rfl

theorem parseSource_of_ne_nil {path text : String} (hfaults : (parse (.ofString text)).2 ≠ []) :
    parseSource path text = .error (syntaxFindings path text) := by
  have hsome : (!(parse (.ofString text)).2.isEmpty) = true := by
    rw [Bool.not_eq_true', List.isEmpty_eq_false_iff]
    exact hfaults
  exact if_pos hsome

/-- A tree has no more error nodes than its text has faults.  So a source is read exactly if it
has no faults, to a tree without error nodes, and otherwise what is reported are its faults. -/
theorem faults_cover_errorNodes (path text : String) :
    (parse (.ofString text)).1.errorNodes.length ≤ (parse (.ofString text)).2.length ∧
      (∀ root, parseSource path text = .ok root ↔ (parse (.ofString text)).2 = [] ∧
        root = (parse (.ofString text)).1 ∧ root.errorNodes = []) ∧
      ∀ found, parseSource path text = .error found ↔
        (parse (.ofString text)).2 ≠ [] ∧ found = syntaxFindings path text := by
  refine ⟨(parse_fair text).2.1, ?_⟩
  by_cases hfaults : (parse (.ofString text)).2 = []
  · rw [parseSource_of_nil hfaults]
    refine ⟨fun root => ⟨?_, fun h => congrArg Except.ok h.2.1.symm⟩,
      fun found => ⟨nofun, fun h => absurd hfaults h.1⟩⟩
    rintro ⟨⟩
    exact ⟨hfaults, rfl, errorNodes_eq_nil hfaults⟩
  · rw [parseSource_of_ne_nil hfaults]
    refine ⟨fun root => ⟨nofun, fun h => absurd h.1 hfaults⟩,
      fun found => ⟨?_, fun h => congrArg Except.error h.2.symm⟩⟩
    rintro ⟨⟩
    exact ⟨hfaults, rfl⟩

end PhpCheck
