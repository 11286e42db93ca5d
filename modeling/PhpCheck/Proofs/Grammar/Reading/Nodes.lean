import PhpCheck.Proofs.Grammar.Reading.Basic

/-!
Nodes, repetition and names, read from the tokens of a text.
-/

namespace PhpCheck.Grammar

/-! ### Nodes -/

section

variable {α : Type} [Result α] {G : Ground} {field : String} {n child : Node} {a : α}
  {as bs : List α}

@[simp]
theorem fits_nil : Result.Fits G ([] : List α) := nofun

@[simp]
theorem fits_cons : Result.Fits G (a :: as) ↔ Result.Fits G a ∧ Result.Fits G as :=
  List.forall_mem_cons

@[simp]
theorem fits_append : Result.Fits G (as ++ bs) ↔ Result.Fits G as ∧ Result.Fits G bs :=
  List.forall_mem_append

@[simp]
theorem fits_reverse : Result.Fits G as.reverse ↔ Result.Fits G as := by
  simp only [Result.Fits, List.mem_reverse]

@[simp]
theorem errors_nil : Result.errors ([] : List α) = 0 := rfl

@[simp]
theorem errors_cons : Result.errors (a :: as) = Result.errors a + Result.errors as := by
  simp only [Result.errors, List.map_cons, List.sum_cons]

@[simp]
theorem errors_append : Result.errors (as ++ bs) = Result.errors as + Result.errors bs := by
  simp only [Result.errors, List.map_append, List.sum_append]

@[simp]
theorem errors_reverse : Result.errors as.reverse = Result.errors as := by
  simp only [Result.errors, List.map_reverse, List.sum_reverse]

@[simp]
theorem fits_flatten {groups : List (List α)} :
    Result.Fits G groups.flatten ↔ Result.Fits G groups := List.forall_mem_flatten

@[simp]
theorem errors_flatten {groups : List (List α)} :
    Result.errors groups.flatten = Result.errors groups := by
  induction groups with
  | nil => rfl
  | cons group groups ih => rw [List.flatten_cons, errors_append, errors_cons, ih]

@[simp]
theorem errors_some : Result.errors (some a) = Result.errors a := rfl

@[simp]
theorem errors_none : Result.errors (none : Option α) = 0 := rfl

@[simp]
theorem fits_pair {β : Type} [Result β] {b : β} :
    Result.Fits G (a, b) ↔ Result.Fits G a ∧ Result.Fits G b := Iff.rfl

@[simp]
theorem errors_pair {β : Type} [Result β] {b : β} :
    Result.errors (a, b) = Result.errors a + Result.errors b := rfl

@[simp]
theorem errors_unit (u : Unit) : Result.errors u = 0 := rfl

@[simp]
theorem errors_bool (b : Bool) : Result.errors b = 0 := rfl

@[simp]
theorem errors_nat (o : Nat) : Result.errors o = 0 := rfl

@[simp]
theorem errors_nodeKind (kind : NodeKind) : Result.errors kind = 0 := rfl

@[simp]
theorem errors_token (t : Token) : Result.errors t = 0 := rfl

@[simp]
theorem errors_token? (t : Option Token) : Result.errors t = 0 := by cases t <;> rfl

@[simp]
theorem errors_span (s : Span) : Result.errors s = 0 := rfl

theorem errorNodes_walkAll (nodes : List Node) :
    ((Node.walkAll nodes).filter (·.kind == .error)).length = Result.errors nodes := by
  induction nodes with
  | nil => rfl
  | cons n nodes ih =>
    rw [Node.walkAll, List.filter_append, List.length_append, ih, errors_cons]
    rfl

theorem mem_walk_iff {m : Node} :
    m ∈ n.walk ↔ m = n ∨ ∃ child ∈ n.children, m ∈ child.walk := by
  have hall : ∀ nodes : List Node, m ∈ Node.walkAll nodes ↔ ∃ child ∈ nodes, m ∈ child.walk := by
    intro nodes
    induction nodes with
    | nil => simp [Node.walkAll]
    | cons n nodes ih => simp [Node.walkAll, ih]
  cases n
  rw [Node.walk, List.mem_cons, hall]

/-- A node fits the text if its own span and its children do. -/
theorem fits_node : Result.Fits G n ↔ Result.Fits G n.span ∧ Result.Fits G n.children := by
  constructor
  · intro h
    exact ⟨fun hG => h hG n (mem_walk_iff.2 (.inl rfl)),
      fun child hchild hG m hm => h hG m (mem_walk_iff.2 (.inr ⟨child, hchild, hm⟩))⟩
  · rintro ⟨hspan, hchildren⟩ hG m hm
    rcases mem_walk_iff.1 hm with rfl | ⟨child, hchild, hm⟩
    · exact hspan hG
    · exact hchildren child hchild hG m hm

theorem errors_node :
    Result.errors n = (if n.kind = .error then 1 else 0) + Result.errors n.children := by
  cases n with
  | mk kind span field text children =>
    show ((Node.walk _).filter _).length = _
    rw [Node.walk, List.filter_cons, ← errorNodes_walkAll]
    by_cases hkind : kind = .error
    · simp [hkind, Nat.add_comm]
    · simp [hkind]

@[simp]
theorem fits_inField : Result.Fits G (n.inField field) ↔ Result.Fits G n := by
  rw [fits_node, fits_node]
  rfl

@[simp]
theorem errors_inField : Result.errors (n.inField field) = Result.errors n := by
  rw [errors_node, errors_node]
  rfl

@[simp]
theorem fits_map_inField {nodes : List Node} :
    Result.Fits G (nodes.map (·.inField field)) ↔ Result.Fits G nodes := by
  induction nodes with
  | nil => exact ⟨fun _ => fits_nil, fun _ => fits_nil⟩
  | cons n nodes ih => rw [List.map_cons, fits_cons, fits_cons, fits_inField, ih]

@[simp]
theorem errors_map_inField {nodes : List Node} :
    Result.errors (nodes.map (·.inField field)) = Result.errors nodes := by
  induction nodes with
  | nil => rfl
  | cons n nodes ih => rw [List.map_cons, errors_cons, errors_cons, errors_inField, ih]

@[simp]
theorem fits_ofKind {kind : NodeKind} {span : Span} {children : List Node} :
    Result.Fits G (Node.ofKind kind span children) ↔
      Result.Fits G span ∧ Result.Fits G children := fits_node

@[simp]
theorem errors_ofKind {kind : NodeKind} (hkind : kind ≠ .error) (span : Span)
    (children : List Node) :
    Result.errors (Node.ofKind kind span children) = Result.errors children := by
  rw [errors_node]
  exact (congrArg (· + _) (if_neg hkind)).trans (Nat.zero_add _)

@[simp]
theorem fits_leaf {kind : NodeKind} {span : Span} {text : String} :
    Result.Fits G (Node.leaf kind span text) ↔ Result.Fits G span := by
  rw [fits_node]
  exact ⟨fun h => h.1, fun h => ⟨h, fits_nil⟩⟩

@[simp]
theorem errors_leaf {kind : NodeKind} (hkind : kind ≠ .error) (span : Span) (text : String) :
    Result.errors (Node.leaf kind span text) = 0 := by
  rw [errors_node]
  exact (congrArg (· + _) (if_neg hkind)).trans (Nat.zero_add _)

@[simp]
theorem fits_withField : Result.Fits G (n.withField field child) ↔
    Result.Fits G n ∧ Result.Fits G child := by
  rw [fits_node, fits_node (n := n)]
  show Result.Fits G n.span ∧ Result.Fits G (n.children ++ [child.inField field]) ↔ _
  rw [fits_append, fits_cons, fits_inField, and_iff_left fits_nil, and_assoc]

@[simp]
theorem errors_withField : Result.errors (n.withField field child) =
    Result.errors n + Result.errors child := by
  rw [errors_node, errors_node (n := n)]
  show (if n.kind = .error then 1 else 0) + Result.errors (n.children ++ [child.inField field]) = _
  rw [errors_append, errors_cons, errors_inField, errors_nil]
  omega

@[simp]
theorem fits_flag {span : Span} : Result.Fits G (flag span) ↔ Result.Fits G span :=
  fits_ofKind.trans (and_iff_left fits_nil)

@[simp]
theorem errors_flag (span : Span) : Result.errors (flag span) = 0 := errors_ofKind (by nofun) _ _

@[simp]
theorem fits_flagField {tok : Option Token} (htok : Result.Fits G tok) :
    Result.Fits G (flagField field tok) := by
  cases tok with
  | none => exact fits_nil
  | some t =>
    refine fits_cons.2 ⟨fits_inField.2 (fits_ofKind.2 ⟨?_, fits_nil⟩), fits_nil⟩
    exact fun hG => (htok t rfl hG).fits

@[simp]
theorem errors_flagField {tok : Option Token} : Result.errors (flagField field tok) = 0 := by
  cases tok with
  | none => rfl
  | some t =>
    simp [flagField, flag]

@[simp]
theorem fits_optField {child : Option Node} :
    Result.Fits G (optField field child) ↔ Result.Fits G child := by
  cases child with
  | none => exact ⟨fun _ => fits_none, fun _ => fits_nil⟩
  | some child =>
    rw [optField, fits_cons, fits_inField, fits_some]
    exact and_iff_left fits_nil

@[simp]
theorem errors_optField {child : Option Node} :
    Result.errors (optField field child) = Result.errors child := by
  cases child with
  | none => rfl
  | some child =>
    rw [optField, errors_cons, errors_inField]
    rfl

theorem fits_span (hn : Result.Fits G n) : Result.Fits G n.span := (fits_node.1 hn).1

theorem fits_filter {a : Option α} (ha : Result.Fits G a) (p : α → Bool) :
    Result.Fits G (a.filter p) := fun x hx => ha x (Option.mem_filter_iff.1 hx).1

theorem fits_start {span : Span} (hspan : Result.Fits G span) : Result.Fits G span.start :=
  fun hG => (hspan hG).start

theorem fits_tokenSpan {t : Token} (ht : Result.Fits G t) : Result.Fits G t.span :=
  fun hG => (ht hG).fits

theorem fits_merge {a b : Span} (ha : Result.Fits G a) (hb : Result.Fits G b) :
    Result.Fits G (a.merge b) := fun hG => (ha hG).merge (hb hG)

end

section

variable {α β : Type} [Result α] [Result β] {G : Ground} {atToken owed owed' owed'' : Bool}
  {w : Nat}

/-- A node over what was consumed holds the error nodes of its children. -/
theorem nodeFrom_reads {kind : NodeKind} {start : Nat} {children : List Node}
    (hkind : kind ≠ .error) (hstart : Result.Fits G start) (hchildren : Result.Fits G children)
    (hw : Result.errors children ≤ w) :
    Reads G atToken false w (nodeFrom kind start children) := by
  unfold nodeFrom
  refine .spanFrom hstart fun span hspan => .pure (fits_ofKind.2 ⟨hspan, hchildren⟩) ?_
  rwa [errors_ofKind hkind]

/-- A node over what was consumed, and what follows. -/
theorem Reads.node {kind : NodeKind} {start : Nat} {children : List Node} {f : Node → Parse β}
    (hkind : kind ≠ .error) (hstart : Result.Fits G start) (hchildren : Result.Fits G children)
    (hf : ∀ n : Node, Result.Fits G n → Result.errors n = Result.errors children →
      Reads G atToken owed w (f n)) :
    Reads G atToken owed w (nodeFrom kind start children >>= f) := by
  simp only [nodeFrom, bind_assoc, pure_bind]
  exact .spanFrom hstart fun span hspan =>
    hf _ (fits_ofKind.2 ⟨hspan, hchildren⟩) (errors_ofKind hkind _ _)

theorem Reads.takeDoc {f : Option Node → Parse β}
    (hf : ∀ doc, Result.Fits G doc → Result.errors doc = 0 → Reads G atToken owed w (f doc)) :
    Reads G atToken owed w (takeDoc >>= f) := by
  intro s hs htoken
  have hdoc : Result.Fits G (s.doc.map fun tok => Node.leaf .docComment tok.span tok.text) := by
    rintro n hn
    obtain ⟨t, ht, rfl⟩ := Option.map_eq_some_iff.1 hn
    exact fits_leaf.2 fun hG => (hs.doc hG t ht).fits
  have herrors : Result.errors (s.doc.map fun tok => Node.leaf .docComment tok.span tok.text) =
      0 := by
    cases s.doc with
    | none => rfl
    | some t => simp
  have hstands : State.Stands G { s with doc := none } :=
    ⟨hs.settled, hs.current, fun _ t ht => absurd ht (Option.not_mem_none t), hs.prevEnd, hs.rest,
      hs.errors⟩
  exact (hf _ hdoc herrors _ hstands htoken).after (n := 0)
    ⟨hstands, List.suffix_refl _, Nat.le_refl _, Nat.le_refl _⟩ (Nat.le_refl _)

namespace Reads

/-- A part that there is under a condition. -/
theorem partIf {c : Prop} [Decidable c] {field : String} {p : Parse Node} {f : List Node → Parse β}
    (hp : Reads G atToken owed' 0 p) (hf : ∀ parts : List Node, Result.Fits G parts →
      Reads G false owed (w + Result.errors parts) (f parts)) :
    Reads G atToken owed w
      (if c then p >>= fun n => Pure.pure [n.inField field] >>= f else Pure.pure [] >>= f) := by
  refine .ite (fun _ => .bind hp fun n hn => .given ?_) fun _ => .given (.anywhere (hf [] fits_nil))
  have hpart := hf [n.inField field] (by simpa using hn)
  rwa [errors_cons, errors_inField, errors_nil, Nat.add_zero] at hpart

/-- A part that there is unless a condition holds. -/
theorem partUnless {c : Prop} [Decidable c] {field : String} {p : Parse Node}
    {f : List Node → Parse β} (hp : Reads G atToken owed' 0 p)
    (hf : ∀ parts : List Node, Result.Fits G parts →
      Reads G false owed (w + Result.errors parts) (f parts)) :
    Reads G atToken owed w
      (if c then Pure.pure [] >>= f else p >>= fun n => Pure.pure [n.inField field] >>= f) := by
  rw [← ite_not]
  exact partIf hp hf

/-- A part, or something else that gives none. -/
theorem partOr {c : Prop} [Decidable c] {field : String} {p : Parse Node} {q : Parse Unit}
    {f : List Node → Parse β} (hp : Reads G atToken owed' 0 p) (hq : Reads G atToken owed'' 0 q)
    (hf : ∀ parts : List Node, Result.Fits G parts →
      Reads G false owed (w + Result.errors parts) (f parts)) :
    Reads G atToken owed w (if c then p >>= fun n => Pure.pure [n.inField field] >>= f
      else q >>= fun _ => Pure.pure [] >>= f) := by
  refine .ite (fun _ => .bind hp fun n hn => .given ?_) fun _ =>
    .bind hq fun _ _ => .given (hf [] fits_nil)
  have hpart := hf [n.inField field] (by simpa using hn)
  rwa [errors_cons, errors_inField, errors_nil, Nat.add_zero] at hpart

end Reads

/-! ### Repetition -/

/-- A repetition ends before its bound if each round but the last lowers a measure that the
bound exceeds. -/
theorem fair_rounds {round : α → Parse (Round α)} (measure : State → Nat)
    (hround : ∀ a w s, Result.Fits G a → s.Stands G →
      Fair G s false (w + Result.errors a) (round a G.src s) ∧
        ∀ b s', round a G.src s = .ok (.more b) s' → measure s' < measure s)
    {fuel : Nat} {a : α} {s : State} (ha : Result.Fits G a) (hw : Result.errors a ≤ w)
    (hs : s.Stands G) (hfuel : measure s < fuel) :
    Fair G s false w (rounds round fuel a G.src s) := by
  induction fuel generalizing a s w with
  | zero => exact absurd hfuel (Nat.not_lt_zero _)
  | succ fuel ih =>
    obtain ⟨k, rfl⟩ := Nat.exists_eq_add_of_le' hw
    obtain ⟨hrun, hless⟩ := hround a k s ha hs
    cases hr : round a G.src s with
    | error e s' =>
      rw [rounds_error hr]
      rw [hr] at hrun
      cases hrun with
      | error step fits fault => exact .error step fits fault
    | ok r s' =>
      rw [hr] at hrun
      cases hrun with
      | ok step fits consumed errors =>
        cases r with
        | done b =>
          rw [rounds_done hr]
          exact .ok step fits nofun errors
        | more b =>
          rw [rounds_more hr]
          have hlt := hless b s' hr
          obtain ⟨n, hn⟩ := Nat.exists_eq_add_of_le step.errors
          refine (ih (w := _ + n) fits ?_ step.stands (by omega)).after step (Nat.le_of_eq hn.symm)
          change _ + Result.errors b ≤ _ at errors
          omega

/-- Where each round but the last consumes a token, the tokens left bound the rounds. -/
theorem repeated_reads {round : α → Parse (Round α)} {init : α} (hinit : Result.Fits G init)
    (hw : Result.errors init ≤ w)
    (hround : ∀ a w, Result.Fits G a → Reads G false true (w + Result.errors a) (round a)) :
    Reads G atToken false w (repeated init round) := by
  intro s hs _
  rw [repeated_eq]
  refine fair_rounds (·.pending.length) (fun a w s ha hs => ?_) hinit hw hs
    (Nat.lt_succ_of_le s.pending_length_le)
  have hrun := hround a w ha s hs nofun
  refine ⟨hrun.forgo, fun b s' hr => ?_⟩
  rw [hr] at hrun
  cases hrun with
  | ok step fits consumed errors => exact consumed rfl rfl

namespace Reads

/-- A round after which another one follows. -/
theorem more {a : α} (ha : Result.Fits G a) (hw : Result.errors a ≤ w) :
    Reads G atToken false w (Pure.pure (Round.more a) : Parse (Round α)) := .pure ha hw

/-- The last round owes no token. -/
theorem done {a : α} (ha : Result.Fits G a) (hw : Result.errors a ≤ w) :
    Reads G atToken owed w (Pure.pure (Round.done a) : Parse (Round α)) :=
  fun _ hs _ => .ok (.refl hs) ha nofun (Nat.add_le_add_left hw _)

end Reads

section

variable {item : Parse α} (hitem : ∀ {atToken w}, Reads G atToken true w item)

include hitem

theorem commaList_reads [Counted α] {stop : Parse Bool} [Looks stop] :
    Reads G atToken false w (commaList stop item) := by
  unfold commaList
  refine .bind (repeated_reads fits_nil (Nat.le_refl _) fun items w hitems => ?_)
    fun items hitems => .pure (fits_reverse.2 hitems) (by simp)
  refine .look fun ends => .look fun stops => ?_
  refine .ite (fun _ => .done hitems (Nat.le_add_left _ _)) fun _ => ?_
  refine .took hitem fun a ha => .eats ?_ ?_
  · exact .more (fits_cons.2 ⟨ha, hitems⟩) (by simp; omega)
  · exact .done (fits_cons.2 ⟨ha, hitems⟩) (by simp; omega)

theorem separated_reads [Counted α] {separator : TokenKind} :
    Reads G atToken true w (separated separator item) := by
  unfold separated
  refine .took hitem fun first hfirst => ?_
  refine .carry (repeated_reads (by simpa) (by simp) fun items w hitems => ?_)
    fun items hitems => .pure (fits_reverse.2 hitems) (by simp)
  refine .eats (.bind hitem fun a ha => ?_) (.done hitems (Nat.le_add_left _ _))
  exact .more (fits_cons.2 ⟨ha, hitems⟩) (by simp; omega)

end

end

/-! ### Names -/

section

variable {G : Ground} {atToken : Bool} {w : Nat}

theorem simpleVariable_reads : Reads G atToken true w simpleVariable := by
  unfold simpleVariable
  refine .took expect_reads fun tok htok => ?_
  exact .pure (fits_leaf.2 (fits_tokenSpan htok)) (by simp)

instance (span : Span) : Looks (compactText span) := ⟨fun _ _ => ⟨_, rfl⟩⟩

theorem qualifiedName_reads : Reads G atToken true w qualifiedName := by
  unfold qualifiedName
  refine .here fun start hstart => .test (check_atToken _) ?_ ?_
  · refine .took expect_reads fun tok htok => ?_
    exact .pure (fits_leaf.2 (fits_tokenSpan htok)) (by simp)
  refine .bind eats_reads fun rooted _ => ?_
  extract_lets parts first
  have hparts : ∀ w, Reads G true true w (parts ()) := fun w => by
    refine .took (.discard advance_reads) fun _ _ => ?_
    refine .bind (repeated_reads trivial (Nat.zero_le _) fun _ w _ => ?_) fun _ _ => ?_
    · refine .ask (fun separated => ?_) (check_atToken _)
      refine .look fun next => .ite (fun h => ?_) fun _ => .done trivial (Nat.zero_le _)
      obtain rfl := (Bool.and_eq_true_iff.1 h).1
      refine .took (.discard advance_reads) fun _ _ => ?_
      exact .bind discard_advance_reads fun _ _ => .more trivial (Nat.zero_le _)
    · refine .spanFrom hstart fun span hspan => .look fun text => ?_
      exact .pure (fits_leaf.2 hspan) (by simp)
  have hfirst : ∀ w, Reads G false true w (first ()) := fun w => by
    refine .ask (fun named => ?_) atMemberName_atToken
    refine .ite (fun _ => .unexpected_bind) fun h => ?_
    obtain rfl : named = true := by simpa using h
    exact hparts _
  refine .ite (fun _ => ?_) fun _ => ?_
  · exact .bind (.discard expect_reads) fun _ _ => hfirst _
  · exact .bind (.discard eat_reads) fun _ _ => hfirst _

theorem nameList_reads : Reads G atToken true w nameList := by
  unfold nameList
  refine .here fun start hstart => .took (separated_reads qualifiedName_reads) fun names hnames =>
    ?_
  exact nodeFrom_reads nofun hstart hnames (by omega)

theorem memberName_reads : Reads G atToken true w memberName := by
  unfold memberName
  refine .current (fun s hs => ?_) fun s tok hs htok => ?_ <;> rw [hs]
  · exact .unexpected
  · refine .ite (fun _ => .took (.discard advance_reads) fun _ _ => ?_) fun _ => .unexpected
    exact .pure (fits_leaf.2 (fits_tokenSpan htok)) (by simp)

theorem modifiers_reads : Reads G atToken false w modifiers := by
  unfold modifiers
  refine .bind (repeated_reads fits_nil (Nat.zero_le _) fun words w hwords => ?_)
    fun words hwords => .pure (fits_reverse.2 hwords) (by simp)
  have hdone : ∀ {atToken : Bool}, Reads G atToken true (w + Result.errors words)
      (pure (Round.done words)) := .done hwords (Nat.le_add_left _ _)
  refine .current (fun s hs => ?_) fun s tok hs htok => ?_ <;> rw [hs]
  · exact hdone
  · refine .ite (fun _ => .took (.discard advance_reads) fun _ _ => .more ?_ ?_) fun _ => hdone
    · exact fits_cons.2 ⟨fits_inField.2 (fits_leaf.2 (fits_tokenSpan htok)), hwords⟩
    · simp

theorem typeAtom_reads : Reads G atToken true w typeAtom := by
  unfold typeAtom
  exact .test (checkAny_atToken _) (.discard advance_reads) (.discard qualifiedName_reads)

theorem typeHint_reads : Reads G atToken false w typeHint := by
  unfold typeHint
  refine .here fun start hstart => .bind (.discard eat_reads) fun _ _ => ?_
  refine .bind (repeated_reads trivial (Nat.zero_le _) fun _ w _ => ?_) fun _ _ => ?_
  · refine .bind eats_reads fun grouped _ => ?_
    extract_lets last
    have hlast : ∀ w, Reads G false false w (last ()) := fun w => by
      refine .eats (.more trivial (Nat.zero_le _)) ?_
      refine .ask (fun joined => .look fun next => ?_) (check_atToken _)
      refine .ite (fun _ => ?_) fun _ => .done trivial (Nat.zero_le _)
      exact .bind discard_advance_reads fun _ _ => .more trivial (Nat.zero_le _)
    refine .ite (fun _ => ?_) fun _ => .took typeAtom_reads fun _ _ => hlast _
    refine .took typeAtom_reads fun _ _ => ?_
    refine .bind (repeated_reads trivial (Nat.zero_le _) fun _ w _ => ?_)
      fun _ _ => .bind (.discard expect_reads) fun _ _ => hlast _
    refine .eats (.bind typeAtom_reads fun _ _ => ?_) (.done trivial (Nat.zero_le _))
    exact .more trivial (Nat.zero_le _)
  · refine .spanFrom hstart fun span hspan => .look fun text => ?_
    exact .pure (fits_leaf.2 hspan) (by simp)

end

end PhpCheck.Grammar
