import PhpCheck.Proofs.Grammar.Climbing
import PhpCheck.Proofs.Grammar.Reading.File
import PhpCheck.Proofs.Token.Abreast

/-!
Two texts with a part in common, and the states of two readings within it.

Two texts share a part, and different tokens follow its tokens (`Bond`).  Two states, one in each
text, are in front of the same token of that part (`Bond.Twin`), and after one step they are so
again.  As long as a token that can end something is left of the part (`Bond.Free`), what follows
the part cannot be told from either of them.
-/

namespace PhpCheck.Grammar

/-! ### Results without their places -/

/-- A kind of result whose places can be left out. -/
class Unplaced (α : Type) where
  unplaced : α → α := id

export Unplaced (unplaced)

instance : Unplaced Unit where
instance : Unplaced Bool where
instance : Unplaced String where
instance : Unplaced TokenKind where
instance : Unplaced NodeKind where

instance : Unplaced Nat where
  unplaced _ := 0

instance : Unplaced Span where
  unplaced _ := default

instance : Unplaced Token where
  unplaced t := { t with span := default }

instance : Unplaced Node where
  unplaced := Node.unplaced

section

variable {α β : Type} [Unplaced α] [Unplaced β]

instance : Unplaced (Option α) where
  unplaced := Option.map unplaced

instance : Unplaced (List α) where
  unplaced := List.map unplaced

instance : Unplaced (α × β) where
  unplaced := Prod.map unplaced unplaced

instance : Unplaced (Round α) where
  unplaced
    | .more a => .more (unplaced a)
    | .done a => .done (unplaced a)

variable {a : α} {b : β} {as bs : List α}

@[simp] theorem unplaced_none : unplaced (none : Option α) = none := rfl

@[simp] theorem unplaced_some : unplaced (some a) = some (unplaced a) := rfl

@[simp] theorem unplaced_nil : unplaced ([] : List α) = [] := rfl

@[simp] theorem unplaced_cons : unplaced (a :: as) = unplaced a :: unplaced as := rfl

@[simp] theorem unplaced_append : unplaced (as ++ bs) = unplaced as ++ unplaced bs :=
  List.map_append

@[simp] theorem unplaced_reverse : unplaced as.reverse = (unplaced as).reverse := List.map_reverse

@[simp] theorem unplaced_flatten (groups : List (List α)) :
    unplaced groups.flatten = (unplaced groups).flatten := List.map_flatten

@[simp] theorem unplaced_pair : unplaced (a, b) = (unplaced a, unplaced b) := rfl

@[simp] theorem unplaced_more : unplaced (Round.more a) = .more (unplaced a) := rfl

@[simp] theorem unplaced_done : unplaced (Round.done a) = .done (unplaced a) := rfl

end

@[simp] theorem unplaced_unit (u : Unit) : unplaced u = u := rfl

@[simp] theorem unplaced_bool (b : Bool) : unplaced b = b := rfl

@[simp] theorem unplaced_string (s : String) : unplaced s = s := rfl

@[simp] theorem unplaced_tokenKind (k : TokenKind) : unplaced k = k := rfl

@[simp] theorem unplaced_nodeKind (k : NodeKind) : unplaced k = k := rfl

@[simp] theorem unplaced_nat (n : Nat) : unplaced n = 0 := rfl

@[simp] theorem unplaced_span (s : Span) : unplaced s = default := rfl

section

variable {n m : Node} {t u : Token}

theorem unplacedAll_eq (nodes : List Node) : Node.unplacedAll nodes = unplaced nodes := by
  induction nodes with
  | nil => rfl
  | cons n nodes ih => rw [Node.unplacedAll, ih]; rfl

@[simp] theorem unplaced_ofKind (kind : NodeKind) (span : Span) (children : List Node) :
    unplaced (Node.ofKind kind span children) = Node.ofKind kind default (unplaced children) :=
  (Node.unplaced_ofKind kind span children).trans (by rw [unplacedAll_eq])

@[simp] theorem unplaced_leaf (kind : NodeKind) (span : Span) (text : String) :
    unplaced (Node.leaf kind span text) = Node.leaf kind default text :=
  Node.unplaced_leaf kind span text

@[simp] theorem unplaced_inField (field : String) :
    unplaced (n.inField field) = (unplaced n).inField field := Node.unplaced_inField n field

@[simp] theorem unplaced_map_inField (nodes : List Node) (field : String) :
    unplaced (nodes.map (·.inField field)) = (unplaced nodes).map (·.inField field) := by
  induction nodes with
  | nil => rfl
  | cons n nodes ih => simp only [List.map_cons, unplaced_cons, unplaced_inField, ih]

theorem unplaced_mk (kind : NodeKind) (span : Span) (field text : Option String)
    (children : List Node) : unplaced (Node.mk kind span field text children) =
      ⟨kind, default, field, text, unplaced children⟩ :=
  (Node.unplaced.eq_1 kind span field text children).trans (by rw [unplacedAll_eq])

@[simp] theorem unplaced_withField (field : String) :
    unplaced (n.withField field m) = (unplaced n).withField field (unplaced m) := by
  cases n
  simp [Node.withField, Node.push, unplaced_mk]

@[simp] theorem unplaced_flag (span : Span) : unplaced (flag span) = flag default :=
  unplaced_ofKind _ _ _

@[simp] theorem unplaced_flagField (field : String) (tok : Option Token) :
    unplaced (flagField field tok) = flagField field (unplaced tok) := by
  cases tok with
  | none => rfl
  | some t =>
    simp only [flagField, unplaced_cons, unplaced_inField, unplaced_flag, unplaced_nil,
      unplaced_some]
    rfl

@[simp] theorem unplaced_optField (field : String) (child : Option Node) :
    unplaced (optField field child) = optField field (unplaced child) := by
  cases child <;> simp [optField]

theorem kind_of_unplaced (h : unplaced n = unplaced m) : n.kind = m.kind := by
  cases n
  cases m
  exact (Node.mk.inj (show Node.unplaced _ = Node.unplaced _ from h)).1

theorem text_of_unplaced (h : unplaced n = unplaced m) : n.text = m.text := by
  cases n
  cases m
  exact (Node.mk.inj (show Node.unplaced _ = Node.unplaced _ from h)).2.2.2.1

theorem textD_of_unplaced (h : unplaced n = unplaced m) : n.textD = m.textD :=
  congrArg (·.getD "") (text_of_unplaced h)

theorem unplaced_token : unplaced t = unplaced u ↔ t.kind = u.kind ∧ t.text = u.text := by
  cases t
  cases u
  simp [unplaced]

end

/-! ### Two texts with a part in common -/

/-- The tokens that may end a statement or the head of a control structure. -/
def closing : List TokenKind := [.semicolon, .rBrace, .closeTag, .inlineHtml, .colon, .rParen]

/-- The kinds that a statement may go on with after one of its blocks. -/
def continuing : List TokenKind := [.kwElseif, .kwElse, .kwCatch, .kwFinally]

/-- Two texts in which the same text stands, and the tokens of each behind that text. -/
structure Bond where
  left : Source
  right : Source
  text : List Char
  lo₁ : Nat
  lo₂ : Nat
  leftAt : left.HasAt lo₁ text
  rightAt : right.HasAt lo₂ text
  tail₁ : List Token
  tail₂ : List Token
  length_le : tail₁.length ≤ tail₂.length
  closed : tail₁ = [] → tail₂ = [] ∧ left.size = lo₁ + byteSize text ∧
    right.size = lo₂ + byteSize text
  head₁ : ∀ t ∈ tail₁.head?, t.kind.isComment = false ∧ t.kind ≠ .closeTag ∧ t.kind ∉ continuing
  head₂ : ∀ t ∈ tail₂.head?, t.kind.isComment = false ∧ t.kind ≠ .closeTag ∧ t.kind ∉ continuing

namespace Bond

variable (B : Bond)

/-- The same place of the part that is shared. -/
def Place (o₁ o₂ : Nat) : Prop :=
  ∃ front back, B.text = front ++ back ∧ o₁ = B.lo₁ + byteSize front ∧ o₂ = B.lo₂ + byteSize front

/-- The same token of the part that is shared. -/
structure Same (t₁ t₂ : Token) : Prop extends Token.Alike B.text B.lo₁ B.lo₂ t₁ t₂ where
  quoted : t₁.kind.isTemplate = true →
    ∃ quote body, t₁.text.toList = quote :: (body ++ [quote]) ∧ quote.utf8Size = 1

end Bond

/-- The state stands in front of some tokens. -/
structure State.Faces (s : State) (toks : List Token) : Prop where
  current : s.current = toks.head?
  rest : s.rest = toks.tail.map .ok
  code : ∀ t ∈ toks.head?, t.kind.isComment = false

/-- Two states, one in each text, in front of the same token of the part that is shared, or
behind all of it. -/
structure Bond.Twin (B : Bond) (s₁ s₂ : State) : Prop where
  errors₁ : s₁.errors = []
  errors₂ : s₂.errors = []
  prevEnd : B.Place s₁.prevEnd s₂.prevEnd ∨ s₁.prevEnd = 0 ∧ s₂.prevEnd = 0
  doc : unplaced s₁.doc = unplaced s₂.doc
  faces : ∃ ts₁ ts₂, List.Forall₂ B.Same ts₁ ts₂ ∧ s₁.Faces (ts₁ ++ B.tail₁) ∧
    s₂.Faces (ts₂ ++ B.tail₂)

/-- The tokens behind the part that is shared, without comments. -/
def Bond.after (B : Bond) : List Token := significant (B.tail₁.map .ok)

/-- Nothing behind the part that is shared has been consumed. -/
def Bond.Within (B : Bond) (s : State) : Prop := B.after <:+ s.pending

/-- A token that can end something is left of the part that is shared, unless the text ends
with it. -/
def Bond.Free (B : Bond) (s : State) : Prop :=
  B.tail₁ = [] ∨ ∃ t more, t.kind ∈ closing ∧ t :: (more ++ B.after) <:+ s.pending

section

variable {B : Bond} {s s' s₁ s₂ : State} {t t₁ t₂ : Token} {ts ts₁ ts₂ toks : List Token}

theorem Bond.Within.mono (h : B.Within s') (hs : s'.pending <:+ s.pending) : B.Within s :=
  h.trans hs

theorem Bond.Free.mono (h : B.Free s') (hs : s'.pending <:+ s.pending) : B.Free s := by
  obtain hnil | ⟨t, more, ht, hsuffix⟩ := h
  · exact .inl hnil
  · exact .inr ⟨t, more, ht, hsuffix.trans hs⟩

theorem Bond.Free.within (h : B.Free s) : B.Within s := by
  obtain hnil | ⟨t, more, -, hsuffix⟩ := h
  · rw [Bond.Within, Bond.after, hnil]
    exact List.nil_suffix
  · exact (List.suffix_append (t :: more) B.after).trans hsuffix

theorem Bond.Same.unplaced (h : B.Same t₁ t₂) : unplaced t₁ = unplaced t₂ :=
  unplaced_token.2 ⟨h.kind, h.text⟩

/-- Between two characters of a token is a place of the text. -/
theorem Bond.Same.place (h : B.Same t₁ t₂) {front : List Char} (hfront : front <+: t₁.text.toList) :
    B.Place (t₁.span.start + byteSize front) (t₂.span.start + byteSize front) := by
  obtain ⟨before, after, htext, hstart₁, hstart₂⟩ := h.stands
  obtain ⟨back, hback⟩ := hfront
  refine ⟨before ++ front, back ++ after, ?_, ?_, ?_⟩
  · rw [htext, ← hback]
    simp only [List.append_assoc]
  · rw [hstart₁, byteSize_append, Nat.add_assoc]
  · rw [hstart₂, byteSize_append, Nat.add_assoc]

theorem Bond.Same.start (h : B.Same t₁ t₂) : B.Place t₁.span.start t₂.span.start :=
  h.place List.nil_prefix

theorem Bond.Same.stop (h : B.Same t₁ t₂) : B.Place t₁.span.stop t₂.span.stop := by
  rw [h.stop₁, h.stop₂, ← h.text]
  exact h.place (List.prefix_refl _)

theorem Bond.Place.max {a₁ a₂ b₁ b₂ : Nat} (ha : B.Place a₁ a₂) (hb : B.Place b₁ b₂) :
    B.Place (max a₁ b₁) (max a₂ b₂) := by
  obtain ⟨front, back, htext, rfl, rfl⟩ := ha
  obtain ⟨front', back', htext', rfl, rfl⟩ := hb
  rcases Nat.le_total (byteSize front) (byteSize front') with h | h
  · rw [Nat.max_eq_right (Nat.add_le_add_left h _), Nat.max_eq_right (Nat.add_le_add_left h _)]
    exact ⟨front', back', htext', rfl, rfl⟩
  · rw [Nat.max_eq_left (Nat.add_le_add_left h _), Nat.max_eq_left (Nat.add_le_add_left h _)]
    exact ⟨front, back, htext, rfl, rfl⟩

/-- What stands between two places of the text. -/
theorem Bond.Place.between {a₁ a₂ b₁ b₂ : Nat} (ha : B.Place a₁ a₂) (hb : B.Place b₁ b₂) :
    ∃ front middle back, B.text = front ++ middle ++ back ∧ a₁ = B.lo₁ + byteSize front ∧
      a₂ = B.lo₂ + byteSize front ∧ B.left.slice a₁ b₁ = middle ∧ B.right.slice a₂ b₂ = middle ∧
        (a₁ ≤ b₁ → b₁ = a₁ + byteSize middle ∧ b₂ = a₂ + byteSize middle) := by
  obtain ⟨front, back, htext, rfl, rfl⟩ := ha
  obtain ⟨front', back', htext', rfl, rfl⟩ := hb
  rcases Nat.lt_or_ge (byteSize front') (byteSize front) with h | h
  · have hnone : ∀ text : List Char, takeBytes 0 text = [] := fun text => by cases text <;> rfl
    refine ⟨front, [], back, by rw [List.append_nil, htext], rfl, rfl, ?_, ?_, fun hle => ?_⟩
    · rw [Source.slice, Nat.sub_eq_zero_of_le (by omega), hnone]
    · rw [Source.slice, Nat.sub_eq_zero_of_le (by omega), hnone]
    · omega
  · obtain ⟨middle, rfl, rfl⟩ : ∃ middle, front' = front ++ middle ∧ back = middle ++ back' := by
      rcases List.append_eq_append_iff.1 (htext.symm.trans htext') with ⟨m, h₁, h₂⟩ | ⟨m, h₁, h₂⟩
      · exact ⟨m, h₁, h₂⟩
      · subst h₁
        obtain rfl := eq_nil_of_byteSize_le h
        exact ⟨[], by simp, by simpa using h₂.symm⟩
    have hslice : ∀ {src : Source} {lo : Nat}, src.HasAt lo B.text →
        src.slice (lo + byteSize front) (lo + byteSize (front ++ middle)) = middle := by
      intro src lo hat
      rw [htext] at hat
      have hmiddle : src.HasAt (lo + byteSize front) middle := by
        obtain ⟨before, after, hchars, rfl⟩ := hat
        refine ⟨before ++ front, back' ++ after, ?_, byteSize_append _ _⟩
        rw [hchars]
        simp only [List.append_assoc]
      rw [byteSize_append, ← Nat.add_assoc]
      exact hmiddle.slice
    refine ⟨front, middle, back', htext', rfl, rfl, hslice B.leftAt, hslice B.rightAt, fun _ => ?_⟩
    rw [byteSize_append, Nat.add_assoc, Nat.add_assoc]
    exact ⟨rfl, rfl⟩

/-- Between the same places stands the same text. -/
theorem Bond.Place.slice {a₁ a₂ b₁ b₂ : Nat} (ha : B.Place a₁ a₂) (hb : B.Place b₁ b₂) :
    B.left.slice a₁ b₁ = B.right.slice a₂ b₂ := by
  obtain ⟨front, middle, back, -, -, -, hleft, hright, -⟩ := ha.between hb
  rw [hleft, hright]

end

/-! ### States in front of the same tokens -/

section

variable {B : Bond} {s s₁ s₂ : State} {t t₁ t₂ : Token} {ts ts₁ ts₂ toks : List Token}
  {prevEnd prevEnd₁ prevEnd₂ : Nat} {doc doc₁ doc₂ : Option Token} {errors : List SyntaxError}

theorem significant_append (xs ys : List Lexeme) :
    significant (xs ++ ys) = significant xs ++ significant ys := by
  fun_induction significant xs with
  | case1 => rfl
  | case2 e rest ih => exact ih
  | case3 t rest ht ih => rw [List.cons_append, significant, if_pos ht, ih]
  | case4 t rest ht ih => rw [List.cons_append, significant, if_neg ht, ih, List.cons_append]

theorem significant_cons (ht : t.kind.isComment = false) :
    significant ((t :: ts).map .ok) = t :: significant (ts.map .ok) := by
  rw [List.map_cons, significant, ht]
  rfl

theorem State.Faces.pending (h : s.Faces toks) : s.pending = significant (toks.map .ok) := by
  cases toks with
  | nil => rw [State.pending, h.current, h.rest]; rfl
  | cons t toks =>
    rw [significant_cons (h.code t rfl), State.pending, h.current, h.rest]
    rfl

theorem State.Faces.stands {G : Ground} (hG : ¬G.known) (h : s.Faces toks) : s.Stands G := by
  refine ⟨fun hnone => ?_, (absurd · hG), (absurd · hG), (absurd · hG), (absurd · hG),
    (absurd · hG)⟩
  rw [h.current] at hnone
  rw [h.rest, List.head?_eq_none_iff.1 hnone]
  rfl

theorem settle_cons {more : List Lexeme} (ht : t.kind.isComment = false) :
    State.settle prevEnd doc errors (.ok t :: more) =
      { current := some t, doc, prevEnd, rest := more, errors } := by
  obtain ⟨hline, hdoc⟩ := Bool.or_eq_false_iff.1 ht
  rw [State.settle, if_neg (beq_eq_false_iff_ne.1 hline), if_neg (beq_eq_false_iff_ne.1 hdoc)]

theorem faces_settle (hcode : ∀ t ∈ toks.head?, t.kind.isComment = false) :
    State.settle prevEnd doc errors (toks.map .ok) =
      { current := toks.head?, doc, prevEnd, rest := toks.tail.map .ok, errors } := by
  cases toks with
  | nil => rfl
  | cons t toks => exact settle_cons (hcode t rfl)

theorem State.Faces.advance_eq (h : s.Faces (t :: toks))
    (hcode : ∀ u ∈ toks.head?, u.kind.isComment = false) :
    s.advance =
      { current := toks.head?, doc := none
        prevEnd := (s.current.map (·.span.stop)).getD s.prevEnd
        rest := toks.tail.map .ok, errors := s.errors } := by
  rw [State.advance, h.rest, List.tail_cons, faces_settle hcode]

theorem State.Faces.advance (h : s.Faces (t :: toks))
    (hcode : ∀ u ∈ toks.head?, u.kind.isComment = false) :
    s.advance.Faces toks := by
  rw [h.advance_eq hcode]
  exact ⟨rfl, rfl, hcode⟩

theorem State.Faces.errors_advance (h : s.Faces (t :: toks))
    (hcode : ∀ u ∈ toks.head?, u.kind.isComment = false) : s.advance.errors = s.errors := by
  rw [h.advance_eq hcode]

/-- From the same tokens on, the same token is next. -/
theorem twin_settle (hts : List.Forall₂ B.Same ts₁ ts₂)
    (hprevEnd : B.Place prevEnd₁ prevEnd₂ ∨ prevEnd₁ = 0 ∧ prevEnd₂ = 0)
    (hdoc : unplaced doc₁ = unplaced doc₂) :
    B.Twin (State.settle prevEnd₁ doc₁ [] ((ts₁ ++ B.tail₁).map .ok))
      (State.settle prevEnd₂ doc₂ [] ((ts₂ ++ B.tail₂).map .ok)) := by
  induction hts generalizing doc₁ doc₂ with
  | nil =>
    have hcode₁ : ∀ t ∈ ([] ++ B.tail₁).head?, t.kind.isComment = false :=
      fun t ht => (B.head₁ t ht).1
    have hcode₂ : ∀ t ∈ ([] ++ B.tail₂).head?, t.kind.isComment = false :=
      fun t ht => (B.head₂ t ht).1
    rw [faces_settle hcode₁, faces_settle hcode₂]
    exact ⟨rfl, rfl, hprevEnd, hdoc, [], [], .nil, ⟨rfl, rfl, hcode₁⟩, ⟨rfl, rfl, hcode₂⟩⟩
  | @cons t₁ t₂ ts₁ ts₂ ht hts ih =>
    by_cases hline : t₁.kind = .lineComment
    · have hline₂ : t₂.kind = .lineComment := ht.kind ▸ hline
      simpa only [List.cons_append, List.map_cons, State.settle, if_pos hline, if_pos hline₂] using
        ih hdoc
    have hline₂ : t₂.kind ≠ .lineComment := ht.kind ▸ hline
    by_cases hdocKind : t₁.kind = .docComment
    · have hdocKind₂ : t₂.kind = .docComment := ht.kind ▸ hdocKind
      simpa only [List.cons_append, List.map_cons, State.settle, if_neg hline, if_neg hline₂,
        if_pos hdocKind, if_pos hdocKind₂] using ih (congrArg some ht.unplaced)
    have hdocKind₂ : t₂.kind ≠ .docComment := ht.kind ▸ hdocKind
    simp only [List.cons_append, List.map_cons, State.settle, if_neg hline, if_neg hline₂,
      if_neg hdocKind, if_neg hdocKind₂]
    have hcode : ∀ {t : Token}, t.kind ≠ .lineComment → t.kind ≠ .docComment →
        t.kind.isComment = false := fun h h' =>
      Bool.or_eq_false_iff.2 ⟨beq_false_of_ne h, beq_false_of_ne h'⟩
    refine ⟨rfl, rfl, hprevEnd, hdoc, t₁ :: ts₁, t₂ :: ts₂, .cons ht hts, ⟨rfl, rfl, ?_⟩,
      ⟨rfl, rfl, ?_⟩⟩
    · rintro t ht
      obtain rfl := Option.some.inj ht
      exact hcode hline hdocKind
    · rintro t ht
      obtain rfl := Option.some.inj ht
      exact hcode hline₂ hdocKind₂

theorem unknown_not_known (src : Source) : ¬(Ground.unknown src).known := not_false

theorem Bond.Twin.stands (h : B.Twin s₁ s₂) : s₁.Stands (.unknown B.left) := by
  obtain ⟨ts₁, ts₂, -, hfaces, -⟩ := h.faces
  exact hfaces.stands (unknown_not_known _)

theorem Bond.Twin.length_le (h : B.Twin s₁ s₂) : s₁.rest.length ≤ s₂.rest.length := by
  obtain ⟨ts₁, ts₂, hts, hfaces₁, hfaces₂⟩ := h.faces
  have hle := B.length_le
  have hlength := hts.length_eq
  rw [hfaces₁.rest, hfaces₂.rest]
  simp only [List.length_map, List.length_tail, List.length_append]
  omega

/-- Where a token of the part that is shared is left, that token is current in both texts. -/
theorem Bond.Twin.shared (h : B.Twin s₁ s₂) (hfree : B.Free s₁) :
    (B.tail₁ = [] ∧ B.tail₂ = [] ∧ s₁.Faces [] ∧ s₂.Faces []) ∨
      ∃ t₁ t₂ ts₁ ts₂, B.Same t₁ t₂ ∧ List.Forall₂ B.Same ts₁ ts₂ ∧
        s₁.Faces (t₁ :: (ts₁ ++ B.tail₁)) ∧ s₂.Faces (t₂ :: (ts₂ ++ B.tail₂)) ∧
        (B.tail₁ = [] ∨ ∃ t ∈ t₁ :: significant (ts₁.map .ok), t.kind ∈ closing) := by
  obtain ⟨ts₁, ts₂, hts, hfaces₁, hfaces₂⟩ := h.faces
  have hpending := hfaces₁.pending
  rw [List.map_append, significant_append] at hpending
  -- The token that can end something is one of those that are shared.
  have hclosing : B.tail₁ = [] ∨ ∃ t ∈ significant (ts₁.map .ok), t.kind ∈ closing := by
    refine hfree.imp_right ?_
    rintro ⟨t, more, ht, skipped, hskipped⟩
    rw [hpending, ← List.cons_append, ← List.append_assoc] at hskipped
    have hshared := List.append_cancel_right hskipped
    exact ⟨t, by rw [← hshared]; simp, ht⟩
  cases hts with
  | nil =>
    rcases hclosing with hnil | ⟨t, ht, -⟩
    · refine .inl ⟨hnil, (B.closed hnil).1, ?_, ?_⟩
      · simpa [hnil] using hfaces₁
      · simpa [(B.closed hnil).1] using hfaces₂
    · cases ht
  | cons ht hts =>
    rw [significant_cons (hfaces₁.code _ rfl)] at hclosing
    exact .inr ⟨_, _, _, _, ht, hts, hfaces₁, hfaces₂, hclosing⟩

/-- The current tokens are the same. -/
theorem Bond.Twin.current (h : B.Twin s₁ s₂) (hfree : B.Free s₁) :
    (s₁.current = none ∧ s₂.current = none) ∨
      ∃ t₁ t₂, s₁.current = some t₁ ∧ s₂.current = some t₂ ∧ B.Same t₁ t₂ := by
  obtain ⟨-, -, hfaces₁, hfaces₂⟩ | ⟨t₁, t₂, ts₁, ts₂, ht, -, hfaces₁, hfaces₂, -⟩ := h.shared hfree
  · exact .inl ⟨hfaces₁.current, hfaces₂.current⟩
  · exact .inr ⟨t₁, t₂, hfaces₁.current, hfaces₂.current, ht⟩

theorem Bond.Twin.kind (h : B.Twin s₁ s₂) (hfree : B.Free s₁) :
    s₁.current.map (·.kind) = s₂.current.map (·.kind) := by
  obtain ⟨h₁, h₂⟩ | ⟨t₁, t₂, h₁, h₂, ht⟩ := h.current hfree
  · rw [h₁, h₂]
  · rw [h₁, h₂, Option.map_some, Option.map_some, ht.kind]

theorem Bond.Twin.unplaced_current (h : B.Twin s₁ s₂) (hfree : B.Free s₁) :
    unplaced s₁.current = unplaced s₂.current := by
  obtain ⟨h₁, h₂⟩ | ⟨t₁, t₂, h₁, h₂, ht⟩ := h.current hfree
  · rw [h₁, h₂]
  · rw [h₁, h₂, unplaced_some, unplaced_some, ht.unplaced]

theorem Bond.Twin.advance_of_faces (h : B.Twin s₁ s₂) (ht : B.Same t₁ t₂)
    (hts : List.Forall₂ B.Same ts₁ ts₂) (hfaces₁ : s₁.Faces (t₁ :: (ts₁ ++ B.tail₁)))
    (hfaces₂ : s₂.Faces (t₂ :: (ts₂ ++ B.tail₂))) : B.Twin s₁.advance s₂.advance := by
  rw [State.advance, State.advance, h.errors₁, h.errors₂, hfaces₁.current, hfaces₂.current,
    hfaces₁.rest, hfaces₂.rest]
  exact twin_settle hts (.inl ht.stop) rfl

theorem Bond.Twin.advance (h : B.Twin s₁ s₂) (hfree : B.Free s₁) :
    B.Twin s₁.advance s₂.advance := by
  obtain ⟨hnil₁, hnil₂, hfaces₁, hfaces₂⟩ | ⟨t₁, t₂, ts₁, ts₂, ht, hts, hfaces₁, hfaces₂, -⟩ :=
    h.shared hfree
  · rw [State.advance, State.advance, h.errors₁, h.errors₂, hfaces₁.current, hfaces₂.current,
      hfaces₁.rest, hfaces₂.rest]
    have hsettle : B.Twin (State.settle s₁.prevEnd none [] (([] ++ B.tail₁).map .ok))
        (State.settle s₂.prevEnd none [] (([] ++ B.tail₂).map .ok)) :=
      twin_settle .nil h.prevEnd rfl
    rwa [hnil₁, hnil₂] at hsettle
  · exact h.advance_of_faces ht hts hfaces₁ hfaces₂

/-- The same place ends a span that is read from the same place on. -/
theorem Bond.Twin.place_max (h : B.Twin s₁ s₂) {o₁ o₂ : Nat} (ho : B.Place o₁ o₂) :
    B.Place (max s₁.prevEnd o₁) (max s₂.prevEnd o₂) := by
  obtain hplace | ⟨h₁, h₂⟩ := h.prevEnd
  · exact hplace.max ho
  · rwa [h₁, h₂, Nat.zero_max, Nat.zero_max]

end

/-! ### Looking ahead -/

section

variable {B : Bond} {s₁ s₂ : State}

theorem kind_of_rel {x y : Option Token} (h : Option.Rel B.Same x y) :
    x.map (·.kind) = y.map (·.kind) := by
  cases h with
  | some ht => rw [Option.map_some, Option.map_some, ht.kind]
  | none => rfl

theorem any_of_rel {x y : Option Token} (h : Option.Rel B.Same x y) (test : TokenKind → Bool) :
    x.any (fun t => test t.kind) = y.any (fun t => test t.kind) := by
  cases h with
  | some ht => rw [Option.any_some, Option.any_some, ht.kind]
  | none => rfl

/-- The tokens behind the shared ones are not reached within them. -/
theorem nthToken?_same {n : Nat} {ts₁ ts₂ : List Token} {more₁ more₂ : List Lexeme}
    (hts : List.Forall₂ B.Same ts₁ ts₂)
    (hn : n < (significant (ts₁.map .ok)).length ∨ more₁ = [] ∧ more₂ = []) :
    Option.Rel B.Same (State.nthToken? n (ts₁.map .ok ++ more₁))
        (State.nthToken? n (ts₂.map .ok ++ more₂)) ∧
      (n < (significant (ts₁.map .ok)).length →
        State.nthToken? n (ts₁.map .ok ++ more₁) = (significant (ts₁.map .ok))[n]?) := by
  induction hts generalizing n with
  | nil =>
    rcases hn with hlt | ⟨rfl, rfl⟩
    · exact absurd hlt (Nat.not_lt_zero n)
    · refine ⟨?_, fun hlt => absurd hlt (Nat.not_lt_zero n)⟩
      cases n <;> exact .none
  | @cons t₁ t₂ ts₁ ts₂ ht hts ih =>
    by_cases hcomment : t₁.kind.isComment = true
    · have hcomment₂ : t₂.kind.isComment = true := ht.kind ▸ hcomment
      cases n <;>
        simp only [List.map_cons, List.cons_append, State.nthToken?, significant, if_pos hcomment,
          if_pos hcomment₂] at hn ⊢ <;> exact ih hn
    · have hcomment₂ : ¬ t₂.kind.isComment = true := ht.kind ▸ hcomment
      cases n with
      | zero =>
        simp only [List.map_cons, List.cons_append, State.nthToken?, significant, if_neg hcomment,
          if_neg hcomment₂]
        exact ⟨.some ht, fun _ => rfl⟩
      | succ n =>
        simp only [List.map_cons, List.cons_append, State.nthToken?, significant, if_neg hcomment,
          if_neg hcomment₂, List.length_cons, Nat.add_lt_add_iff_right] at hn ⊢
        exact ih hn

/-- Behind a token that can end nothing is one that is shared. -/
theorem Bond.Twin.ahead (h : B.Twin s₁ s₂) (hfree : B.Free s₁)
    (hk : ∀ k, s₁.current.map (·.kind) = some k → k ∉ closing) :
    ∃ ts₁ ts₂ more₁ more₂, List.Forall₂ B.Same ts₁ ts₂ ∧ s₁.rest = ts₁.map .ok ++ more₁ ∧
      s₂.rest = ts₂.map .ok ++ more₂ ∧
        ((∃ t ∈ significant (ts₁.map .ok), t.kind ∈ closing) ∨ more₁ = [] ∧ more₂ = []) := by
  obtain ⟨hnil₁, hnil₂, hfaces₁, hfaces₂⟩ | ⟨t₁, t₂, ts₁, ts₂, ht, hts, hfaces₁, hfaces₂,
    hclosing⟩ :=
    h.shared hfree
  · exact ⟨[], [], [], [], .nil, hfaces₁.rest, hfaces₂.rest, .inr ⟨rfl, rfl⟩⟩
  · refine ⟨ts₁, ts₂, B.tail₁.map .ok, B.tail₂.map .ok, hts, ?_, ?_, ?_⟩
    · rw [hfaces₁.rest, List.tail_cons, List.map_append]
    · rw [hfaces₂.rest, List.tail_cons, List.map_append]
    rcases hclosing with hnil | ⟨t, ht', hkind⟩
    · exact .inr ⟨by rw [hnil]; rfl, by rw [(B.closed hnil).1]; rfl⟩
    · rcases List.mem_cons.1 ht' with rfl | ht'
      · exact absurd hkind (hk _ (by rw [hfaces₁.current]; rfl))
      · exact .inl ⟨t, ht', hkind⟩

theorem Bond.Twin.peek (h : B.Twin s₁ s₂) (hfree : B.Free s₁)
    (hk : ∀ k, s₁.current.map (·.kind) = some k → k ∉ closing) :
    Option.Rel B.Same (State.nthToken? 0 s₁.rest) (State.nthToken? 0 s₂.rest) := by
  obtain ⟨ts₁, ts₂, more₁, more₂, hts, hrest₁, hrest₂, hclosing⟩ := h.ahead hfree hk
  rw [hrest₁, hrest₂]
  refine (nthToken?_same hts (hclosing.imp_left ?_)).1
  rintro ⟨t, ht, -⟩
  exact List.length_pos_of_mem ht

/-- So it is behind two such tokens. -/
theorem Bond.Twin.peek_one (h : B.Twin s₁ s₂) (hfree : B.Free s₁)
    (hk : ∀ k, s₁.current.map (·.kind) = some k → k ∉ closing)
    (hnext : ∀ t ∈ State.nthToken? 0 s₁.rest, t.kind ∉ closing) :
    Option.Rel B.Same (State.nthToken? 1 s₁.rest) (State.nthToken? 1 s₂.rest) := by
  obtain ⟨ts₁, ts₂, more₁, more₂, hts, hrest₁, hrest₂, hclosing⟩ := h.ahead hfree hk
  rw [hrest₁] at hnext
  rw [hrest₁, hrest₂]
  refine (nthToken?_same hts (hclosing.imp_left ?_)).1
  rintro ⟨t, ht, hkind⟩
  have hpos := List.length_pos_of_mem ht
  have hzero := (@nthToken?_same B 0 ts₁ ts₂ more₁ more₂ hts (.inl hpos)).2 hpos
  cases hsig : significant (ts₁.map .ok) with
  | nil =>
    rw [hsig] at ht
    cases ht
  | cons u us =>
    rw [hsig] at ht hzero
    rcases List.mem_cons.1 ht with rfl | ht
    · exact absurd hkind (hnext t hzero)
    · exact Nat.succ_lt_succ (List.length_pos_of_mem ht)

theorem modifiersThenClass_same {ts₁ ts₂ : List Token} {more₁ more₂ : List Lexeme}
    (hts : List.Forall₂ B.Same ts₁ ts₂)
    (hclosing : (∃ t ∈ significant (ts₁.map .ok), t.kind ∈ closing) ∨ more₁ = [] ∧ more₂ = []) :
    modifiersThenClass (ts₁.map .ok ++ more₁) = modifiersThenClass (ts₂.map .ok ++ more₂) := by
  induction hts with
  | nil =>
    rcases hclosing with ⟨t, ht, -⟩ | ⟨rfl, rfl⟩
    · cases ht
    · rfl
  | @cons t₁ t₂ ts₁ ts₂ ht hts ih =>
    simp only [List.map_cons, List.cons_append, modifiersThenClass, significant,
      ← ht.kind] at hclosing ⊢
    by_cases hcomment : t₁.kind.isComment = true
    · simp only [if_pos hcomment] at hclosing ⊢
      exact ih hclosing
    simp only [if_neg hcomment] at hclosing ⊢
    by_cases hkind : t₁.kind ∈ closing
    · have hnone : ∀ k ∈ closing, k ≠ .kwAbstract ∧ k ≠ .kwFinal ∧ k ≠ .kwReadonly ∧
        k ≠ .kwClass := by
        decide
      obtain ⟨habstract, hfinal, hreadonly, hclass⟩ := hnone _ hkind
      split <;> first | contradiction | rfl
    · have hlater : (∃ t ∈ significant (ts₁.map .ok), t.kind ∈ closing) ∨ more₁ = [] ∧
        more₂ = [] := by
        refine hclosing.imp_left ?_
        rintro ⟨t, ht', hk⟩
        exact ⟨t, (List.mem_cons.1 ht').resolve_left fun h => hkind (h ▸ hk), hk⟩
      have hmore := ih hlater
      split <;> first | exact hmore | rfl

/-- Behind the shared tokens stands none of those that a statement goes on with after a block. -/
theorem Bond.Twin.continues {k : TokenKind} (h : B.Twin s₁ s₂) (hk : k ∈ continuing) :
    ((s₁.current.map (·.kind) == some k) = false ∧ (s₂.current.map (·.kind) == some k) = false) ∨
      ∃ t₁ t₂, s₁.current = some t₁ ∧ s₂.current = some t₂ ∧ B.Same t₁ t₂ ∧
        B.Twin s₁.advance s₂.advance := by
  obtain ⟨ts₁, ts₂, hts, hfaces₁, hfaces₂⟩ := h.faces
  cases hts with
  | nil =>
    have hne : ∀ {toks : List Token}, (∀ t ∈ toks.head?, t.kind ∉ continuing) →
        (toks.head?.map (·.kind) == some k) = false := by
      intro toks htoks
      cases toks with
      | nil => rfl
      | cons t toks =>
        refine beq_false_of_ne fun h => htoks t rfl ?_
        rwa [show t.kind = k from Option.some.inj h]
    refine .inl ⟨?_, ?_⟩
    · rw [hfaces₁.current]
      exact hne fun t ht => (B.head₁ t ht).2.2
    · rw [hfaces₂.current]
      exact hne fun t ht => (B.head₂ t ht).2.2
  | cons ht hts =>
    exact .inr ⟨_, _, hfaces₁.current, hfaces₂.current, ht,
      h.advance_of_faces ht hts hfaces₁ hfaces₂⟩

end

end PhpCheck.Grammar
