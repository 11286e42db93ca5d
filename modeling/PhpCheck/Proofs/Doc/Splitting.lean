import Mathlib
import PhpCheck.Doc.Comment

/-!
Where the type ends in a documented parameter.

A tag such as `@param` is followed by a type and a variable.  Two parts of the program have to
agree where the one ends and the other begins: `DocComment.splitType` goes once over the text,
counts brackets and watches for colons, and `TypeExpr.read?` reads the type by its grammar.

They agree on a type without white space exactly when the count of brackets is closed and the
type awaits no result (`DocComment.param?_iff`).  Where they do not, nothing is told of the
parameter.  This concerns types in which brackets stand within quotes or within a shape that
the grammar passes over, and types with a colon outside of brackets: constants of classes and
results of functions.  Types written without quotes, shapes, signatures and colons are always
found (`DocComment.param?_plain`).
-/

namespace PhpCheck

/-! ### Types without white space -/

/-- A text without white space. -/
def Solid (cs : List Char) : Prop := ∀ c ∈ cs, isSpace c = false

theorem Solid.of_append {a b : List Char} (h : Solid (a ++ b)) : Solid a ∧ Solid b :=
  List.forall_mem_append.1 h

theorem Solid.dropWhile {cs : List Char} (h : Solid cs) : cs.dropWhile isSpace = cs := by
  cases cs with
  | nil => rfl
  | cons c cs => rw [List.dropWhile_cons_of_neg (by simp [h c List.mem_cons_self])]

theorem Solid.trimmed {cs : List Char} (h : Solid cs) : trimmed cs = cs := by
  have hreverse : Solid cs.reverse := fun c hc => h c (List.mem_reverse.1 hc)
  rw [PhpCheck.trimmed, h.dropWhile, hreverse.dropWhile, List.reverse_reverse]

namespace DocComment

/-- How many more brackets are opened in a text than closed. -/
def level (cs : List Char) : Int := cs.countP isOpening - cs.countP isClosing

theorem level_append (a b : List Char) : level (a ++ b) = level a + level b := by
  simp only [level, List.countP_append, Nat.cast_add]
  omega

/-- A text that could go on with the result of a function: there is a colon outside of brackets,
and no operator outside of brackets behind it. -/
def AwaitsResult (cs : List Char) : Prop :=
  ∃ front back, cs = front ++ ':' :: back ∧ level front = 0 ∧
    ∀ mid c rest, back = mid ++ c :: rest → isOperator c = true → level (front ++ ':' :: mid) ≠ 0

theorem not_awaitsResult_nil : ¬ AwaitsResult [] := by
  rintro ⟨front, back, h, -⟩
  exact absurd h (by simp)

theorem awaitsResult_concat (cs : List Char) (c : Char) :
    AwaitsResult (cs ++ [c]) ↔
      c = ':' ∧ level cs = 0 ∨ AwaitsResult cs ∧ ¬ (isOperator c = true ∧ level cs = 0) := by
  constructor
  · rintro ⟨front, back, h, hlevel, hback⟩
    rcases List.eq_nil_or_concat' back with rfl | ⟨mid, last, rfl⟩
    · obtain ⟨rfl, hc⟩ := List.append_inj' h rfl
      exact .inl ⟨List.singleton_inj.1 hc, hlevel⟩
    · rw [← List.cons_append, ← List.append_assoc] at h
      obtain ⟨rfl, hc⟩ := List.append_inj' h rfl
      obtain rfl := List.singleton_inj.1 hc
      refine .inr ⟨⟨front, mid, rfl, hlevel, fun m d rest hmid => ?_⟩, fun hop => ?_⟩
      · exact hback m d (rest ++ [c]) (by simp [hmid])
      · exact hback mid c [] rfl hop.1 hop.2
  · rintro (⟨rfl, hlevel⟩ | ⟨⟨front, back, rfl, hlevel, hback⟩, hop⟩)
    · exact ⟨cs, [], rfl, hlevel, fun mid d rest h => absurd h (by simp)⟩
    · refine ⟨front, back ++ [c], by simp, hlevel, fun mid d rest h hd hmid => ?_⟩
      rcases List.eq_nil_or_concat' rest with rfl | ⟨rest, last, rfl⟩
      · obtain ⟨rfl, hc⟩ := List.append_inj' h rfl
        obtain rfl := List.singleton_inj.1 hc
        exact hop ⟨hd, hmid⟩
      · rw [← List.cons_append, ← List.append_assoc] at h
        obtain ⟨rfl, -⟩ := List.append_inj' h rfl
        exact hback mid d rest rfl hd hmid

/-! ### Going over a type -/

theorem isOpening_iff {c : Char} :
    isOpening c = true ↔ c = '<' ∨ c = '(' ∨ c = '\x7b' ∨ c = '[' := by
  simp [isOpening, or_assoc]

theorem isClosing_iff {c : Char} :
    isClosing c = true ↔ c = '>' ∨ c = ')' ∨ c = '\x7d' ∨ c = ']' := by
  simp [isClosing, or_assoc]

theorem level_opening {c : Char} (hc : isOpening c = true) :
    level [c] = 1 ∧ c ≠ ':' ∧ isOperator c = false := by
  rcases isOpening_iff.1 hc with rfl | rfl | rfl | rfl <;> decide

theorem level_closing {c : Char} (hc : isClosing c = true) :
    level [c] = -1 ∧ c ≠ ':' ∧ isOperator c = false := by
  rcases isClosing_iff.1 hc with rfl | rfl | rfl | rfl <;> decide

theorem level_other {c : Char} (hopen : isOpening c = false) (hclose : isClosing c = false) :
    level [c] = 0 := by
  simp [level, hopen, hclose]

open scoped Classical in
/-- What a split remembers of a text is its level and whether it awaits a result. -/
theorem splitType_step (front rest : List Char) {c : Char} (hc : isSpace c = false) :
    splitType front.reverse (level front) (decide (AwaitsResult front)) (c :: rest) =
      splitType (front ++ [c]).reverse (level (front ++ [c]))
        (decide (AwaitsResult (front ++ [c]))) rest := by
  have hawaits : decide (AwaitsResult (front ++ [c])) = decide _ :=
    decide_eq_decide.2 (awaitsResult_concat front c)
  rw [List.reverse_append, splitType, level_append, hawaits]
  dsimp only [List.reverse_singleton, List.singleton_append]
  cases hopen : isOpening c with
  | true =>
    obtain ⟨hlevel, hcolon, hop⟩ := level_opening hopen
    simp [hlevel, hcolon, hop]
  | false =>
    cases hclose : isClosing c with
    | true =>
      obtain ⟨hlevel, hcolon, hop⟩ := level_closing hclose
      simp [hlevel, hcolon, hop, Int.sub_eq_add_neg]
    | false =>
      have hlevel := level_other hopen hclose
      by_cases hcolon : c = ':' ∧ level front = 0
      · obtain ⟨rfl, hzero⟩ := hcolon
        simp [hlevel, hzero]
      · by_cases hop : isOperator c = true ∧ level front = 0
        · have hcolon' : c ≠ ':' := by
            rintro rfl
            exact absurd hop.1 (by decide)
          simp [hlevel, hop, hcolon']
        · have hcolon' : (c == ':' && level front == 0) = false := by simpa using hcolon
          have hop' : (isOperator c && level front == 0) = false := by simpa using hop
          simp [hlevel, hcolon', hop', hcolon, hop, hc]

open scoped Classical in
/-- Over a text without white space a split goes on. -/
theorem splitType_solid (front back rest : List Char) (hback : Solid back) :
    splitType front.reverse (level front) (decide (AwaitsResult front)) (back ++ rest) =
      splitType (front ++ back).reverse (level (front ++ back))
        (decide (AwaitsResult (front ++ back))) rest := by
  induction back generalizing front with
  | nil => rw [List.nil_append, List.append_nil]
  | cons c back ih =>
    obtain ⟨hc, hback⟩ := List.forall_mem_cons.1 hback
    rw [List.cons_append, splitType_step front _ hc, ih (front ++ [c]) hback, List.append_assoc,
      List.singleton_append]

/-- Where there is no white space any more a split goes to the end. -/
theorem splitType_end (taken : List Char) (depth : Int) (afterColon : Bool) {cs : List Char}
    (hcs : Solid cs) : splitType taken depth afterColon cs = (taken.reverse ++ cs, []) := by
  induction cs generalizing taken depth afterColon with
  | nil => rw [splitType, List.append_nil]
  | cons c cs ih =>
    obtain ⟨hc, hcs⟩ := List.forall_mem_cons.1 hcs
    have hnext : ∀ depth afterColon,
        splitType (c :: taken) depth afterColon cs = (taken.reverse ++ c :: cs, []) :=
      fun depth afterColon => by
        rw [ih _ _ _ hcs, List.reverse_cons, List.append_assoc, List.singleton_append]
    simp [splitType, hc, hnext]

/-- The split of a type and a variable with a blank between them. -/
theorem splitType_variable {ty name : List Char} (hty : Solid ty) (hname : Solid ('$' :: name))
    (hlast : ∀ c ∈ ty.getLast?, isOperator c = false ∧ c ≠ ',') :
    (level ty ≤ 0 ∧ ¬ AwaitsResult ty →
      splitType [] 0 false (ty ++ ' ' :: '$' :: name) = (ty, '$' :: name)) ∧
    (¬ (level ty ≤ 0 ∧ ¬ AwaitsResult ty) →
      splitType [] 0 false (ty ++ ' ' :: '$' :: name) = (ty ++ ' ' :: '$' :: name, [])) := by
  classical
  have hscan := splitType_solid [] ty (' ' :: '$' :: name) hty
  have hstart : decide (AwaitsResult []) = false := decide_eq_false not_awaitsResult_nil
  rw [List.nil_append, hstart] at hscan
  have hafter : ('$' :: name).dropWhile isSpace = '$' :: name := hname.dropWhile
  have hreverse : ty.reverse.dropWhile isSpace = ty.reverse :=
    Solid.dropWhile fun c hc => hty c (List.mem_reverse.1 hc)
  have hbefore : (ty.reverse.head?.any fun b => isOperator b || b == ',') = false := by
    rw [List.head?_reverse]
    cases hc : ty.getLast? with
    | none => rfl
    | some c =>
      obtain ⟨hop, hcomma⟩ := hlast c hc
      simp [hop, hcomma]
  have hrest : ∀ depth afterColon, splitType (' ' :: ty.reverse) depth afterColon ('$' :: name) =
      (ty ++ ' ' :: '$' :: name, []) := fun depth afterColon => by
    rw [splitType_end _ _ _ hname, List.reverse_cons, List.reverse_reverse, List.append_assoc]
    rfl
  have hblank : isOpening ' ' = false ∧ isClosing ' ' = false ∧ isOperator ' ' = false ∧
      isSpace ' ' = true ∧ isOperator '$' = false := by decide
  obtain ⟨hopen, hclose, hop, hspace, hdollar⟩ := hblank
  change splitType [].reverse (level []) false _ = _ at hscan
  rw [List.reverse_nil, show level [] = 0 from rfl] at hscan
  rw [hscan, splitType]
  simp only [hafter, hreverse, hbefore, hrest, List.reverse_reverse]
  by_cases hlevel : level ty ≤ 0 <;> by_cases hawaits : AwaitsResult ty <;>
    simp [hopen, hclose, hop, hspace, hdollar, hlevel, hawaits]

end DocComment

/-! ### Reading a type -/

namespace TypeExpr

open DocComment (isOperator level level_append)

/-- A text without quotes, shapes, signatures and colons. -/
def Plain (cs : List Char) : Prop :=
  ∀ c ∈ cs, c ≠ '\'' ∧ c ≠ '"' ∧ c ≠ '\x7b' ∧ c ≠ '(' ∧ c ≠ ':'

/-- What reading a type takes: nothing has to follow it, and where it is plain every bracket that
is opened in it is closed. -/
structure Whole (used : List Char) : Prop where
  last : ∀ c ∈ used.getLast?, isOperator c = false ∧ c ≠ ','
  balanced : Plain used → level used = 0

theorem Whole.nil : Whole [] := ⟨by simp, fun _ => rfl⟩

theorem Whole.append {a b : List Char} (ha : Whole a) (hb : Whole b) : Whole (a ++ b) := by
  refine ⟨fun c hc => ?_, fun h => ?_⟩
  · rw [List.getLast?_append] at hc
    cases hlast : b.getLast? with
    | none => exact ha.last c (by simpa [hlast] using hc)
    | some d => exact hb.last c (by simpa [hlast] using hc)
  · obtain ⟨hplainA, hplainB⟩ := List.forall_mem_append.1 h
    rw [level_append, ha.balanced hplainA, hb.balanced hplainB, Int.add_zero]

/-- What an operator or a comma stands in front of. -/
theorem Whole.cons {c : Char} {used : List Char} (h : Whole used) (hused : used ≠ [])
    (hc : level [c] = 0 ∨ ¬ Plain [c]) : Whole (c :: used) := by
  refine ⟨fun d hd => ?_, fun hplain => ?_⟩
  · rw [List.getLast?_cons_of_ne_nil hused] at hd
    exact h.last d hd
  · obtain ⟨hplainC, hplain⟩ := List.forall_mem_append.1 (show Plain ([c] ++ used) from hplain)
    rw [show c :: used = [c] ++ used from rfl, level_append, h.balanced hplain,
      hc.resolve_right (not_not.2 hplainC), Int.add_zero]

/-- Operators, the comma and brackets. -/
def marks : List Char := ['|', '&', ',', '<', '(', '\x7b', '[', '>', ')', '\x7d', ']']

theorem Whole.of_forall {used : List Char} (h : ∀ c ∈ used, c ∉ marks) : Whole used := by
  have hmarks : ∀ c, isOperator c = true ∨ c = ',' ∨ DocComment.isOpening c = true ∨
      DocComment.isClosing c = true → c ∈ marks := fun c hc => by
    simp only [isOperator, DocComment.isOpening, DocComment.isClosing, Bool.or_eq_true,
      beq_iff_eq] at hc
    simp only [marks, List.mem_cons, List.not_mem_nil, or_false]
    tauto
  refine ⟨fun c hc => ?_, fun _ => ?_⟩
  · have hc := h c (List.mem_of_getLast? hc)
    exact ⟨Bool.eq_false_iff.2 fun hop => hc (hmarks c (.inl hop)),
      fun hcomma => hc (hmarks c (.inr (.inl hcomma)))⟩
  · have hopen : used.countP DocComment.isOpening = 0 :=
      List.countP_eq_zero.2 fun c hc hopen => h c hc (hmarks c (.inr (.inr (.inl hopen))))
    have hclose : used.countP DocComment.isClosing = 0 :=
      List.countP_eq_zero.2 fun c hc hclose => h c hc (hmarks c (.inr (.inr (.inr hclose))))
    simp [DocComment.level, hopen, hclose]

/-- A run of characters among which there are no marks. -/
theorem Whole.takeWhile {p : Char → Bool} (hp : marks.any p = false) (cs : List Char) :
    Whole (cs.takeWhile p) :=
  .of_forall fun c hc hmark => List.any_eq_false.1 hp c hmark (List.mem_takeWhile_imp hc)

/-- A text that is enclosed in brackets or quotes. -/
theorem Whole.enclosed {a b : Char} {used : List Char}
    (hb : isOperator b = false ∧ b ≠ ',')
    (h : Plain (a :: used) → level [a] + level used + level [b] = 0) :
    Whole (a :: (used ++ [b])) := by
  refine ⟨fun c hc => ?_, fun hplain => ?_⟩
  · rw [← List.cons_append, List.getLast?_concat] at hc
    obtain rfl := Option.mem_some.1 hc
    exact hb
  · have hfront : Plain (a :: used) := fun c hc => hplain c (by
      rw [← List.cons_append]
      exact List.mem_append_left _ hc)
    rw [← h hfront, show a :: (used ++ [b]) = ([a] ++ used) ++ [b] by simp, level_append,
      level_append]

/-- A reader that takes something whole from a text without white space. -/
def Takes {α : Type} (r : Reader α) : Prop :=
  ∀ {cs : List Char} {a : α} {rest : List Char}, Solid cs → r cs = some (a, rest) →
    ∃ used, cs = used ++ rest ∧ Whole used

/-- A reader that takes something whole, and not nothing. -/
def TakesSome {α : Type} (r : Reader α) : Prop :=
  ∀ {cs : List Char} {a : α} {rest : List Char}, Solid cs → r cs = some (a, rest) →
    ∃ used, cs = used ++ rest ∧ used ≠ [] ∧ Whole used

theorem TakesSome.takes {α : Type} {r : Reader α} (h : TakesSome r) : Takes r :=
  fun hcs hr => by
    obtain ⟨used, hused, -, hwhole⟩ := h hcs hr
    exact ⟨used, hused, hwhole⟩

theorem eat?_eq_some {c : Char} {cs rest : List Char} (hcs : Solid cs)
    (h : eat? c cs = some rest) : cs = c :: rest := by
  rw [eat?, skipSpace, hcs.dropWhile] at h
  cases cs with
  | nil => simp at h
  | cons d cs =>
    dsimp only at h
    split at h
    · next heq => rw [heq, Option.some.inj h]
    · simp at h

section Readers

variable {item : Reader TypeExpr}

theorem further_takes {separator : Char} (hseparator : level [separator] = 0)
    (hitem : TakesSome item) (rounds : Nat) : Takes (further separator item rounds) := by
  intro cs ts rest hcs h
  induction rounds generalizing cs ts with
  | zero =>
    obtain ⟨-, rfl⟩ := Prod.mk.inj (Option.some.inj h)
    exact ⟨[], rfl, .nil⟩
  | succ rounds ih =>
    rw [further] at h
    cases heat : eat? separator cs with
    | none =>
      rw [heat, skipSpace, hcs.dropWhile] at h
      obtain ⟨-, rfl⟩ := Prod.mk.inj (Option.some.inj h)
      exact ⟨[], rfl, .nil⟩
    | some after =>
      obtain rfl := eat?_eq_some hcs heat
      have hafter : Solid after := (Solid.of_append (a := [separator]) hcs).2
      simp only [heat, Option.bind_eq_bind, Option.bind_eq_some_iff, Prod.exists, Option.pure_def,
        Option.some.injEq, Prod.mk.injEq] at h
      obtain ⟨first, middle, hfirst, more, last, hmore, -, rfl⟩ := h
      obtain ⟨used, rfl, hne, hwhole⟩ := hitem hafter hfirst
      obtain ⟨usedMore, rfl, hwholeMore⟩ := ih hafter.of_append.2 hmore
      refine ⟨separator :: (used ++ usedMore), by simp, ?_⟩
      exact (hwhole.append hwholeMore).cons (by simp [hne]) (.inl hseparator)

theorem separatedBy_takes {separator : Char} (hseparator : level [separator] = 0)
    (hitem : TakesSome item) : TakesSome (separatedBy separator item) := by
  intro cs ts rest hcs h
  simp only [separatedBy, Option.bind_eq_bind, Option.bind_eq_some_iff, Prod.exists,
    Option.pure_def, Option.some.injEq, Prod.mk.injEq] at h
  obtain ⟨first, middle, hfirst, more, last, hmore, -, rfl⟩ := h
  obtain ⟨used, rfl, hne, hwhole⟩ := hitem hcs hfirst
  obtain ⟨usedMore, rfl, hwholeMore⟩ := further_takes hseparator hitem _ hcs.of_append.2 hmore
  exact ⟨used ++ usedMore, by simp, by simp [hne], hwhole.append hwholeMore⟩

theorem brackets_takes (t : TypeExpr) {cs : List Char} (hcs : Solid cs) :
    ∃ used, cs = used ++ (brackets t cs).2 ∧ Whole used := by
  induction t, cs using brackets.induct with
  | case1 t rest ih =>
    have hrest : Solid rest := (Solid.of_append (a := ['[', ']']) hcs).2
    have hstep : brackets t ('[' :: ']' :: rest) = brackets (.arrayOf t) rest := rfl
    obtain ⟨used, hused, hwhole⟩ := ih hrest
    refine ⟨['[', ']'] ++ used, ?_, Whole.append ?_ hwhole⟩
    · rw [hstep, List.append_assoc, ← hused]
      rfl
    · exact @Whole.enclosed '[' ']' [] (by decide) fun _ => by decide
  | case2 t c rest hnot hspace ih =>
    exact absurd hspace (by simp [hcs c List.mem_cons_self])
  | case3 t c rest hnot hspace =>
    refine ⟨[], ?_, .nil⟩
    unfold brackets
    split
    · next heq => exact absurd heq (by simpa using hnot _)
    · next heq =>
      obtain ⟨rfl, rfl⟩ := List.cons.inj heq
      rw [if_neg hspace, List.nil_append]
    · next heq => simp at heq
  | case4 t => exact ⟨[], rfl, .nil⟩

theorem bracketed_takes (hitem : TakesSome item) : TakesSome (bracketed item) := by
  intro cs t rest hcs h
  simp only [bracketed, Option.bind_eq_bind, Option.bind_eq_some_iff, Prod.exists,
    Option.pure_def, Option.some.injEq] at h
  obtain ⟨inner, middle, hinner, h⟩ := h
  obtain ⟨used, rfl, hne, hwhole⟩ := hitem hcs hinner
  obtain ⟨usedMore, hmiddle, hwholeMore⟩ := brackets_takes inner hcs.of_append.2
  rw [h] at hmiddle
  exact ⟨used ++ usedMore, by rw [hmiddle, List.append_assoc], by simp [hne],
    hwhole.append hwholeMore⟩

theorem unionOf_takes (hitem : TakesSome item) : TakesSome (unionOf item) := by
  have hintersection : TakesSome (intersectionOf item) := by
    intro cs t rest hcs h
    simp only [intersectionOf, Option.bind_eq_bind, Option.bind_eq_some_iff, Prod.exists,
      Option.pure_def, Option.some.injEq, Prod.mk.injEq] at h
    obtain ⟨ts, after, h, -, rfl⟩ := h
    exact separatedBy_takes (by decide) (bracketed_takes hitem) hcs h
  intro cs t rest hcs h
  simp only [unionOf, Option.bind_eq_bind, Option.bind_eq_some_iff, Prod.exists,
    Option.pure_def, Option.some.injEq, Prod.mk.injEq] at h
  obtain ⟨ts, after, h, -, rfl⟩ := h
  exact separatedBy_takes (by decide) hintersection hcs h

theorem closed?_eq_some {opening closing : Char} {depth : Nat} {cs rest : List Char}
    (h : closed? opening closing depth cs = some rest) : ∃ used, cs = used ++ closing :: rest := by
  induction cs generalizing depth with
  | nil => simp [closed?] at h
  | cons c cs ih =>
    have hmore : ∀ {depth}, closed? opening closing depth cs = some rest →
        ∃ used, c :: cs = used ++ closing :: rest := fun h => by
      obtain ⟨used, rfl⟩ := ih h
      exact ⟨c :: used, rfl⟩
    unfold closed? at h
    split at h
    · exact hmore h
    · split at h
      · next hc =>
        cases depth with
        | zero => exact ⟨[], by rw [hc, Option.some.inj h, List.nil_append]⟩
        | succ depth => exact hmore h
      · exact hmore h

theorem arguments_takes (hitem : TakesSome item) : Takes (arguments item) := by
  intro cs args rest hcs h
  have hclosed : ∀ {opening closing : Char} {after rest : List Char},
      isOperator closing = false ∧ closing ≠ ',' → ¬ Plain [opening] →
      closed? opening closing 0 after = some rest →
      ∃ used, opening :: after = used ++ rest ∧ Whole used := by
    intro opening closing after rest hclosing hplain h
    obtain ⟨used, rfl⟩ := closed?_eq_some h
    refine ⟨opening :: (used ++ [closing]), by simp, .enclosed hclosing fun hall => ?_⟩
    exact absurd (List.forall_mem_append.1 (show Plain ([opening] ++ used) from hall)).1 hplain
  unfold arguments at h
  split at h
  · next after =>
    simp only [Option.bind_eq_bind, Option.bind_eq_some_iff, Prod.exists,
      Option.pure_def, Option.some.injEq, Prod.mk.injEq] at h
    obtain ⟨ts, middle, hts, last, hlast, -, rfl⟩ := h
    have hafter : Solid after := (Solid.of_append (a := ['<']) hcs).2
    obtain ⟨used, rfl, -, hwhole⟩ :=
      separatedBy_takes (by decide) (unionOf_takes hitem) hafter hts
    obtain rfl := eat?_eq_some hafter.of_append.2 hlast
    refine ⟨'<' :: (used ++ ['>']), by simp, .enclosed (by decide) fun hplain => ?_⟩
    have hused : Plain used := fun c hc => hplain c (List.mem_cons_of_mem _ hc)
    rw [hwhole.balanced hused]
    decide
  · next after =>
    simp only [Option.bind_eq_bind, Option.bind_eq_some_iff, Option.pure_def, Option.some.injEq,
      Prod.mk.injEq] at h
    obtain ⟨last, hlast, -, rfl⟩ := h
    exact hclosed (by decide) (by simp [Plain]) hlast
  · next after =>
    simp only [Option.bind_eq_bind, Option.bind_eq_some_iff] at h
    obtain ⟨last, hlast, h⟩ := h
    obtain ⟨used, hused, hwhole⟩ := hclosed (by decide) (by simp [Plain]) hlast
    rw [hused] at hcs ⊢
    cases heat : eat? ':' last with
    | none =>
      rw [heat] at h
      obtain ⟨-, rfl⟩ := Prod.mk.inj (Option.some.inj h)
      exact ⟨used, rfl, hwhole⟩
    | some result =>
      obtain rfl := eat?_eq_some hcs.of_append.2 heat
      simp only [heat, Option.bind_eq_some_iff, Prod.exists, Option.pure_def, Option.some.injEq,
        Prod.mk.injEq] at h
      obtain ⟨t, last, ht, -, rfl⟩ := h
      have hresult : Solid result := (Solid.of_append (a := [':']) hcs.of_append.2).2
      obtain ⟨usedResult, rfl, hne, hwholeResult⟩ := bracketed_takes hitem hresult ht
      refine ⟨used ++ ':' :: usedResult, by simp, hwhole.append ?_⟩
      exact hwholeResult.cons hne (.inl (by decide))
  · obtain ⟨-, rfl⟩ := Prod.mk.inj (Option.some.inj h)
    exact ⟨[], rfl, .nil⟩

/-- The name of a constant is passed over whole. -/
theorem skipConstant_takes (cs : List Char) : ∃ used, cs = used ++ skipConstant cs ∧
    Whole used := by
  unfold skipConstant
  split
  · next rest =>
    refine ⟨[':', ':'] ++ rest.takeWhile isConstantChar, ?_, Whole.append ?_ ?_⟩
    · rw [List.append_assoc, List.takeWhile_append_dropWhile]
      rfl
    · exact .of_forall (by simp [marks])
    · exact .takeWhile (by decide) rest
  · exact ⟨[], rfl, .nil⟩

theorem namedType_takes (hitem : TakesSome item) : TakesSome (namedType item) := by
  intro cs t rest hcs h
  obtain ⟨sigil, body, rfl, hsigil, h⟩ : ∃ sigil body, cs = sigil ++ body ∧ Whole sigil ∧
      (if (sigil ++ body.takeWhile isNameChar).isEmpty then none else
        (arguments item (skipConstant (body.dropWhile isNameChar))).bind fun found =>
          some (TypeExpr.named (String.ofList (sigil ++ body.takeWhile isNameChar)) found.1,
            found.2)) = some (t, rest) := by
    unfold namedType at h
    split at h
    next sigil body hbody =>
    refine ⟨sigil, body, ?_, ?_, h⟩ <;> split at hbody <;> obtain ⟨rfl, rfl⟩ := hbody
    · rfl
    · rfl
    · exact .of_forall (by simp [marks])
    · exact .nil
  split at h
  · simp at h
  next hname =>
  simp only [Option.bind_eq_some_iff, Prod.exists, Option.some.injEq, Prod.mk.injEq] at h
  obtain ⟨args, last, hargs, -, rfl⟩ := h
  obtain ⟨usedConstant, hconstant, hwholeConstant⟩ := skipConstant_takes (body.dropWhile isNameChar)
  have hbody : body = body.takeWhile isNameChar ++ (usedConstant ++
      skipConstant (body.dropWhile isNameChar)) := by
    rw [← hconstant, List.takeWhile_append_dropWhile]
  have hafter : Solid (skipConstant (body.dropWhile isNameChar)) := by
    rw [hbody] at hcs
    exact hcs.of_append.2.of_append.2.of_append.2
  obtain ⟨usedArgs, hargsText, hwholeArgs⟩ := arguments_takes hitem hafter hargs
  refine ⟨sigil ++ body.takeWhile isNameChar ++ (usedConstant ++ usedArgs), ?_, ?_, ?_⟩
  · conv_lhs => rw [hbody, hargsText]
    simp only [List.append_assoc]
  · intro hnil
    exact hname (List.isEmpty_iff.2 (List.append_eq_nil_iff.1 hnil).1)
  · exact (hsigil.append (.takeWhile (by decide) body)).append (hwholeConstant.append hwholeArgs)

theorem quoted_takes {quote : Char} (hquote : isOperator quote = false ∧ quote ≠ ',')
    (hplain : ¬ Plain [quote]) {cs rest : List Char} {t : TypeExpr}
    (h : quoted quote cs = some (t, rest)) : ∃ used, quote :: cs = used ++ rest ∧ used ≠ [] ∧
      Whole used := by
  unfold quoted at h
  split at h
  · simp at h
  next last after hafter =>
  obtain ⟨-, rfl⟩ := Prod.mk.inj (Option.some.inj h)
  have hlast : last = quote := by
    have := List.head_dropWhile_not (p := (· != quote)) (l := cs) (by simp [hafter])
    simpa [hafter] using this
  refine ⟨quote :: (cs.takeWhile (· != quote) ++ [quote]), ?_, by simp, .enclosed hquote ?_⟩
  · have htext := List.takeWhile_append_dropWhile (p := (· != quote)) (l := cs)
    rw [hafter, hlast] at htext
    conv_lhs => rw [← htext]
    simp
  · intro hall
    exact absurd (List.forall_mem_append.1
      (show Plain ([quote] ++ cs.takeWhile (· != quote)) from hall)).1 hplain

end Readers

/-- Whatever the grammar reads from a text without white space, it takes whole: by induction on
how deep types may be nested. -/
theorem atom_takes (depth : Nat) : TakesSome (atom depth) := by
  induction depth with
  | zero => intro cs t rest hcs h; simp [atom] at h
  | succ depth ih =>
    intro cs t rest hcs h
    rw [atom, skipSpace, hcs.dropWhile] at h
    cases cs with
    | nil => simp at h
    | cons c cs =>
      dsimp only at h
      have hafter : Solid cs := (Solid.of_append (a := [c]) hcs).2
      split at h
      · next hc =>
        obtain rfl := beq_iff_eq.1 hc
        simp only [Option.bind_eq_bind, Option.bind_eq_some_iff, Prod.exists, Option.pure_def,
          Option.some.injEq, Prod.mk.injEq] at h
        obtain ⟨inner, last, hinner, -, rfl⟩ := h
        obtain ⟨used, rfl, hne, hwhole⟩ := bracketed_takes ih hafter hinner
        exact ⟨'?' :: used, rfl, by simp, hwhole.cons hne (.inl (by decide))⟩
      split at h
      · next hc =>
        obtain rfl := beq_iff_eq.1 hc
        simp only [Option.bind_eq_bind, Option.bind_eq_some_iff, Prod.exists, Option.pure_def,
          Option.some.injEq, Prod.mk.injEq] at h
        obtain ⟨inner, middle, hinner, last, hlast, -, rfl⟩ := h
        obtain ⟨used, rfl, hne, hwhole⟩ := unionOf_takes ih hafter hinner
        obtain rfl := eat?_eq_some hafter.of_append.2 hlast
        refine ⟨'(' :: (used ++ [')']), by simp, by simp, .enclosed (by decide) fun hplain => ?_⟩
        exact absurd rfl (hplain '(' List.mem_cons_self).2.2.2.1
      split at h
      · next hc =>
        rcases Bool.or_eq_true_iff.1 hc with hc | hc <;> obtain rfl := beq_iff_eq.1 hc
        · exact quoted_takes (by decide) (by simp [Plain]) h
        · exact quoted_takes (by decide) (by simp [Plain]) h
      split at h
      · next hc =>
        obtain ⟨-, rfl⟩ := Prod.mk.inj (Option.some.inj h)
        refine ⟨c :: cs.takeWhile isNumberChar, ?_, by simp, ?_⟩
        · rw [List.cons_append, List.takeWhile_append_dropWhile]
        · refine Whole.append (a := [c]) (.of_forall fun d hd hmark => ?_)
            (.takeWhile (by decide) cs)
          obtain rfl := List.mem_singleton.1 hd
          have hmarks : marks.any (fun d => d.isDigit || d == '-') = false := by decide
          exact List.any_eq_false.1 hmarks d hmark hc
      · exact namedType_takes ih hcs h

/-- A type that is read from a text without white space ends in no operator and no comma; the
brackets of a plain one are closed. -/
theorem read?_whole {cs : List Char} {t : TypeExpr} (hcs : Solid cs) (h : read? cs = some t) :
    cs ≠ [] ∧ Whole cs := by
  rw [read?, hcs.trimmed] at h
  split at h
  · next rest hread =>
    obtain ⟨used, rfl, hne, hwhole⟩ := unionOf_takes (atom_takes _) hcs hread
    rw [skipSpace, hcs.of_append.2.dropWhile] at h
    split at h
    · next hempty =>
      rw [List.isEmpty_iff.1 hempty, List.append_nil]
      exact ⟨hne, hwhole⟩
    · simp at h
  · simp at h

/-- Without colons nothing awaits a result. -/
theorem Plain.not_awaitsResult {cs : List Char} (h : Plain cs) : ¬ DocComment.AwaitsResult cs := by
  rintro ⟨front, back, rfl, -⟩
  exact (h ':' (by simp)).2.2.2.2 rfl

end TypeExpr

/-! ### The comment around a parameter -/

/-- White space around a text is trimmed off, and nothing else. -/
theorem trimmed_padded (before cs after : List Char) (hbefore : ∀ c ∈ before, isSpace c = true)
    (hafter : ∀ c ∈ after, isSpace c = true) (hhead : ∀ c ∈ cs.head?, isSpace c = false)
    (hlast : ∀ c ∈ cs.getLast?, isSpace c = false) : trimmed (before ++ (cs ++ after)) = cs := by
  have hdrop : ∀ {cs : List Char}, (∀ c ∈ cs.head?, isSpace c = false) →
      cs.dropWhile isSpace = cs := fun {cs} hcs => by
    cases cs with
    | nil => rfl
    | cons c cs => rw [List.dropWhile_cons_of_neg (by simp [hcs c rfl])]
  have hreverse : cs.reverse.dropWhile isSpace = cs.reverse := hdrop fun c hc => by
    rw [List.head?_reverse] at hc
    exact hlast c hc
  rw [trimmed, List.dropWhile_append_of_pos hbefore]
  cases cs with
  | nil =>
    rw [List.nil_append, List.dropWhile_eq_nil_iff.2 hafter]
    rfl
  | cons c cs =>
    have hfront : (c :: cs ++ after).dropWhile isSpace = c :: cs ++ after :=
      hdrop fun d hd => hhead d hd
    rw [hfront, List.reverse_append,
      List.dropWhile_append_of_pos fun d hd => hafter d (List.mem_reverse.1 hd), hreverse,
      List.reverse_reverse]

theorem trimmed_self {cs : List Char} (hhead : ∀ c ∈ cs.head?, isSpace c = false)
    (hlast : ∀ c ∈ cs.getLast?, isSpace c = false) : trimmed cs = cs := by
  have h := trimmed_padded [] cs [] (by simp) (by simp) hhead hlast
  rwa [List.append_nil, List.nil_append] at h

namespace DocComment

theorem dropWord_of_not_prefix {word : List Char} {rounds : Nat} {cs : List Char}
    (h : word.isPrefixOf cs = false) : dropWord word rounds cs = cs := by
  cases rounds with
  | zero => rfl
  | succ rounds => simp [dropWord, h]

theorem dropWord_append {word : List Char} (hword : word ≠ []) {cs : List Char}
    (h : word.isPrefixOf cs = false) {rounds : Nat} (hrounds : 0 < rounds) :
    dropWord word rounds (word ++ cs) = cs := by
  obtain ⟨rounds, rfl⟩ := Nat.exists_eq_add_one_of_ne_zero hrounds.ne'
  have hprefix : word.isPrefixOf (word ++ cs) = true := List.isPrefixOf_iff_prefix.2 ⟨cs, rfl⟩
  simp [dropWord, hword, hprefix, dropWord_of_not_prefix h]

theorem leadingVariable?_variable {name : List Char} (hname : name ≠ [])
    (hchars : ∀ c ∈ name, isVariableChar c = true) :
    leadingVariable? ('$' :: name) = some (String.ofList name) := by
  have hspace : ('$' :: name).dropWhile isSpace = '$' :: name := rfl
  have hstart : ∀ {word : String}, word.toList.isPrefixOf ('$' :: name) = false →
      stripStart word ('$' :: name) = '$' :: name := dropWord_of_not_prefix
  have hamp : stripStart "&" ('$' :: name) = '$' :: name := hstart rfl
  have hdots : stripStart "..." ('$' :: name) = '$' :: name := hstart rfl
  rw [leadingVariable?, hspace, hamp, hdots]
  simp [List.takeWhile_eq_self_iff.2 hchars, hname]

/-- A comment of one line is read as the tag of this line. -/
theorem read_line {comment : String} {line text : List Char} {tag : Tag}
    (hcomment : comment.toList = "/** ".toList ++ (line ++ " */".toList)) (hlines : '\n' ∉ line)
    (hhead : ∀ c ∈ line.head?, isSpace c = false ∧ c ≠ '*')
    (hlast : ∀ c ∈ line.getLast?, isSpace c = false) (htag : tag? line = some (tag, text)) :
    read comment = add {} tag text := by
  have hbare : ∀ c ∈ line.head?, isSpace c = false := fun c hc => (hhead c hc).1
  have htrimmed : trimmed comment.toList = comment.toList := by
    refine trimmed_self (fun c hc => ?_) fun c hc => ?_
    · rw [hcomment] at hc
      obtain rfl := Option.mem_some.1 hc
      decide
    · have hend : comment.toList.getLast? = some '/' := by
        rw [hcomment, ← List.append_assoc, List.getLast?_append]
        rfl
      rw [hend] at hc
      obtain rfl := Option.mem_some.1 hc
      decide
  have hstart : stripStart "/**" comment.toList = [' '] ++ (line ++ [' ']) ++ ['*', '/'] := by
    have hword : comment.toList = "/**".toList ++ ([' '] ++ (line ++ [' ']) ++ ['*', '/']) := by
      rw [hcomment]
      simp
    rw [stripStart, hword, dropWord_append (by decide) rfl (by simp)]
  have hend : stripEnd "*/" ([' '] ++ (line ++ [' ']) ++ ['*', '/']) =
      [' '] ++ (line ++ [' ']) := by
    have hreverse : ([' '] ++ (line ++ [' ']) ++ ['*', '/']).reverse =
        "*/".toList.reverse ++ ' ' :: (line.reverse ++ [' ']) := by simp
    rw [stripEnd, hreverse, dropWord_append (by decide) rfl (by simp)]
    simp
  have hsingle : lines ([' '] ++ (line ++ [' '])) = [[' '] ++ (line ++ [' '])] := by
    refine List.splitOnP_eq_singleton fun c hc => ?_
    have hne : c ≠ '\n' := by
      rintro rfl
      simp [hlines] at hc
    simpa using hne
  have hline : trimmed ([' '] ++ (line ++ [' '])) = line :=
    trimmed_padded _ _ _ (by simp; decide) (by simp; decide) hbare hlast
  have hstar : stripStart "*" line = line := by
    cases line with
    | nil => rfl
    | cons c cs =>
      have hc : c ≠ '*' := (hhead c rfl).2
      exact dropWord_of_not_prefix (by simp [List.isPrefixOf, hc.symm])
  rw [read, htrimmed, hstart, hend, hsingle, List.foldl_cons, List.foldl_nil, hline, hstar,
    trimmed_self hbare hlast, htag]

/-- The comment of one parameter is read as one tag. -/
theorem read_param {comment : String} {text : List Char}
    (hcomment : comment.toList = "/** @param ".toList ++ (text ++ " */".toList))
    (hlines : '\n' ∉ text) (hhead : ∀ c ∈ text.head?, isSpace c = false)
    (hlast : ∀ c ∈ text.getLast?, isSpace c = false) (hne : text ≠ []) :
    read comment = add {} .param text := by
  have htag : tag? ("@param ".toList ++ text) = some (.param, text) := by
    have htext : trimmed ([' '] ++ text) = text := by
      have h := trimmed_padded [' '] text [] (by simp; decide) (by simp) hhead hlast
      rwa [List.append_nil] at h
    have hword : "param".toList.isPrefixOf ("param ".toList ++ text) = true := rfl
    have hafter : ("param ".toList ++ text).drop "param".length = [' '] ++ text := rfl
    have hblank : ([' '] ++ text).head?.any isWordChar = false := by
      rw [show ([' '] ++ text).head? = some ' ' from rfl]
      decide
    rw [show "@param ".toList ++ text = '@' :: ("param ".toList ++ text) from rfl, tag?, tagWords,
      List.findSome?_cons]
    dsimp only
    rw [if_pos hword, hafter, hblank, htext]
    rfl
  refine read_line (by rw [hcomment]; rfl) ?_ ?_ ?_ htag
  · simpa using hlines
  · exact fun c hc => by
      obtain rfl := Option.mem_some.1 hc
      decide
  · rw [List.getLast?_append_of_ne_nil _ hne]
    exact hlast

/-- Letters, digits and the underscore can stand in a variable, and are no white space. -/
theorem isVariableChar_of_ascii {c : Char} (hc : c.isAlphanum = true ∨ c = '_') :
    isVariableChar c = true ∧ isSpace c = false := by
  have hcode : 48 ≤ c.toNat ∧ c.toNat ≤ 122 := by
    rcases hc with hc | rfl
    · simp only [Char.isAlphanum, Char.isAlpha, Char.isUpper, Char.isLower, Char.isDigit,
        Bool.or_eq_true, Bool.and_eq_true, decide_eq_true_eq, UInt32.le_iff_toNat_le,
        ge_iff_le] at hc
      simp at hc
      omega
    · decide
  refine ⟨?_, ?_⟩
  · rcases hc with hc | rfl
    · simp [isVariableChar, isAlphanumeric, hc, show c.toNat < 128 by omega]
    · rfl
  · simp only [isSpace, Bool.or_eq_false_iff, Bool.and_eq_false_iff, decide_eq_false_iff_not,
      beq_eq_false_iff_ne]
    omega

section Parameter

variable {ty name : String} {t : TypeExpr} (hty : Solid ty.toList)
  (hread : TypeExpr.read? ty.toList = some t) (hname : name ≠ "")
  (hchars : ∀ c ∈ name.toList, c.isAlphanum = true ∨ c = '_')

include hty hread hname hchars

/-- A split that ends at the blank finds the parameter, and one that goes on finds nothing. -/
theorem param?_comment :
    (level ty.toList ≤ 0 ∧ ¬ AwaitsResult ty.toList →
      (read ("/** @param " ++ ty ++ " $" ++ name ++ " */")).param? name = some t) ∧
    (¬ (level ty.toList ≤ 0 ∧ ¬ AwaitsResult ty.toList) →
      (read ("/** @param " ++ ty ++ " $" ++ name ++ " */")).param? name = none) := by
  have hnameList : name.toList ≠ [] := by simpa using hname
  obtain ⟨hne, hwhole⟩ := TypeExpr.read?_whole hty hread
  have hvariable : Solid ('$' :: name.toList) :=
    List.forall_mem_cons.2 ⟨by decide, fun c hc => (isVariableChar_of_ascii (hchars c hc)).2⟩
  have hadd : read ("/** @param " ++ ty ++ " $" ++ name ++ " */") =
      add {} .param (ty.toList ++ ' ' :: '$' :: name.toList) := by
    refine read_param (by simp [String.toList_append]) ?_ (fun c hc => ?_) (fun c hc => ?_)
      (by simp)
    · have hlines : ∀ {cs : List Char}, Solid cs → '\n' ∉ cs := fun hcs hmem =>
        absurd (hcs _ hmem) (by decide)
      have hname' := hlines hvariable
      simpa [hlines hty] using hname'
    · rw [List.head?_append_of_ne_nil _ hne] at hc
      exact hty c (List.mem_of_head? hc)
    · rw [List.getLast?_append_of_ne_nil _ (by simp), List.getLast?_cons_of_ne_nil (by simp)] at hc
      exact hvariable c (List.mem_of_getLast? hc)
  obtain ⟨hfound, hlost⟩ := splitType_variable hty hvariable hwhole.last
  rw [hadd]
  refine ⟨fun h => ?_, fun h => ?_⟩
  · have hleading := leadingVariable?_variable hnameList fun c hc =>
      (isVariableChar_of_ascii (hchars c hc)).1
    unfold add
    simp only [hfound h, hread, hleading, Option.map_some]
    simp [param?]
  · have hnothing : leadingVariable? [] = none := rfl
    simp only [add, hlost h, hnothing]
    cases TypeExpr.read? (ty.toList ++ ' ' :: '$' :: name.toList) <;> rfl

/-- A documented parameter is found with its whole type exactly when the brackets in the text of
the type are closed and it awaits no result; otherwise nothing is told of the parameter. -/
theorem param?_iff :
    ((read ("/** @param " ++ ty ++ " $" ++ name ++ " */")).param? name = some t ↔
      level ty.toList ≤ 0 ∧ ¬ AwaitsResult ty.toList) ∧
    ((read ("/** @param " ++ ty ++ " $" ++ name ++ " */")).param? name = some t ∨
      (read ("/** @param " ++ ty ++ " $" ++ name ++ " */")).param? name = none) := by
  obtain ⟨hfound, hlost⟩ := param?_comment hty hread hname hchars
  by_cases h : level ty.toList ≤ 0 ∧ ¬ AwaitsResult ty.toList
  · exact ⟨iff_of_true (hfound h) h, .inl (hfound h)⟩
  · exact ⟨iff_of_false (by simp [hlost h]) h, .inr (hlost h)⟩

/-- A documented parameter is always found where its type is written without quotes, shapes,
signatures and colons. -/
theorem param?_plain (hplain : TypeExpr.Plain ty.toList) :
    (read ("/** @param " ++ ty ++ " $" ++ name ++ " */")).param? name = some t := by
  refine (param?_comment hty hread hname hchars).1 ⟨?_, hplain.not_awaitsResult⟩
  exact ((TypeExpr.read?_whole hty hread).2.balanced hplain).le

end Parameter

/-- The constant of a class is read as the class, but awaits a result: the parameter behind it is
not found. -/
theorem param?_constant :
    TypeExpr.read? "Foo::BAR".toList = some (.named "Foo" []) ∧
      (read "/** @param Foo::BAR $n */").param? "n" = none := by
  have hread : TypeExpr.read? "Foo::BAR".toList = some (.named "Foo" []) := rfl
  have hawaits : AwaitsResult "Foo::BAR".toList := by
    refine ⟨"Foo:".toList, "BAR".toList, rfl, by decide, fun mid c rest h hop => ?_⟩
    have hc : c ∈ "BAR".toList := h ▸ by simp
    have hno : ∀ c ∈ "BAR".toList, isOperator c = false := by simp; decide
    exact absurd hop (by simp [hno c hc])
  have h := @param?_iff "Foo::BAR" "n" _ (by simp [Solid]; decide) hread (by simp) (by simp)
  exact ⟨hread, h.2.resolve_left fun hfound => (h.1.1 hfound).2 hawaits⟩

end DocComment

end PhpCheck
