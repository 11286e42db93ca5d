import PhpCheck.Proofs.Token.Placed
import PhpCheck.Token.Lookahead

/-!
Looking ahead does not change what is handed out.

What a scan has yet to hand out is its buffer, and behind it what its scanner has yet to cut off
(`Lookahead.ahead`).  A token that is looked at only moves from the second part to the first:
`peek` reads the list and keeps it, `next` takes its head off (`peek_eq`, `next_eq`).  So the
list depends on the number of `next` calls alone, whatever was looked at in between
(`peeking_transparent`).
-/

namespace PhpCheck

namespace Scanner

variable {src : Source} {s s' : Scanner} {lexeme : Lexeme}

/-- Where no token is found, nothing but blanks were left, and they are passed over. -/
theorem rest_of_next_none (hs : s.next src = (none, s')) : s'.cursor.rest = [] := by
  obtain ⟨mode, c⟩ := s
  unfold next at hs
  cases mode with
  | markup =>
    dsimp only at hs
    split at hs
    · rename_i hc
      obtain ⟨-, rfl⟩ := Prod.mk.inj hs
      exact hc
    · split at hs <;> cases hs
  | code =>
    dsimp only at hs
    split at hs
    · rename_i hc
      obtain ⟨-, rfl⟩ := Prod.mk.inj hs
      exact hc
    · split at hs
      · split at hs <;> cases hs
      · cases hs

theorem all_of_rest_nil (hs : s.cursor.rest = []) : s.all src = [] := by
  rw [all, hs]
  rfl

theorem all_of_next_none (hs : s.next src = (none, s')) : s.all src = [] := by
  rw [← takeUpTo_eq_all (Nat.le_succ _), takeUpTo, hs]

theorem all_of_next_some (hs : s.next src = (some lexeme, s')) :
    s.all src = lexeme :: s'.all src := by
  have hlt := next_length_lt hs
  rw [← takeUpTo_eq_all (Nat.le_succ _), takeUpTo, hs]
  exact congrArg (lexeme :: ·) (takeUpTo_eq_all (Nat.le_of_lt hlt))

end Scanner

namespace Lookahead

variable {src : Source}

/-- What is yet to be handed out. -/
def ahead (src : Source) (l : Lookahead) : List Lexeme := l.buffer ++ l.scanner.all src

/-! ### One call -/

theorem ahead_fill (n : Nat) (l : Lookahead) : (l.fill src n).ahead src = l.ahead src := by
  induction n generalizing l with
  | zero => rfl
  | succ n ih =>
    rw [fill]
    split
    · rename_i s hnext
      rw [ahead, ahead, Scanner.all_of_next_none hnext,
        Scanner.all_of_rest_nil (Scanner.rest_of_next_none hnext)]
    · rename_i lexeme s hnext
      rw [ih, ahead, ahead, Scanner.all_of_next_some hnext, List.append_assoc,
        List.singleton_append]

/-- The buffer is filled with what is handed out next. -/
theorem buffer_fill (n : Nat) (l : Lookahead) :
    (l.fill src n).buffer = (l.ahead src).take (l.buffer.length + n) := by
  induction n generalizing l with
  | zero => exact List.take_left.symm
  | succ n ih =>
    rw [fill]
    split
    · rename_i s hnext
      rw [ahead, Scanner.all_of_next_none hnext, List.append_nil,
        List.take_of_length_le (Nat.le_add_right _ _)]
    · rename_i lexeme s hnext
      rw [ih, ahead, ahead, Scanner.all_of_next_some hnext, List.append_assoc,
        List.singleton_append, List.length_append, List.length_singleton, Nat.add_assoc,
        Nat.add_comm 1 n]

/-- A look ahead shows what is handed out later, and takes nothing away. -/
theorem peek_eq (n : Nat) (l : Lookahead) :
    (l.peek src n).1 = (l.ahead src)[n]? ∧ (l.peek src n).2.ahead src = l.ahead src := by
  refine ⟨?_, ahead_fill _ l⟩
  show (l.fill src (n + 1 - l.buffer.length)).buffer[n]? = _
  have hn : n < l.buffer.length + (n + 1 - l.buffer.length) := by omega
  rw [buffer_fill, List.getElem?_take_of_lt hn]

/-- A token is handed out once, the first one first. -/
theorem next_eq (l : Lookahead) :
    (l.next src).1 = (l.ahead src)[0]? ∧ (l.next src).2.ahead src = (l.ahead src).tail := by
  obtain ⟨s, buffer⟩ := l
  cases buffer with
  | cons lexeme buffer => exact ⟨rfl, rfl⟩
  | nil =>
    rw [next, ahead, List.nil_append]
    cases hnext : s.next src with
    | mk found s' =>
      cases found with
      | none =>
        rw [Scanner.all_of_next_none hnext]
        exact ⟨rfl, Scanner.all_of_rest_nil (Scanner.rest_of_next_none hnext)⟩
      | some lexeme =>
        rw [Scanner.all_of_next_some hnext]
        exact ⟨rfl, rfl⟩

/-! ### Any calls -/

/-- A call on a scan that can look ahead. -/
inductive Call where
  | peek (n : Nat)
  | next
deriving DecidableEq

/-- What a call returns, and the scan after it. -/
def call (src : Source) (l : Lookahead) : Call → Option Lexeme × Lookahead
  | .peek n => l.peek src n
  | .next => l.next src

/-- The scan after some calls. -/
def after (src : Source) (l : Lookahead) (calls : List Call) : Lookahead :=
  calls.foldl (fun l c => (l.call src c).2) l

/-- What a call on a text returns that is made after others. -/
def answer (src : Source) (calls : List Call) (c : Call) : Option Lexeme :=
  (((ofSource src).after src calls).call src c).1

/-- What those of the calls that are `next` return, one after the other. -/
def handedOut (src : Source) : Lookahead → List Call → List (Option Lexeme)
  | _, [] => []
  | l, c :: calls =>
    let (found, l) := l.call src c
    if c = .next then found :: handedOut src l calls else handedOut src l calls

theorem count_peek (n : Nat) (calls : List Call) :
    (Call.peek n :: calls).count .next = calls.count .next :=
  List.count_cons_of_ne Call.noConfusion

/-- Only `next` takes something away. -/
theorem ahead_after (l : Lookahead) (calls : List Call) :
    (l.after src calls).ahead src = (l.ahead src).drop (calls.count .next) := by
  induction calls generalizing l with
  | nil => rfl
  | cons c calls ih =>
    show (after src (l.call src c).2 calls).ahead src = _
    rw [ih]
    cases c with
    | peek n =>
      rw [count_peek]
      exact congrArg (List.drop _) (peek_eq n l).2
    | next =>
      rw [List.count_cons_self, ← List.drop_tail]
      exact congrArg (List.drop _) (next_eq l).2

theorem handedOut_eq (l : Lookahead) (calls : List Call) :
    l.handedOut src calls =
      (List.range (calls.count .next)).map fun i => (l.ahead src)[i]? := by
  induction calls generalizing l with
  | nil => rfl
  | cons c calls ih =>
    cases c with
    | peek n =>
      show handedOut src (l.peek src n).2 calls = _
      rw [ih, (peek_eq n l).2, count_peek]
    | next =>
      show (l.next src).1 :: handedOut src (l.next src).2 calls = _
      rw [ih, (next_eq l).1, (next_eq l).2, List.count_cons_self, List.range_succ_eq_map,
        List.map_cons, List.map_map]
      simp only [List.getElem?_tail, Function.comp_def, Nat.succ_eq_add_one]

/-- However looks ahead are mixed in, the tokens of a text are handed out in order, its faults
among them, and then nothing any more; and each look ahead shows what the `next` call returns
that is as many `next` calls further on. -/
theorem peeking_transparent (src : Source) (calls : List Call) :
    handedOut src (ofSource src) calls =
        (List.range (calls.count .next)).map (fun i => (tokenize src)[i]?) ∧
      ∀ k between, between.count .next = k →
        answer src calls (.peek k) = answer src (calls ++ .peek k :: between) .next := by
  refine ⟨handedOut_eq _ calls, fun k between hk => ?_⟩
  show (peek src k _).1 = (next src _).1
  have hcount : (calls ++ .peek k :: between).count .next = calls.count .next + k := by
    rw [List.count_append, count_peek, hk]
  rw [(peek_eq k _).1, (next_eq _).1, ahead_after, ahead_after, hcount, List.getElem?_drop,
    List.getElem?_drop, Nat.add_zero]

/-- Text outside tags, a closing tag in the buffer, a fault, and looks past the end. -/
theorem peeking_transparent_fault :
    let src := Source.ofString "a<?php $b ?> c<? \x60"
    let calls : List Call := [.peek 3, .next, .peek 9, .next]
    let between : List Call := [.next, .peek 3, .next, .next, .peek 0, .next]
    between.count .next = 4 ∧
      handedOut src (ofSource src) calls =
        (List.range (calls.count .next)).map (fun i => (tokenize src)[i]?) ∧
      (tokenize src)[6]?.map Except.isOk = some false ∧
      answer src calls (.peek 4) = answer src (calls ++ .peek 4 :: between) .next := by
  intro src calls between
  obtain ⟨hout, hpeek⟩ := peeking_transparent src calls
  exact ⟨rfl, hout, by decide +kernel, hpeek 4 between rfl⟩

end Lookahead

end PhpCheck
