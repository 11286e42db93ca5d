import PhpCheck.Check.Flow
import PhpCheck.Proofs.Check.Lower
import PhpCheck.Proofs.Types.Capacity
import PhpCheck.Proofs.Types.Coverage
import PhpCheck.Proofs.Types.Truth

/-!
Conditions, their outcomes and their negations.

A condition is decided in advance when its type is a single value, or when the true or the false
part of the type is empty.  No value of the type then has the other truth
(`Branches.isTruthy_of_known?`), so a branch that is not followed could never have been
taken.

How a condition is checked depends neither on the role in which it stands nor on what stands
around it (`Check.split_inField`, `Rules.below_split`), so it can be told of each connective what
it makes of its operands.  The negation of a condition has its outcomes exchanged, and takes the
same steps; a condition with two operands and the one with the other connective and both operands
negated are negations of each other (`Check.condition_deMorgan`).
-/

namespace PhpCheck

section

variable {c : Constant} {t : Ty}

/-! ### The values of one type -/

/-- A refined type has the one value, as far as truth is concerned. -/
theorem Constant.isTruthy_of_value? {k : Constant} (hk : t.value? = some k)
    (hct : c.toTy.matches .flat t = true) : c.isTruthy = k.isTruthy := by
  cases t with
  | bool x | int x | string x =>
    cases x <;> simp only [Ty.value?, reduceCtorEq, Option.some.injEq] at hk
    subst hk
    cases c <;> simp_all [Constant.toTy, Ty.matches, refines]
  | float x =>
    cases x <;> simp only [Ty.value?, reduceCtorEq, Option.some.injEq] at hk
    subst hk
    cases c <;> simp [Constant.toTy, Ty.matches, refinesFloat, sameFloat] at hct
    rw [Constant.isTruthy, Constant.isTruthy, Double.isZero_of_same hct]
  | null =>
    obtain rfl := Option.some.inj hk
    cases c <;> simp_all [Constant.toTy, Ty.matches]
  | _ => simp [Ty.value?] at hk

theorem Constant.isTruthy_of_mem_types {s : Sentinel} (hs : c.toTy ∈ s.types) :
    c.isTruthy = false := by
  cases c <;> cases s <;> simp_all [Constant.toTy, Sentinel.types, Constant.isTruthy]

/-- A type without a true part has no true value. -/
theorem Constant.isTruthy_of_truthy?_eq_none (hf : t.functionFree = true)
    (ht : t.truthy? = none) (hct : c.toTy.matches .flat t = true) : c.isTruthy = false := by
  induction t using Ty.induct with
  | optional d s ih =>
    rcases matches_optional_iff.1 hct with hs | hd
    · exact isTruthy_of_mem_types hs
    · exact ih (by simpa [Ty.functionFree] using hf) (by simpa [Ty.truthy?] using ht) hd
  | leaf t _ ho _ =>
    rcases truthy_or_falsy ho hf hct with ⟨r, hr, -⟩ | ⟨-, hfalse, -⟩
    · simp [ht] at hr
    · exact hfalse
  | map u _ | list u _ | function f _ _ => simp [Ty.truthy?] at ht

/-- A type without a false part has no false value. -/
theorem Constant.isTruthy_of_falsy?_eq_none (hf : t.functionFree = true)
    (ht : t.falsy? = none) (hct : c.toTy.matches .flat t = true) : c.isTruthy = true := by
  have ho : t.isOptional = false := by
    cases t with
    | optional d s => cases s <;> simp [Ty.falsy?] at ht
    | _ => rfl
  rcases truthy_or_falsy ho hf hct with ⟨r, hr, hcr⟩ | ⟨⟨r, hr, -⟩, -⟩
  · refine isTruthy_of_truthy? ?_ hr hcr
    cases t with
    | bool x => cases x <;> simp [Ty.value?]
    | int x | float x | string x => cases x <;> simp_all [Ty.value?, Ty.falsy?]
    | mixed | null | map u | list u => simp [Ty.falsy?] at ht
    | void | resource | classOf | object => cases c <;> simp [Constant.toTy, Ty.matches] at hct
    | function f => simp [Ty.functionFree] at hf
    | optional d s => cases ho
  · simp [ht] at hr

theorem Ty.truthy?_ne_void (t : Ty) : t.truthy? ≠ some .void := by
  intro ht
  induction t using Ty.induct with
  | optional d s ih => exact ih (by simpa [Ty.truthy?] using ht)
  | leaf t _ ho _ =>
    rcases Ty.truthy?_eq_some ht with rfl | ⟨-, hv⟩ | ⟨d, s, rfl, -⟩
    · simp [Ty.truthy?] at ht
    · cases hv
    · cases ho
  | map u _ | list u _ | function f _ _ => simp [Ty.truthy?] at ht

theorem Ty.falsy?_ne_void (t : Ty) : t.falsy? ≠ some .void := by
  intro ht
  unfold Ty.falsy? at ht
  split at ht <;> try split at ht
  all_goals cases ht

end

/-! ### The values of a union -/

/-- Where the pieces of all alternatives are none together, each has none. -/
theorem TyUnion.eq_none_of_isEmpty_filterMap {u : TyUnion} {g : Ty → Option Ty}
    (hg : ∀ m ∈ u.members, ∀ r, g m = some r → r.WellFormed ∧ r ≠ .void)
    (he : (ofList (u.members.filterMap g)).isEmpty = true) : ∀ m ∈ u.members, g m = none := by
  intro m hm
  rw [Option.eq_none_iff_forall_ne_some]
  intro r hr
  have hpieces : ∀ t ∈ u.members.filterMap g, t.WellFormed := by
    intro t ht
    obtain ⟨x, hx, hxt⟩ := List.mem_filterMap.1 ht
    exact (hg x hx t hxt).1
  exact (hg m hm r hr).2
    (eq_void_of_isEmpty_ofList hpieces he r (List.mem_filterMap.2 ⟨m, hm, hr⟩))

/-- A decided condition is decided rightly: every value of its type has the truth that is
said to be known. -/
theorem Branches.isTruthy_of_known? {b : Branches} {v : Bool} (hb : b.ty.Reachable)
    (hf : b.ty.functionFree = true) (hk : b.known? = some v) :
    ∀ c, b.ty.Describes .flat c → c.isTruthy = v := by
  rintro c ⟨m, hm, hcm⟩
  have hw := hb.wellFormed.mem
  have hfree := TyUnion.functionFree_iff.1 hf
  unfold Branches.known? at hk
  split at hk
  · rename_i k hvalue
    obtain ⟨t, hsingle, ht⟩ := Option.bind_eq_some_iff.1 hvalue
    have hmt : m = t := by
      unfold TyUnion.single? at hsingle
      split at hsingle
      · rename_i hu
        rw [hu] at hm
        rw [List.mem_singleton.1 hm]
        exact Option.some.inj hsingle
      · cases hsingle
    rw [← Option.some.inj hk]
    exact Constant.isTruthy_of_value? ht (hmt ▸ hcm)
  · split at hk
    · cases hk
    · split at hk
      · rename_i htrue _
        rw [← Option.some.inj hk]
        refine Constant.isTruthy_of_truthy?_eq_none (hfree m hm) ?_ hcm
        exact TyUnion.eq_none_of_isEmpty_filterMap
          (fun x hx r hr => ⟨(hw x hx).truthy hr, fun hv => x.truthy?_ne_void (hv ▸ hr)⟩) htrue m hm
      · rename_i _ hfalse
        rw [← Option.some.inj hk]
        refine Constant.isTruthy_of_falsy?_eq_none (hfree m hm) ?_ hcm
        exact TyUnion.eq_none_of_isEmpty_filterMap
          (fun x hx r hr => ⟨(hw x hx).falsy hr, fun hv => x.falsy?_ne_void (hv ▸ hr)⟩) hfalse m hm
      · cases hk

/-- A condition that is null or false cannot hold. -/
theorem Branches.null_or_false_is_decided :
    let b := Branches.unchanged (.of (.optional (.bool (some false)) .null)) .empty
    b.ty.Describes .flat .null ∧ b.known? = some false ∧
      ∀ c, b.ty.Describes .flat c → c.isTruthy = false := by
  intro b
  have hb : b.ty.members = [.optional (.bool (some false)) .null] :=
    TyUnion.members_of (by simp)
  have hr : b.ty.Reachable := .add .empty (.optional (c := .bool (some false)) (.bool _) .null)
  have hf : b.ty.functionFree = true := by
    rw [TyUnion.functionFree_iff, hb]
    simp [Ty.functionFree]
  have hu : b.ty = ⟨[.optional (.bool (some false)) .null]⟩ := congrArg TyUnion.mk hb
  have htrue : b.ty.truthy.isEmpty = true := by
    rw [hu]
    rfl
  have hfalse : b.ty.falsy.isEmpty = false := by
    have hnull : b.ty.falsy = .of .null := by
      rw [hu]
      rfl
    rw [hnull, TyUnion.isEmpty, TyUnion.members_of (by simp)]
    rfl
  have hk : b.known? = some false := by
    have hvalue : b.ty.value? = none := by
      rw [hu]
      rfl
    have hknown : b.ty.isUnknown = false := by
      rw [hu]
      rfl
    simp [Branches.known?, hvalue, hknown, htrue, hfalse]
  refine ⟨⟨_, by rw [hb]; exact List.mem_singleton_self _, ?_⟩, hk,
    Branches.isTruthy_of_known? hr hf hk⟩
  exact Constant.matches_optional_iff.2 (.inl (by simp [Constant.toTy, Sentinel.types]))

open Check

/-! ### Negation -/

/-- A condition with its outcomes exchanged. -/
def Branches.negate (b : Branches) : Branches := ⟨truth (b.known?.map (!·)), b.split.negate⟩

/-- The connective with the other decisive outcome. -/
def Connective.dual : Connective → Connective
  | .conjunction => .disjunction
  | .disjunction => .conjunction

theorem Branches.known?_truth (known : Option Bool) (s : Split) :
    (⟨truth known, s⟩ : Branches).known? = known := by
  -- The outcome is read off the type alone.
  have htype : (⟨truth known, s⟩ : Branches).known? =
      (⟨truth known, default⟩ : Branches).known? := rfl
  rw [htype]
  rcases known with - | - | - <;> decide +kernel

theorem Branches.negate_mk (known : Option Bool) (s : Split) :
    (⟨truth known, s⟩ : Branches).negate = ⟨truth (known.map (!·)), s.negate⟩ := by
  rw [negate, known?_truth]

theorem Branches.known?_negate (b : Branches) : b.negate.known? = b.known?.map (!·) :=
  known?_truth _ _

theorem Split.negate_combine (c : Connective) (s t : Split) :
    (c.combine s t).negate = c.dual.combine s.negate t.negate := by
  cases c <;> rfl

theorem Split.on_negate (s : Split) (outcome : Bool) : s.negate.on outcome = s.on (!outcome) := by
  cases outcome <;> rfl

namespace Connective

theorem decisive_dual (c : Connective) : c.dual.decisive = !c.decisive := by cases c <;> rfl

theorem known?_dual (c : Connective) (left right : Option Bool) :
    c.dual.known? (left.map (!·)) (right.map (!·)) = (c.known? left right).map (!·) := by
  cases c <;> rcases left with - | - | - <;> rcases right with - | - | - <;> rfl

end Connective

/-! ### The role of a node -/

namespace Node

theorem height_inField (node : Node) (field : String) :
    (node.inField field).height = node.height := by
  rw [height_eq, height_eq]
  rfl

end Node

namespace Rules

/-- The role of a node makes no difference for the rule for it. -/
theorem visitNode_inField (r : Rules) (node : Node) (field : String) :
    r.visitNode (node.inField field) = r.visitNode node := by
  cases node
  rfl

theorem splitNode_inField (r : Rules) (node : Node) (field : String) :
    r.splitNode r.visitNode (node.inField field) = r.splitNode r.visitNode node := by
  rw [splitNode, splitNode, visitNode_inField]
  cases node
  rfl

end Rules

/-! ### Conditions on their own -/

/-- Checks a node as a condition, from which its outcomes are told. -/
def Check.split (node : Node) : Check Branches :=
  (Rules.below node.height).splitNode (Rules.below node.height).visitNode node

/-- Checks a node as a condition. -/
def Check.condition (node : Node) : Check Branches := do
  let b ← Check.split node
  setEnv b.split.joined
  return b

/-- The rules for nodes of any height. -/
def Rules.all : Rules := { visit := Check.visit, split := Check.split }

namespace Rules

variable {height : Nat} {node : Node}

theorem below_split (hnode : node.height < height) :
    (below height).split node = Check.split node := by
  rw [below, Check.split]
  exact if_pos hnode

/-- Wherever a node is checked as a condition, it is checked alike. -/
theorem below_condition (hnode : node.height < height) :
    (below height).condition node = Check.condition node := by
  rw [Rules.condition, Check.condition, below_split hnode]

end Rules

theorem Check.visit_inField (node : Node) (field : String) :
    Check.visit (node.inField field) = Check.visit node := by
  rw [Check.visit, Check.visit, Node.height_inField, Rules.visitNode_inField]

theorem Check.split_inField (node : Node) (field : String) :
    Check.split (node.inField field) = Check.split node := by
  rw [Check.split, Check.split, Node.height_inField, Rules.splitNode_inField]

theorem Check.condition_inField (node : Node) (field : String) :
    Check.condition (node.inField field) = Check.condition node := by
  rw [Check.condition, Check.condition, Check.split_inField]

/-! ### Connectives -/

/-- The ways to write a connective. -/
abbrev Connective.Word (c : Connective) := { word : String // Connective.ofText? word = some c }

namespace Node

/-- `!operand` -/
def negation (span place : Span) (operand : Node) : Node :=
  .ofKind .unaryExpression span
    [(leaf .operator place "!").inField "operator", operand.inField "operand"]

/-- `left word right` -/
def connected {c : Connective} (word : c.Word) (span place : Span) (left right : Node) : Node :=
  .ofKind .binaryExpression span
    [left.inField "left", (leaf .operator place word).inField "operator", right.inField "right"]

end Node

namespace Check

variable {c : Connective} (span place : Span) (left right : Node)

theorem split_negation (operand : Node) :
    Check.split (.negation span place operand) = Branches.negate <$> Check.split operand := by
  let node := Node.negation span place operand
  have hoperand : node.childBy? "operand" = some (operand.inField "operand") := rfl
  have hlogical : (Rules.below node.height).logical? node = some (do
      let inner ← (Rules.below node.height).split (operand.inField "operand")
      return inner.negate) := rfl
  rw [Check.split, Rules.splitNode, hlogical]
  dsimp only
  rw [Rules.below_split (Node.height_childBy?_lt hoperand), split_inField, map_eq_pure_bind]

theorem split_connected (word : c.Word) :
    Check.split (.connected word span place left right) = Rules.all.connect c left right := by
  let node := Node.connected word span place left right
  let r := Rules.below node.height
  have hleft : node.childBy? "left" = some (left.inField "left") := rfl
  have hright : node.childBy? "right" = some (right.inField "right") := rfl
  have hword : node.fieldText? "operator" = some word.1 := rfl
  have hlogical : r.logical? node =
      some (r.connect c (left.inField "left") (right.inField "right")) := by
    have hkind : node.kind = .binaryExpression := rfl
    rw [Rules.logical?, hkind, hword, hleft, hright]
    dsimp only [Option.getD_some]
    rw [word.2]
  rw [Check.split, Rules.splitNode, hlogical]
  dsimp only [Rules.connect, r]
  rw [Rules.below_split (Node.height_childBy?_lt hleft), split_inField,
    Rules.below_split (Node.height_childBy?_lt hright), split_inField]
  rfl

end Check

/-- A connective takes the same steps as its dual on negated operands, and tells the
opposite. -/
theorem Rules.connect_dual {r : Rules} {c : Connective} {left right left' right' : Node}
    (hleft : r.split left' = Branches.negate <$> r.split left)
    (hright : r.split right' = Branches.negate <$> r.split right) :
    r.connect c.dual left' right' = Branches.negate <$> r.connect c left right := by
  rw [connect, connect, hleft, hright, map_bind, bind_map_left]
  refine bind_congr fun first => ?_
  rw [Branches.known?_negate, c.decisive_dual]
  have hon : ∀ outcome, first.negate.split.on (!outcome) = first.split.on outcome := by
    intro outcome
    rw [Branches.negate, Split.on_negate, Bool.not_not]
  by_cases hdecided : first.known? = some c.decisive
  · rw [if_pos hdecided, if_pos (by rw [hdecided]; rfl), map_bind, hon]
    refine bind_congr fun e => ?_
    rw [map_pure]
    exact congrArg pure (Branches.negate_mk (some c.decisive) (.unchanged e)).symm
  · have hundecided : first.known?.map (!·) ≠ some (!c.decisive) := fun h => by
      obtain ⟨known, hknown, heq⟩ := Option.map_eq_some_iff.1 h
      exact hdecided (hknown.trans (congrArg some (Bool.not_inj heq)))
    rw [if_neg hdecided, if_neg hundecided, map_bind, hon]
    refine bind_congr fun _ => ?_
    rw [bind_map_left, map_bind]
    refine bind_congr fun second => ?_
    rw [map_pure, Branches.known?_negate, c.known?_dual]
    refine congrArg pure ((Branches.negate_mk _ _).trans ?_).symm
    rw [Split.negate_combine]
    rfl

/-- The negation of a condition with two operands is the condition with the other connective
and the operands negated: both take the same steps, from any state of the checker, and tell the
same. -/
theorem Check.condition_deMorgan (c : Connective) (word : c.Word) (word' : c.dual.Word)
    (outer outerPlace inner innerPlace whole place first firstPlace second secondPlace : Span)
    (left right : Node) :
    Check.condition (.negation outer outerPlace (.connected word inner innerPlace left right)) =
      Check.condition (.connected word' whole place (.negation first firstPlace left)
        (.negation second secondPlace right)) := by
  rw [Check.condition, Check.condition, split_negation, split_connected, split_connected,
    Rules.connect_dual (split_negation first firstPlace left)
      (split_negation second secondPlace right)]

end PhpCheck
