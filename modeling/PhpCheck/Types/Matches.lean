import PhpCheck.Types.Equality
import PhpCheck.Types.Size

/-!
When a value of one type may be used where another is required.
-/

namespace PhpCheck

/-- What the subtype test needs to know of classes. -/
structure Hierarchy where
  /-- The first class is the second, or inherits from it. -/
  isSubclass : String → String → Bool
  /-- Instances of the class convert to text. -/
  isStringable : String → Bool

/-- Names are compared without regard to the case of ASCII letters. -/
def sameName (a b : String) : Bool := a.toLower == b.toLower

/-- Classes without inheritance. -/
def Hierarchy.flat : Hierarchy := { isSubclass := sameName, isStringable := fun _ => false }

/-- A refined value fits where no refinement, or the same one, is required. -/
def refines {α : Type} [BEq α] (value expected : Option α) : Bool :=
  expected.isNone || value == expected

def refinesFloat (value expected : Option Double) : Bool :=
  expected.isNone || sameFloat value expected

/-- The union of one type; the empty type leaves the empty union. -/
def Ty.alone : Ty → List Ty
  | .void => []
  | t => [t]

def TyUnion.isMixed : TyUnion → Bool
  | ⟨[.mixed]⟩ => true
  | _ => false

mutual

/-- Whether a value of type `a` may be used where `e` is required.  Anything may
be used as `mixed`, and `mixed` as nothing else. -/
def Ty.matches (h : Hierarchy) (a e : Ty) : Bool :=
  match a, e with
  | _, .mixed => true
  | .mixed, _ => false
  | .void, _ => true
  | _, .void => false
  | .optional content sentinel, e => content.matches h e && allMatch h sentinel.types e
  | a, .optional content sentinel =>
    (Sentinel.ofTy? a).any sentinel.contains || a.matches h content
  | .bool x, .bool y => refines x y
  | .int x, .int y => refines x y
  | .int _, .float none => true
  | .float x, .float y => refinesFloat x y
  | .string x, .string y => refines x y
  | .null, .null => true
  | .resource, .resource => true
  | .list x, .list y => x.membersMatch h y
  | .list x, .map y => x.membersMatch h y
  | .map x, .list y => x.membersMatch h y
  | .map x, .map y => x.membersMatch h y
  | .function f, .function g => f.matches h g
  | .function _, .object name => sameName name "Closure"
  | .object name, .function g => g.any && h.isSubclass name "Closure"
  | .string _, .function g => g.any
  | .list _, .function g => g.any
  | .object x, .object y => h.isSubclass x y
  | .object x, .classOf y => h.isSubclass x y
  | .classOf x, .classOf y => h.isSubclass x y
  | .object name, .string none => h.isStringable name
  | _, _ => false
termination_by a.size + e.size
decreasing_by
  all_goals simp only [Ty.size]
  all_goals try omega
  have := totalSize_sentinel_le sentinel
  have := content.size_pos
  omega

/-- Whether all of some types may be used as `e`. -/
def allMatch (h : Hierarchy) (ts : List Ty) (e : Ty) : Bool :=
  match ts with
  | [] => true
  | t :: ts => t.matches h e && allMatch h ts e
termination_by totalSize ts + e.size
decreasing_by
  all_goals simp only [totalSize]
  · have := totalSize_pos ts
    omega
  · omega

/-- Whether a value of type `a` may be used as one of some types. -/
def matchesAny (h : Hierarchy) (a : Ty) (es : List Ty) : Bool :=
  match es with
  | [] => false
  | e :: es => a.matches h e || matchesAny h a es
termination_by a.size + totalSize es
decreasing_by
  all_goals simp only [totalSize]
  · have := totalSize_pos es
    omega
  · omega

/-- Member types fit when one of them is unknown or one complies with the other. -/
def TyUnion.membersMatch (h : Hierarchy) (u e : TyUnion) : Bool :=
  u.members.isEmpty || e.members.isEmpty || e.isMixed || allComply h u.members e.members
termination_by u.size + e.size
decreasing_by
  cases u
  cases e
  simp only [TyUnion.size]
  omega

/-- Whether every one of some types may be used as one of the types `es`.  The
content and the sentinels of an optional type may find their places apart. -/
def allComply (h : Hierarchy) (ts es : List Ty) : Bool :=
  match ts with
  | [] => true
  | t :: ts =>
    (t.isMixed || matchesAny h t es
      || match t with
        | .optional content sentinel =>
          allComply h content.alone es && allComply h sentinel.types es
        | _ => false)
      && allComply h ts es
termination_by totalSize ts + totalSize es
decreasing_by
  · simp only [totalSize]
    have := totalSize_pos ts
    omega
  · have : totalSize content.alone ≤ content.size + 2 := by
      cases content <;> simp [Ty.alone, totalSize]
    simp only [totalSize, Ty.size]
    omega
  · have := totalSize_sentinel_le sentinel
    simp only [totalSize, Ty.size]
    omega
  · simp only [totalSize]
    omega

/-- Whether a function may stand in for another: its result must fit, and its
parameters must take what the other's take. -/
def Signature.matches (h : Hierarchy) (f g : Signature) : Bool :=
  g.any || f.any
    || (decide (f.requiredCount ≤ g.params.length) && paramsMatch h f.params g.params
      && (g.result.isMixed || allComply h f.result.members g.result.members))
termination_by f.size + g.size
decreasing_by
  all_goals
    obtain ⟨_, _, ⟨_⟩, _, _, _⟩ := f
    obtain ⟨_, _, ⟨_⟩, _, _, _⟩ := g
    simp only [Signature.size, TyUnion.size]
    omega

/-- Whether each parameter takes what its counterpart takes. -/
def paramsMatch (h : Hierarchy) (ps qs : List Param) : Bool :=
  match ps, qs with
  | ⟨_, some mine, _, _, _⟩ :: ps, ⟨_, some theirs, _, _, _⟩ :: qs =>
    (mine.isMixed || allComply h theirs.members mine.members) && paramsMatch h ps qs
  | _ :: ps, _ :: qs => paramsMatch h ps qs
  | _, _ => true
termination_by paramsSize ps + paramsSize qs
decreasing_by
  · obtain ⟨_⟩ := mine
    obtain ⟨_⟩ := theirs
    simp only [paramsSize, Param.size, unionSize?, TyUnion.size]
    omega
  all_goals
    simp only [paramsSize]
    omega

end

/-- Whether every member of a union may be used as some member of another. -/
def TyUnion.compliesWith (h : Hierarchy) (u e : TyUnion) : Bool :=
  e.isMixed || allComply h u.members e.members

end PhpCheck
