import PhpCheck.Types.Basic

/-!
Sizes of types, by which recursion over two types at once ends.  An optional
type outweighs its content and all its sentinels together.
-/

namespace PhpCheck

mutual

def Ty.size (t : Ty) : Nat :=
  match t with
  | .map member => member.size + 1
  | .list member => member.size + 1
  | .function signature => signature.size + 1
  | .optional content _ => content.size + 6
  | _ => 1
termination_by structural t

def TyUnion.size (u : TyUnion) : Nat :=
  match u with
  | ⟨members⟩ => totalSize members + 1
termination_by structural u

/-- The size of a list of types. -/
def totalSize (ts : List Ty) : Nat :=
  match ts with
  | [] => 1
  | t :: ts => t.size + totalSize ts + 1
termination_by structural ts

def Signature.size (s : Signature) : Nat :=
  match s with
  | ⟨_, params, result, _, _, _⟩ => paramsSize params + result.size + 1
termination_by structural s

def paramsSize (ps : List Param) : Nat :=
  match ps with
  | [] => 1
  | p :: ps => p.size + paramsSize ps + 1
termination_by structural ps

def Param.size (p : Param) : Nat :=
  match p with
  | ⟨_, ty, _, _, _⟩ => unionSize? ty + 1
termination_by structural p

def unionSize? (u : Option TyUnion) : Nat :=
  match u with
  | none => 0
  | some u => u.size + 1
termination_by structural u

end

theorem Ty.size_pos (t : Ty) : 0 < t.size := by
  cases t <;> simp [Ty.size]

theorem totalSize_pos (ts : List Ty) : 0 < totalSize ts := by
  cases ts <;> simp [totalSize]

theorem totalSize_sentinel_le (s : Sentinel) : totalSize s.types ≤ 5 := by
  cases s <;> simp [Sentinel.types, totalSize, Ty.size]

end PhpCheck
