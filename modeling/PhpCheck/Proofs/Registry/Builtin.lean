import PhpCheck.Builtin.Basic
import PhpCheck.Proofs.Registry.Reach

/-!
Which classes are known to begin with.

The registry that programs start from has the listed classes and no others
(`Builtin.hasClass_registry`), whatever functions and constants were entered before them.
-/

namespace PhpCheck

namespace Registry

theorem hasClass_putClass (r : Registry) (c : ClassInfo) (name : String) :
    (r.putClass c).hasClass name = true ↔
      symbolKey c.name = symbolKey name ∨ r.hasClass name = true := by
  show ((r.classes.insert (symbolKey c.name) c).get? (symbolKey name)).isSome = true ↔ _
  rw [Table.get?_insert]
  by_cases hkey : symbolKey c.name = symbolKey name
  · simp [hkey]
  · simp [hkey, hasClass, class?]

theorem hasClass_addClass (r : Registry) (c : ClassInfo) (name : String) :
    (r.addClass c).hasClass name = true ↔
      symbolKey c.name = symbolKey name ∨ r.hasClass name = true := by
  rw [addClass]
  split
  · rename_i hdeclared
    have hknown : symbolKey c.name = symbolKey name → r.hasClass name = true := by
      intro hkey
      obtain ⟨info, hinfo⟩ := Option.isSome_iff_exists.1 hdeclared
      rw [hasClass, ← class?_congr hkey, (Option.filter_eq_some_iff.1 hinfo).1]
      rfl
    exact ⟨.inr, fun h => h.elim hknown id⟩
  · exact hasClass_putClass r c name

theorem hasClass_addClasses (cs : List ClassInfo) (r : Registry) (name : String) :
    (cs.foldl addClass r).hasClass name = true ↔
      (∃ c ∈ cs, symbolKey c.name = symbolKey name) ∨ r.hasClass name = true := by
  induction cs generalizing r with
  | nil => simp
  | cons c cs ih =>
    rw [List.foldl_cons, ih, hasClass_addClass, List.exists_mem_cons_iff]
    exact ⟨fun h => h.elim (.inl ∘ .inr) fun h => h.elim (.inl ∘ .inl) .inr,
      fun h => h.elim (fun h => h.elim (.inr ∘ .inl) .inl) (.inr ∘ .inr)⟩

theorem foldl_classes {α : Type} {f : Registry → α → Registry}
    (hf : ∀ r a, (f r a).classes = r.classes) (as : List α) (r : Registry) :
    (as.foldl f r).classes = r.classes := by
  induction as generalizing r with
  | nil => rfl
  | cons a as ih => rw [List.foldl_cons, ih, hf]

theorem hasClass_entered {α β γ : Type} {f : Registry → α → Registry}
    {g : Registry → β → Registry} {h : Registry → γ → Registry}
    (hf : ∀ r a, (f r a).classes = r.classes) (hg : ∀ r b, (g r b).classes = r.classes)
    (hh : ∀ r c, (h r c).classes = r.classes) (as : List α) (bs : List β) (gs : List γ)
    (cs : List ClassInfo) (name : String) :
    (cs.foldl addClass (gs.foldl h (bs.foldl g (as.foldl f {})))).hasClass name = true ↔
      ∃ c ∈ cs, symbolKey c.name = symbolKey name := by
  have hempty : (gs.foldl h (bs.foldl g (as.foldl f {}))).hasClass name = false := by
    rw [hasClass, class?, foldl_classes hh, foldl_classes hg, foldl_classes hf]
    rfl
  rw [hasClass_addClasses, hempty]
  simp

theorem addFunction_classes (r : Registry) (name : String) (f : Signature) :
    (r.addFunction name f).classes = r.classes := by
  rw [addFunction]
  split <;> rfl

theorem addConstant_classes (r : Registry) (name : String) (ty : TyUnion) :
    (r.addConstant name ty).classes = r.classes := by
  rw [addConstant]
  split <;> rfl

end Registry

/-- Which classes are declared does not depend on the order of their members. -/
theorem Registry.declaredClass?_order (r : Registry) (order : ClassInfo.Order) (name : String) :
    { r with order }.declaredClass? name = r.declaredClass? name := rfl

namespace Builtin

/-- The classes that a program may use from the start are the listed ones. -/
theorem hasClass_registry (name : String) : registry.hasClass name = true ↔
    ∃ c ∈ allClasses, symbolKey c.name = symbolKey name := by
  rw [registry]
  exact Registry.hasClass_entered (fun r _ => r.addFunction_classes _ _)
    (fun r _ => r.addConstant_classes _ _) (fun r _ => r.addConstant_classes _ _) _ _ _ _ name

theorem foldl_name {α : Type} {f : ClassInfo → α → ClassInfo} (hf : ∀ c a, (f c a).name = c.name)
    (as : List α) (c : ClassInfo) : (as.foldl f c).name = c.name := by
  induction as generalizing c with
  | nil => rfl
  | cons a as ih => rw [List.foldl_cons, ih, hf]

theorem toClass_name (s : ClassStub) : s.toClass.name = unrooted s.name := by
  rw [ClassStub.toClass]
  refine (foldl_name (fun c _ => ClassInfo.withTable_name c _ _) _ _).trans ?_
  refine (foldl_name (fun c _ => ClassInfo.withTable_name c _ _) _ _).trans ?_
  rfl

/-- The names of the listed classes. -/
def classNames : List String :=
  interfaces.map ClassStub.name ++ classes.map ClassStub.name ++ exceptions.map Prod.fst

theorem exists_classNames {c : ClassInfo} (hc : c ∈ allClasses) :
    ∃ name ∈ classNames, c.name = unrooted name := by
  rcases List.mem_append.1 hc with hc | hc
  · rcases List.mem_append.1 hc with hc | hc
    · obtain ⟨s, hs, rfl⟩ := List.mem_map.1 hc
      exact ⟨s.name, List.mem_append_left _ (List.mem_append_left _ (List.mem_map_of_mem hs)),
        toClass_name _⟩
    · obtain ⟨s, hs, rfl⟩ := List.mem_map.1 hc
      exact ⟨s.name, List.mem_append_left _ (List.mem_append_right _ (List.mem_map_of_mem hs)),
        toClass_name _⟩
  · obtain ⟨e, he, rfl⟩ := List.mem_map.1 hc
    exact ⟨e.1, List.mem_append_right _ (List.mem_map_of_mem he), toClass_name _⟩

theorem length_classNames :
    ∀ name ∈ classNames, (name.toList.dropWhile (· == '\\')).length ≠ 1 := by
  decide +kernel

/-- No class with a name of one letter is built in. -/
theorem declaredClass?_letter {name : String} (hletter : (symbolKey name).length = 1) :
    registry.declaredClass? name = none := by
  have hnone : registry.class? name = none := by
    rw [← Option.not_isSome_iff_eq_none]
    intro hsome
    obtain ⟨c, hc, hkey⟩ := (hasClass_registry name).1 hsome
    obtain ⟨listed, hlisted, hname⟩ := exists_classNames hc
    rw [← hkey, hname, symbolKey_unrooted] at hletter
    refine length_classNames listed hlisted ?_
    simpa [symbolKey, unrooted, String.toLower] using hletter
  rw [Registry.declaredClass?, hnone]
  rfl

end Builtin

end PhpCheck
