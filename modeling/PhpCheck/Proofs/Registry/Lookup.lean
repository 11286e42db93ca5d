import PhpCheck.Proofs.Registry.Reach
import PhpCheck.Registry.Lookup

/-!
Whose member a lookup finds.

The ancestors of a class are listed in the order of a search that takes the interfaces of a
class before its parent.  So what the interfaces of a class lead to stands in front of its
parent, and of all classes further up (`Registry.ancestors_split`).  A lookup that goes through
the ancestors prefers the members found there: it gives the member of the first class of the
parent chain that has one only if no interface of a class in front of that one leads to a class
that has one too (`Registry.findMember_in_front`).
-/

namespace PhpCheck

theorem ClassInfo.member?_exact (c : ClassInfo) (order : Order) (kind : MemberKind)
    (name : String) : c.member? order kind name .exact = (c.table kind).get? name := by
  unfold member?
  cases (c.table kind).get? name <;> rfl

namespace Registry

variable {r : Registry} {links : ClassInfo → List String}

/-! ### The search, step by step -/

/-- The keys of the names of some entries. -/
def entryKeys (es : List (String × Option ClassInfo)) : List String := es.map (symbolKey ·.1)

@[simp]
theorem entryKeys_cons (e : String × Option ClassInfo) (es : List (String × Option ClassInfo)) :
    entryKeys (e :: es) = symbolKey e.1 :: entryKeys es := rfl

@[simp]
theorem entryKeys_append (es es' : List (String × Option ClassInfo)) :
    entryKeys (es ++ es') = entryKeys es ++ entryKeys es' := List.map_append

theorem reach_nil (seen : List String) : r.reach links [] seen = [] := by
  rw [reach]

theorem reach_seen {name : String} {seen : List String} (hseen : symbolKey name ∈ seen)
    (rest : List String) : r.reach links (name :: rest) seen = r.reach links rest seen := by
  rw [reach, if_pos (List.contains_iff_mem.2 hseen)]

theorem reach_unknown {name : String} {seen : List String} (hnew : symbolKey name ∉ seen)
    (hnone : r.class? name = none) (rest : List String) :
    r.reach links (name :: rest) seen =
      (name, none) :: r.reach links rest (symbolKey name :: seen) := by
  rw [reach, if_neg (by simpa using hnew)]
  split
  · rfl
  · rename_i c hc
    rw [hnone] at hc
    cases hc

theorem reach_known {name : String} {seen : List String} (hnew : symbolKey name ∉ seen)
    {c : ClassInfo} (hc : r.class? name = some c) (rest : List String) :
    r.reach links (name :: rest) seen =
      (name, some c) :: r.reach links (links c ++ rest) (symbolKey name :: seen) := by
  rw [reach, if_neg (by simpa using hnew)]
  split
  · rename_i hnone
    rw [hnone] at hc
    cases hc
  · rename_i d hd
    obtain rfl : d = c := Option.some.inj (hd.symm.trans hc)
    rfl

/-- A search goes through what the first names lead to before it goes on. -/
theorem reach_append (first rest seen : List String) :
    r.reach links (first ++ rest) seen = r.reach links first seen ++
      r.reach links rest ((entryKeys (r.reach links first seen)).reverse ++ seen) := by
  fun_induction reach r links first seen with
  | case1 seen => rfl
  | case2 seen name more hs ih =>
    rw [List.cons_append, reach_seen (List.contains_iff_mem.1 hs), ih]
  | case3 seen name more hs hnone ih =>
    rw [List.cons_append, reach_unknown (by simpa using hs) hnone, ih]
    simp
  | case4 seen name more hs c hc ih =>
    rw [List.cons_append, reach_known (by simpa using hs) hc, ← List.append_assoc, ih]
    simp

/-- What starts with a class goes on with its parent. -/
theorem reach_parentLink {a : String} {seen : List String} {c : ClassInfo} {rest : List ClassInfo}
    (hchain : (r.reach parentLink [a] seen).filterMap Prod.snd = c :: rest) :
    symbolKey a ∉ seen ∧ r.class? a = some c ∧
      (r.reach parentLink c.parent.toList (symbolKey a :: seen)).filterMap Prod.snd = rest := by
  by_cases hseen : symbolKey a ∈ seen
  · rw [reach_seen hseen, reach_nil] at hchain
    cases hchain
  cases ha : r.class? a with
  | none =>
    rw [reach_unknown hseen ha, reach_nil] at hchain
    cases hchain
  | some d =>
    rw [reach_known hseen ha, List.append_nil] at hchain
    obtain ⟨rfl, hrest⟩ := List.cons.inj hchain
    exact ⟨hseen, rfl, hrest⟩

/-! ### Classes beside a chain -/

/-- A class that an interface of one of some classes leads to. -/
def Beside (r : Registry) (heirs : List ClassInfo) (d : ClassInfo) : Prop :=
  ∃ c ∈ heirs, ∃ i ∈ c.interfaces, ∃ b, r.Reaches ancestorLinks i b ∧ r.class? b = some d

theorem Beside.mono {heirs heirs' : List ClassInfo} {d : ClassInfo} (hd : r.Beside heirs d)
    (hsub : heirs ⊆ heirs') : r.Beside heirs' d := by
  obtain ⟨c, hc, hbeside⟩ := hd
  exact ⟨c, hsub hc, hbeside⟩

/-- What a search of the ancestors has entered when it comes to the name `a`, behind the classes
`heirs` of a parent chain, whose keys are `spine`: these classes and classes beside them, with all
that those beside them link to. -/
structure Passed (r : Registry) (heirs : List ClassInfo) (spine : List String) (a : String)
    (es : List (String × Option ClassInfo)) : Prop where
  listed : ∀ e ∈ es, e.2 = r.class? e.1
  beside : ∀ b d, (b, some d) ∈ es → d ∈ heirs ∨ r.Beside heirs d
  closed : ∀ b d, (b, some d) ∈ es →
    symbolKey b ∈ spine ∨ ∀ l ∈ ancestorLinks d, symbolKey l ∈ entryKeys es
  interfaces : ∀ c ∈ heirs, ∀ i ∈ c.interfaces, symbolKey i ∈ entryKeys es
  leads : ∀ b, symbolKey b ∈ spine → r.Reaches ancestorLinks b a

section

variable {heirs : List ClassInfo} {spine : List String} {a next : String} {c : ClassInfo}
  {es : List (String × Option ClassInfo)}

theorem Passed.start (a : String) : r.Passed [] [] a [] :=
  ⟨by simp, by simp, by simp, by simp, by simp⟩

theorem Passed.mem_of_key (hp : r.Passed heirs spine a es) {b : String} {d : ClassInfo}
    (hkey : symbolKey b ∈ entryKeys es) (hd : r.class? b = some d) :
    ∃ b', symbolKey b' = symbolKey b ∧ (b', some d) ∈ es := by
  obtain ⟨⟨b', o⟩, he, hk⟩ := List.mem_map.1 hkey
  obtain rfl : o = some d := (hp.listed _ he).trans ((class?_congr hk).trans hd)
  exact ⟨b', hk, he⟩

theorem Passed.leads_parent (hp : r.Passed heirs spine a es) (ha : r.class? a = some c)
    (hparent : c.parent = some next) (b : String) (hb : symbolKey b ∈ symbolKey a :: spine) :
    r.Reaches ancestorLinks b next := by
  have hstep : r.Reaches ancestorLinks a next :=
    .link (.refl a) ha (List.mem_append_right _ (by simp [hparent])) rfl
  rcases List.mem_cons.1 hb with hk | hb
  · exact Reaches.trans (.alike hk) hstep
  · exact (hp.leads b hb).trans hstep

/-- The name was entered before, from the interface of an heir.  Then so was all that it
links to. -/
theorem Passed.skip (hp : r.Passed heirs spine a es) (hnew : symbolKey a ∉ spine)
    (ha : r.class? a = some c) (hparent : c.parent = some next)
    (hseen : symbolKey a ∈ entryKeys es) :
    symbolKey next ∈ entryKeys es ∧ r.Passed (heirs ++ [c]) (symbolKey a :: spine) next es := by
  obtain ⟨b, hkey, hb⟩ := hp.mem_of_key hseen ha
  have hlinks : ∀ l ∈ ancestorLinks c, symbolKey l ∈ entryKeys es :=
    (hp.closed b c hb).resolve_left (hkey ▸ hnew)
  have hsub : heirs ⊆ heirs ++ [c] := List.subset_append_left _ _
  refine ⟨hlinks next (List.mem_append_right _ (by simp [hparent])), hp.listed, ?_, ?_, ?_,
    hp.leads_parent ha hparent⟩
  · intro b d hd
    exact (hp.beside b d hd).imp (fun h => hsub h) fun h => h.mono hsub
  · intro b d hd
    exact (hp.closed b d hd).imp_left (List.mem_cons_of_mem _)
  · intro d hd i hi
    rcases List.mem_append.1 hd with hd | hd
    · exact hp.interfaces d hd i hi
    · obtain rfl := List.mem_singleton.1 hd
      exact hlinks i (List.mem_append_left _ hi)

/-- The name is entered now, and then all that the interfaces of its class lead to. -/
theorem Passed.enter (hp : r.Passed heirs spine a es) (ha : r.class? a = some c)
    (hparent : c.parent = some next) :
    r.Passed (heirs ++ [c]) (symbolKey a :: spine) next (es ++ (a, some c) ::
      r.reach ancestorLinks c.interfaces (symbolKey a :: (entryKeys es).reverse)) := by
  obtain ⟨hentered, hclosed⟩ := @reachKeys_closed r ancestorLinks c.interfaces
    (symbolKey a :: (entryKeys es).reverse)
  have hsub : heirs ⊆ heirs ++ [c] := List.subset_append_left _ _
  have hkeys : ∀ k, k ∈ symbolKey a :: (entryKeys es).reverse ∨
      k ∈ r.reachKeys ancestorLinks c.interfaces (symbolKey a :: (entryKeys es).reverse) →
      k ∈ entryKeys (es ++ (a, some c) ::
        r.reach ancestorLinks c.interfaces (symbolKey a :: (entryKeys es).reverse)) := by
    intro k hk
    rw [entryKeys_append, entryKeys_cons, List.mem_append, List.mem_cons]
    rw [List.mem_cons, List.mem_reverse] at hk
    rcases hk with (hk | hk) | hk
    · exact .inr (.inl hk)
    · exact .inl hk
    · exact .inr (.inr hk)
  refine ⟨?_, ?_, ?_, ?_, hp.leads_parent ha hparent⟩
  · intro e he
    rcases List.mem_append.1 he with he | he
    · exact hp.listed e he
    · rcases List.mem_cons.1 he with rfl | he
      · exact ha.symm
      · exact (reaches_of_mem_reach he).1
  · intro b d hd
    rcases List.mem_append.1 hd with hd | hd
    · exact (hp.beside b d hd).imp (fun h => hsub h) fun h => h.mono hsub
    · rcases List.mem_cons.1 hd with heq | hd
      · cases heq
        exact .inl (by simp)
      · obtain ⟨hclass, i, hi, hreach⟩ := reaches_of_mem_reach hd
        exact .inr ⟨c, by simp, i, hi, b, hreach, hclass.symm⟩
  · intro b d hd
    rcases List.mem_append.1 hd with hd | hd
    · refine (hp.closed b d hd).imp (List.mem_cons_of_mem _) fun hlinks l hl => ?_
      exact hkeys _ (.inl (List.mem_cons_of_mem _ (List.mem_reverse.2 (hlinks l hl))))
    · rcases List.mem_cons.1 hd with heq | hd
      · cases heq
        exact .inl List.mem_cons_self
      · exact .inr fun l hl => hkeys _ (hclosed b d hd l hl)
  · intro d hd i hi
    rcases List.mem_append.1 hd with hd | hd
    · refine hkeys _ (.inl (List.mem_cons_of_mem _ (List.mem_reverse.2 ?_)))
      exact hp.interfaces d hd i hi
    · obtain rfl := List.mem_singleton.1 hd
      exact hkeys _ (hentered i hi)

/-- If no interface of an heir leads to the class at `a`, then none leads back to an heir, and all
classes beside the heirs have been entered. -/
theorem Passed.beside_entered (hp : r.Passed heirs spine a es) {owner : ClassInfo}
    (ha : r.class? a = some owner) (hout : ¬r.Beside heirs owner) {d : ClassInfo}
    (hd : r.Beside heirs d) : ∃ b, (b, some d) ∈ es := by
  obtain ⟨c, hc, i, hi, b, hreach, hclass⟩ := hd
  have hkey : symbolKey b ∈ entryKeys es := by
    clear hclass
    induction hreach with
    | alike hk => exact hk ▸ hp.interfaces c hc i hi
    | @link b d l c' hab hc' hl hk ih =>
      obtain ⟨b', hkb, he⟩ := hp.mem_of_key ih hc'
      rcases hp.closed b' c' he with hspine | hlinks
      · exact absurd ⟨c, hc, i, hi, a, (hab.congr hkb.symm).trans (hp.leads b' hspine), ha⟩ hout
      · exact hk ▸ hlinks l hl
  obtain ⟨b', -, he⟩ := hp.mem_of_key hkey hclass
  exact ⟨b', he⟩

end

/-- In front of a class of a parent chain the ancestors have the classes before it in the chain
and classes beside these, and all of those unless it is beside them itself. -/
theorem Passed.exists_split {heirs mid after : List ClassInfo} {spine : List String} {a : String}
    {es : List (String × Option ClassInfo)} {owner : ClassInfo}
    (hp : r.Passed heirs spine a es) (hnew : owner ∉ heirs ++ mid)
    (hchain : (r.reach parentLink [a] spine).filterMap Prod.snd = mid ++ owner :: after) :
    ∃ xs ys, (es ++ r.reach ancestorLinks [a] (entryKeys es).reverse).filterMap Prod.snd =
        xs ++ owner :: ys ∧
      (∀ d ∈ xs, d ∈ heirs ++ mid ∨ r.Beside (heirs ++ mid) d) ∧
      (r.Beside (heirs ++ mid) owner ∨ ∀ d, r.Beside (heirs ++ mid) d → d ∈ xs) := by
  induction mid generalizing heirs spine a es with
  | nil =>
    obtain ⟨-, ha, -⟩ := reach_parentLink hchain
    rw [List.append_nil] at hnew ⊢
    have hclasses : ∀ es' : List (String × Option ClassInfo), es' ⊆ es →
        ∀ d ∈ es'.filterMap Prod.snd, d ∈ heirs ∨ r.Beside heirs d := by
      intro es' hsub d hd
      obtain ⟨⟨b, o⟩, he, rfl⟩ := List.mem_filterMap.1 hd
      exact hp.beside b d (hsub he)
    by_cases hseen : symbolKey a ∈ entryKeys es
    · obtain ⟨b, -, hb⟩ := hp.mem_of_key hseen ha
      have hbeside : r.Beside heirs owner := (hp.beside b owner hb).resolve_left hnew
      rw [reach_seen (List.mem_reverse.2 hseen), reach_nil, List.append_nil]
      obtain ⟨es₁, es₂, rfl⟩ := List.append_of_mem hb
      refine ⟨es₁.filterMap Prod.snd, es₂.filterMap Prod.snd, ?_,
        hclasses es₁ (List.subset_append_left _ _), .inl hbeside⟩
      rw [List.filterMap_append, List.filterMap_cons]
    · rw [reach_known (by simpa using hseen) ha, List.filterMap_append, List.filterMap_cons]
      refine ⟨es.filterMap Prod.snd, _, rfl, hclasses es (List.Subset.refl es), ?_⟩
      refine Classical.or_iff_not_imp_left.2 fun hout d hd => ?_
      obtain ⟨b, he⟩ := hp.beside_entered ha hout hd
      exact List.mem_filterMap.2 ⟨_, he, rfl⟩
  | cons c mid ih =>
    obtain ⟨hspine, ha, hrest⟩ := reach_parentLink hchain
    cases hparent : c.parent with
    | none =>
      rw [hparent, Option.toList_none, reach_nil] at hrest
      simp at hrest
    | some next =>
      rw [hparent, Option.toList_some] at hrest
      have hassoc : heirs ++ c :: mid = heirs ++ [c] ++ mid := by simp
      rw [hassoc] at hnew ⊢
      by_cases hseen : symbolKey a ∈ entryKeys es
      · obtain ⟨hnext, hpassed⟩ := hp.skip hspine ha hparent hseen
        have hsame : r.reach ancestorLinks [a] (entryKeys es).reverse =
            r.reach ancestorLinks [next] (entryKeys es).reverse := by
          rw [reach_seen (List.mem_reverse.2 hseen), reach_seen (List.mem_reverse.2 hnext)]
        rw [hsame]
        exact ih hpassed hnew hrest
      · have hpassed := hp.enter ha hparent
        have hlinks : ancestorLinks c ++ [] = c.interfaces ++ [next] := by
          rw [ancestorLinks, hparent, List.append_nil, Option.toList_some]
        rw [reach_known (by simpa using hseen) ha, hlinks, reach_append]
        have hmore := ih hpassed hnew hrest
        simpa using hmore

/-- In front of a class of its parent chain, the ancestors of a class have the classes before that
one in the chain and what their interfaces lead to. -/
theorem ancestors_split {name : String} {heirs after : List ClassInfo} {owner : ClassInfo}
    (hchain : r.parentChain name = heirs ++ owner :: after) (hnew : owner ∉ heirs) :
    ∃ xs ys, r.ancestors name = xs ++ owner :: ys ∧
      (∀ d ∈ xs, d ∈ heirs ∨ r.Beside heirs d) ∧
      (r.Beside heirs owner ∨ ∀ d, r.Beside heirs d → d ∈ xs) := by
  have hstart : r.Passed [] [] name [] := .start name
  exact hstart.exists_split hnew hchain

/-! ### Lookups -/

/-- What a lookup that arrived at a member says of it. -/
def verdict (r : Registry) (name : String) (calling : Option String) (m : Member) : Lookup :=
  if r.isVisible m calling then .found (.ofMember m name) else .inaccessible (.ofMember m name)

/-- An exact lookup goes through the table of the kind that was asked for in all ancestors, before
it looks at another table. -/
theorem findMember_of_ancestors {className name : String} {c : ClassInfo} {kind : MemberKind}
    {m : Member} (hc : r.class? className = some c) (hdeclared : c.placeholder = false)
    (hfirst : (r.ancestors className).findSome? (fun d => (d.table kind).get? name) = some m)
    (calling : Option String) :
    r.findMember className kind name calling = r.verdict name calling m := by
  have hsearch : r.search? className kind name .exact = some m := by
    unfold search?
    simp only [ClassInfo.member?_exact]
    cases kind <;> simp only [searched, List.findSome?_cons, hfirst]
  unfold findMember
  rw [hc]
  dsimp only
  rw [hdeclared, hsearch]
  rfl

/-- For a member that some class of the parent chain has: a lookup gives the member of the first
such class if nothing beside the classes before it has one.  If something beside them has one,
the lookup gives a member from beside them. -/
theorem findMember_in_front {className name : String} {c owner : ClassInfo} {kind : MemberKind}
    {heirs after : List ClassInfo} {m : Member}
    (hc : r.class? className = some c) (hdeclared : c.placeholder = false)
    (hchain : r.parentChain className = heirs ++ owner :: after)
    (hheirs : ∀ d ∈ heirs, (d.table kind).get? name = none)
    (hm : (owner.table kind).get? name = some m) (calling : Option String) :
    ((∀ d, r.Beside heirs d → d ≠ owner → (d.table kind).get? name = none) →
      r.findMember className kind name calling = r.verdict name calling m) ∧
    ((∃ d, r.Beside heirs d ∧ ((d.table kind).get? name).isSome = true) →
      ∃ d m', r.Beside heirs d ∧ (d.table kind).get? name = some m' ∧
        r.findMember className kind name calling = r.verdict name calling m') := by
  have hnew : owner ∉ heirs := by
    intro hmem
    rw [hheirs owner hmem] at hm
    cases hm
  obtain ⟨xs, ys, hancestors, hfront, hall⟩ := ancestors_split hchain hnew
  let get (d : ClassInfo) : Option Member := (d.table kind).get? name
  have hfirst : (r.ancestors className).findSome? get = (xs.findSome? get).or (some m) := by
    rw [hancestors, List.findSome?_append, List.findSome?_cons]
    show _ = (xs.findSome? get).or (some m)
    rw [show get owner = some m from hm]
  have hfound : ∀ m', (xs.findSome? get).or (some m) = some m' →
      r.findMember className kind name calling = r.verdict name calling m' := fun m' h =>
    findMember_of_ancestors hc hdeclared (hfirst.trans h) calling
  -- What is found in front of the owner is beside the heirs, which have no such member.
  have hbeside : ∀ d ∈ xs, ∀ m', get d = some m' → r.Beside heirs d := by
    intro d hd m' hget
    refine (hfront d hd).resolve_left fun hmem => ?_
    rw [show get d = none from hheirs d hmem] at hget
    cases hget
  refine ⟨fun hnone => hfound m ?_, fun ⟨d, hd, hsome⟩ => ?_⟩
  · cases hxs : xs.findSome? get with
    | none => rfl
    | some m' =>
      obtain ⟨d, hd, hget⟩ := List.exists_of_findSome?_eq_some hxs
      by_cases heq : d = owner
      · subst heq
        exact hget.symm.trans hm
      · rw [show get d = none from hnone d (hbeside d hd m' hget) heq] at hget
        cases hget
  · cases hxs : xs.findSome? get with
    | some m' =>
      obtain ⟨e, he, hget⟩ := List.exists_of_findSome?_eq_some hxs
      exact ⟨e, m', hbeside e he m' hget, hget, hfound m' (by rw [hxs]; rfl)⟩
    | none =>
      rcases hall with howner | hall
      · exact ⟨owner, m, howner, hm, hfound m (by rw [hxs]; rfl)⟩
      · have hget : get d = none := List.findSome?_eq_none_iff.1 hxs d (hall d hd)
        rw [show (d.table kind).get? name = none from hget] at hsome
        cases hsome

/-- A constant `X`. -/
def constantX (owner : String) (ty : Ty) : Member := { name := "X", ty := .of ty, owner }

/-- An interface with a constant. -/
def labelled : ClassInfo :=
  { name := "I", kind := .interface
    constants := .ofList [("X", constantX "I" (.int none))] }

/-- A class with a constant of the same name. -/
def labelledParent : ClassInfo :=
  { name := "P", constants := .ofList [("X", constantX "P" (.string none))] }

/-- A class that has the constant of its parent and that of an interface. -/
def heir : ClassInfo := { name := "C", parent := some "P", interfaces := ["I"] }

def contested : Registry :=
  ((({} : Registry).addClass labelled).addClass labelledParent).addClass heir

/-- The interface comes before the parent. -/
theorem findMember_in_front_interface :
    contested.parentChain "C" = [heir, labelledParent] ∧
      (labelledParent.table .constant).get? "X" = some (constantX "P" (.string none)) ∧
      contested.findMember "C" .constant "X" none =
        contested.verdict "X" none (constantX "I" (.int none)) := by
  have hc : contested.class? "C" = some heir := by cbv
  have hp : contested.class? "P" = some labelledParent := by cbv
  have hi : contested.class? "I" = some labelled := by cbv
  have hchain : contested.parentChain "C" = [heir, labelledParent] := by
    have hnew : symbolKey "P" ∉ [symbolKey "C"] := by decide +kernel
    rw [parentChain, reach_known List.not_mem_nil hc]
    show (_ :: contested.reach parentLink ["P"] [symbolKey "C"]).filterMap Prod.snd = _
    rw [reach_known hnew hp]
    show (_ :: _ :: contested.reach parentLink [] _).filterMap Prod.snd = _
    rw [reach_nil]
    rfl
  have hm : (labelledParent.table .constant).get? "X" = some (constantX "P" (.string none)) := by
    cbv
  have hlabelled : (labelled.table .constant).get? "X" = some (constantX "I" (.int none)) := by cbv
  have hbeside : contested.Beside [heir] labelled :=
    ⟨heir, List.mem_singleton_self _, "I", List.mem_singleton_self _, "I", .refl _, hi⟩
  have hheir : ∀ d ∈ [heir], (d.table .constant).get? "X" = none := by
    intro d hd
    rw [List.mem_singleton.1 hd]
    rfl
  have hsplit : contested.parentChain "C" = [heir] ++ labelledParent :: [] := hchain
  obtain ⟨d, m, ⟨c, hheir, i, hlink, b, hreach, hd⟩, hget, hfound⟩ :=
    (findMember_in_front hc rfl hsplit hheir hm none).2 ⟨labelled, hbeside, by rw [hlabelled]; rfl⟩
  obtain rfl := List.mem_singleton.1 hheir
  obtain rfl : i = "I" := List.mem_singleton.1 hlink
  have honly : symbolKey "I" = symbolKey b := by
    clear hd
    induction hreach with
    | alike hk => exact hk
    | link _ hb hl _ ih =>
      rw [← class?_congr ih, hi] at hb
      cases hb
      cases hl
  rw [← class?_congr honly, hi] at hd
  cases hd
  cases hlabelled.symm.trans hget
  exact ⟨hchain, hm, hfound⟩

end Registry

end PhpCheck
