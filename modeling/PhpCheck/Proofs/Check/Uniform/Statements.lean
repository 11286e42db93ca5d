import PhpCheck.Proofs.Check.Paths
import PhpCheck.Proofs.Check.Uniform.Expressions

/-!
Statements are checked alike in two runs.

The paths through a statement end in environments that are alike, and control leaves it in the
same ways.  Passes over a loop that start from heads that are alike bring back what is alike, so
either both heads are settled or none is.
-/

namespace PhpCheck

open Check

variable {names? : Option NameContext} {l l' : Ledger} {r : Rules} {node : Node}

/-! ### Jumps and names -/

namespace Check.Uniform

@[grind ←]
theorem gotoStatement (node : Node) : (Rules.gotoStatement node).Uniform names? := by
  unfold Rules.gotoStatement
  grind

@[grind ←]
theorem globalDeclaration (node : Node) : (Rules.globalDeclaration node).Uniform names? := by
  unfold Rules.globalDeclaration
  grind

@[grind ←]
theorem jumpStatement (node : Node) : (Rules.jumpStatement node).Uniform names? := by
  unfold Rules.jumpStatement
  exact env_bind fun _ => agree (bind (modifyScope fun hs => hs.recordJump _ _) fun _ => pure _)

end Check.Uniform

/-! ### Paths -/

/-- Control leaves statements in the same ways, in environments that are alike. -/
structure Paths.Alike (l : Ledger) (p q : Paths) : Prop where
  flow : p.flow = q.flow
  exits : List.Forall₂ (Env.Alike l) p.exits q.exits

namespace Paths.Alike

variable {p q : Paths} {e f : Env}

theorem mono (h : p.Alike l q) (hl : l ≤ l') : p.Alike l' q :=
  ⟨h.flow, Env.alike.list.mono hl h.exits⟩

theorem empty : Paths.Alike l {} {} := ⟨rfl, .nil⟩

theorem add (h : p.Alike l q) (he : e.Alike l f) (flow : Flow) :
    (p.add flow e).Alike l (q.add flow f) := by
  unfold Paths.add
  refine ⟨by rw [h.flow], ?_⟩
  dsimp only
  split
  · exact List.rel_append h.exits (.cons he .nil)
  · exact h.exits

end Paths.Alike

/-- Paths that are alike. -/
abbrev Paths.alike : Likeness Paths := ⟨Paths.Alike, fun hl h => h.mono hl⟩

namespace Rules.Uniform

@[grind ←]
theorem statements (hr : r.Uniform names?) {nodes : List Node} (h : ∀ n ∈ nodes, n.Keeps names?) :
    (r.statements nodes).Uniform names? := by
  unfold Rules.statements
  grind

@[grind ←]
theorem block (hr : r.Uniform names?) (h : node.Keeps names?) : (r.block node).Uniform names? := by
  unfold Rules.block
  grind

@[grind ←]
theorem echoStatement (hr : r.Uniform names?) (h : node.Keeps names?) :
    (r.echoStatement node).Uniform names? := by
  unfold Rules.echoStatement
  grind

@[grind ←]
theorem expressionStatement (hr : r.Uniform names?) (h : node.Keeps names?) :
    (r.expressionStatement node).Uniform names? := by
  unfold Rules.expressionStatement
  grind

/-- A path is added that ends in the current environment. -/
theorem addPath {p q : Paths} (h : p.Alike l q) (flow : Flow) :
    Check.Agree names? l Paths.alike (do return p.add flow (← env))
      (do return q.add flow (← env)) :=
  Agree.env.bind fun _ _ _ hl he => .pure ((h.mono hl).add he flow)

/-! ### Branches -/

theorem checkArms (hr : r.Uniform names?) {arms : List (Option Node × Node)}
    (h : ∀ arm ∈ arms, (∀ test, arm.1 = some test → test.Keeps names?) ∧ arm.2.Keeps names?)
    {p q : Paths} (hpaths : p.Alike l q) :
    (r.checkArms p arms).Agree names? l Paths.alike (r.checkArms q arms) := by
  induction arms generalizing p q l with
  | nil =>
    unfold Rules.checkArms
    exact addPath hpaths _
  | cons arm arms ih =>
    obtain ⟨⟨htest, hbody⟩, harms⟩ := List.forall_mem_cons.1 h
    obtain ⟨test?, body⟩ := arm
    unfold Rules.checkArms
    cases test? with
    | none => exact (hr.visit hbody).followed fun result => addPath hpaths _
    | some test =>
      refine (hr.condition (htest test rfl)).bind fun l₁ b b' hl₁ hb => ?_
      extract_lets known rest known' rest'
      have hknown : known = known' := hb.known?_eq
      have hrest : ∀ l₂ p q, l₁ ≤ l₂ → p.Alike l₂ q →
          (rest p).Agree names? l₂ Paths.alike (rest' q) := by
        intro l₂ p q hl₂ hpaths
        dsimp only [rest, rest']
        rw [hknown]
        refine .ite (fun _ => .pure hpaths) fun _ => ?_
        refine (Agree.setEnv (hb.split.no.mono hl₂)).bind fun l₃ _ _ hl₃ _ => ?_
        exact ih harms (hpaths.mono hl₃)
      clear_value rest rest'
      rw [hknown]
      refine .ite (fun _ => hrest l₁ _ _ (le_refl l₁) (hpaths.mono hl₁)) fun _ => ?_
      refine (Agree.setEnv hb.split.yes).bind fun l₂ _ _ hl₂ _ => ?_
      refine (hr.visit hbody).followed fun result => Agree.env.bind fun l₃ e f hl₃ he => ?_
      have hl := hl₂.trans hl₃
      exact hrest l₃ _ _ hl ((hpaths.mono (hl₁.trans hl)).add he _)

theorem ifArms (h : node.Keeps names?) : ∀ arm ∈ Rules.ifArms node,
    (∀ test, arm.1 = some test → test.Keeps names?) ∧ arm.2.Keeps names? := by
  intro arm harm
  unfold Rules.ifArms at harm
  dsimp only at harm
  rcases List.mem_append.1 harm with harm | harm
  · split at harm
    · obtain rfl := List.mem_singleton.1 harm
      refine ⟨fun test htest => ?_, h.childBy? ‹_›⟩
      cases htest
      exact h.childBy? ‹_›
    · cases harm
  · obtain ⟨alternative, halternative, hmap⟩ := List.mem_filterMap.1 harm
    obtain ⟨body, hbody, rfl⟩ := Option.map_eq_some_iff.1 hmap
    have halternative := h.childrenBy halternative
    exact ⟨fun test htest => halternative.childBy? htest, halternative.childBy? hbody⟩

@[grind ←]
theorem ifStatement (hr : r.Uniform names?) (h : node.Keeps names?) :
    (r.ifStatement node).Uniform names? := by
  unfold Rules.ifStatement
  refine (hr.checkArms (ifArms h) .empty).bind fun l₁ p q _ hpaths => ?_
  refine (Check.Agree.joinPaths hpaths.exits).bind fun _ _ _ _ _ => .pure ?_
  rw [hpaths.flow]
  rfl

end Rules.Uniform

/-! ### Switches -/

/-- Clauses that run alike into the next one. -/
structure Rules.Clauses.Alike (l : Ledger) (cs ds : Rules.Clauses) : Prop where
  hasDefault : cs.hasDefault = ds.hasDefault
  fallthrough : Option.Rel (Env.Alike l) cs.fallthrough ds.fallthrough

/-- Clauses that are alike. -/
abbrev Rules.Clauses.alike : Likeness Rules.Clauses :=
  ⟨Rules.Clauses.Alike, fun hl h => ⟨h.hasDefault, Env.alike.option.mono hl h.fallthrough⟩⟩

/-- An environment that is there in both runs or in neither. -/
theorem Env.Alike.toList {e? f? : Option Env} (h : Option.Rel (Env.Alike l) e? f?) :
    List.Forall₂ (Env.Alike l) e?.toList f?.toList := by
  cases h with
  | none => exact .nil
  | some h => exact .cons h .nil

namespace Rules.Uniform

theorem switchClause (hr : r.Uniform names?) (h : node.Keeps names?) {entry entry' : Env}
    (hentry : entry.Alike l entry') {cs ds : Clauses} (hcs : cs.Alike l ds) :
    (r.switchClause entry cs node).Agree names? l Clauses.alike
      (r.switchClause entry' ds node) := by
  unfold Rules.switchClause
  have hstart : ((cs.fallthrough.map entry.merge).getD entry).Alike l
      ((ds.fallthrough.map entry'.merge).getD entry') := by
    have hfallthrough := hcs.fallthrough
    generalize cs.fallthrough = e? at hfallthrough ⊢
    generalize ds.fallthrough = f? at hfallthrough ⊢
    cases hfallthrough with
    | none => exact hentry
    | some he => exact hentry.merge he
  refine (Agree.setEnv hstart).bind fun l₁ _ _ hl₁ _ => ?_
  extract_lets body
  have hbody : ∀ hasDefault,
      (body hasDefault).Agree names? l₁ Clauses.alike (body hasDefault) := by
    intro hasDefault
    refine (hr.statements fun n hn => h.positional hn).followed fun flow => ?_
    refine Agree.env.bind fun l₂ e f _ he => .pure ⟨rfl, ?_⟩
    dsimp only
    split
    · exact .some he
    · exact .none
  clear_value body
  split
  · refine (hr.exprBy? h _).followed fun _ => ?_
    rw [hcs.hasDefault]
    exact hbody _
  · exact hbody _
  · exact .pure (Clauses.alike.mono hl₁ hcs)

@[grind ←]
theorem switchStatement (hr : r.Uniform names?) (h : node.Keeps names?) :
    (r.switchStatement node).Uniform names? := by
  unfold Rules.switchStatement
  refine (hr.exprBy? h _).followed fun _ => Agree.env.bind fun l₁ entry entry' _ hentry => ?_
  have hclauses : (node.positional.foldlM (r.switchClause entry) {}).Agree names? l₁
      Clauses.alike (node.positional.foldlM (r.switchClause entry') {}) :=
    .foldlM ⟨rfl, .none⟩ fun l' cs ds clause hclause hl' hcs =>
      hr.switchClause (h.positional hclause) (hentry.mono hl') hcs
  refine (Agree.inLoop hclauses).bind fun l₂ result result' hl₂ hresult => ?_
  obtain ⟨cs, jumps⟩ := result
  obtain ⟨ds, jumps'⟩ := result'
  obtain ⟨hcs, hjumps⟩ := hresult
  dsimp -zeta only at hcs hjumps ⊢
  extract_lets exits exits'
  have hexits : List.Forall₂ (Env.Alike l₂) exits exits' := by
    refine List.rel_append (List.rel_append (List.rel_append (Env.Alike.toList hcs.fallthrough)
      hjumps.breaks) hjumps.continues) ?_
    rw [hcs.hasDefault]
    split
    · exact .nil
    · exact .cons (hentry.mono hl₂) .nil
  clear_value exits exits'
  refine (Check.Agree.joinPaths hexits).bind fun _ _ _ _ _ => .pure ?_
  cases hexits <;> rfl

/-! ### Exceptions -/

theorem catchClause (hr : r.Uniform names?) (h : node.Keeps names?) {entry entry' : Env}
    (hentry : entry.Alike l entry') {p q : Paths} (hpaths : p.Alike l q) :
    (r.catchClause entry p node).Agree names? l Paths.alike (r.catchClause entry' q node) := by
  unfold Rules.catchClause
  refine (Agree.setEnv hentry).bind fun l₁ _ _ hl₁ _ => ?_
  have hpaths := hpaths.mono hl₁
  extract_lets next next'
  have hnext : ∀ u, (next u).Agree names? l₁ Paths.alike (next' u) := by
    intro u
    dsimp only [next, next']
    split
    · exact (hr.block (h.childBy? ‹_›)).followed fun flow => addPath hpaths flow
    · exact .pure hpaths
  clear_value next next'
  split
  · refine Agree.ofScope (fun s => ?_) fun _ => rfl
    exact (Check.Uniform.bindVariable _ _).followed hnext
  · exact hnext _

@[grind ←]
theorem tryStatement (hr : r.Uniform names?) (h : node.Keeps names?) :
    (r.tryStatement node).Uniform names? := by
  unfold Rules.tryStatement
  refine Agree.env.bind fun l₁ entry entry' _ hentry => ?_
  extract_lets next next'
  have hnext : ∀ l₂ p q, l₁ ≤ l₂ → p.Alike l₂ q →
      (next p).Agree names? l₂ .same (next' q) := by
    intro l₂ p q hl₂ hpaths
    refine Agree.env.bind fun l₃ e f hl₃ he => ?_
    refine (Agree.snapshot ((hentry.mono (hl₂.trans hl₃)).merge he)).bind
      fun l₄ handlerEntry handlerEntry' hl₄ hhandler => ?_
    have hcatches : ((node.childrenBy "catch").foldlM (r.catchClause handlerEntry) p).Agree
        names? l₄ Paths.alike ((node.childrenBy "catch").foldlM (r.catchClause handlerEntry') q) :=
      .foldlM (hpaths.mono (hl₃.trans hl₄)) fun l' p q clause hclause hl' hp =>
        hr.catchClause (h.childrenBy hclause) (hhandler.mono hl') hp
    refine hcatches.bind fun l₅ p q hl₅ hpaths => ?_
    obtain ⟨flow, exits⟩ := p
    obtain ⟨flow', exits'⟩ := q
    obtain ⟨hflow, hexits⟩ := hpaths
    dsimp -zeta only at hflow hexits ⊢
    subst hflow
    extract_lets flow
    have hempty : exits.isEmpty = exits'.isEmpty := by cases hexits <;> rfl
    rw [hempty]
    split
    · rename_i body hbody
      obtain ⟨clause, hclause, hbody⟩ := Option.bind_eq_some_iff.1 hbody
      refine (Agree.setEnv ((hhandler.mono hl₅).foldl_merge hexits)).bind fun _ _ _ _ _ => ?_
      exact (hr.block ((h.childBy? hclause).childBy? hbody)).followed fun _ => .pure rfl
    · exact (Check.Agree.joinPaths hexits).bind fun _ _ _ _ _ => .pure rfl
  clear_value next next'
  split
  · refine (hr.block (h.childBy? ‹_›)).followed fun flow => Agree.env.bind fun l₂ e f hl₂ he => ?_
    exact hnext l₂ _ _ hl₂ (Paths.Alike.empty.add he flow)
  · exact hnext l₁ _ _ (le_refl l₁) .empty

/-! ### Other statements -/

@[grind ←]
theorem returnStatement (hr : r.Uniform names?) (h : node.Keeps names?) :
    (r.returnStatement node).Uniform names? := by
  unfold Rules.returnStatement
  refine .bind (hr.exprBy? h _) fun ty => .ofScope (fun s => .ite ?_ (by grind)) fun s => ?_
  · cases ty with
    | some ty =>
      refine .bind (.modifyScope fun hs => hs.observeReturn ty) fun _ => ?_
      grind
    | none => grind
  · unfold Scope.outline
    dsimp only
    rw [Option.isSome_map]

@[grind ←]
theorem declareStatement (hr : r.Uniform names?) (h : node.Keeps names?) :
    (r.declareStatement node).Uniform names? := by
  unfold Rules.declareStatement
  grind

@[grind ←]
theorem namespaceDefinition (hr : r.Uniform names?) (h : node.Keeps names?)
    (hkind : node.kind = .namespaceDefinition) : (r.namespaceDefinition node).Uniform names? := by
  have hset := fun names => Check.Uniform.setNames (h.names_eq_none (.inl hkind)) names
  unfold Rules.namespaceDefinition
  grind

@[grind ←]
theorem useDeclaration (h : node.Keeps names?) (hkind : node.kind = .useDeclaration) :
    (Rules.useDeclaration node).Uniform names? := by
  obtain rfl := h.names_eq_none (.inr hkind)
  unfold Rules.useDeclaration
  refine .bind (.modifyScope fun hs => hs.withNames ?_) fun _ => .pure _
  rw [hs.names_eq]

@[grind ←]
theorem staticDeclaration (hr : r.Uniform names?) (h : node.Keeps names?) :
    (r.staticDeclaration node).Uniform names? := by
  unfold Rules.staticDeclaration
  grind

@[grind ←]
theorem unsetStatement (hr : r.Uniform names?) (h : node.Keeps names?) :
    (r.unsetStatement node).Uniform names? := by
  unfold Rules.unsetStatement
  refine .bind (.forM fun target htarget => .ite ?_ ?_) fun _ => .pure _
  · exact .modifyScope fun hs => hs.withEnv (hs.env.erase _)
  · have htarget := h.positional htarget
    grind

@[grind ←]
theorem declareConstants (hr : r.Uniform names?) (h : node.Keeps names?)
    {check : String → Node → Check Unit} (hcheck : ∀ name n, (check name n).Uniform names?) :
    (r.declareConstants node check).Uniform names? := by
  unfold Rules.declareConstants
  grind

@[grind ←]
theorem constDeclaration (hr : r.Uniform names?) (h : node.Keeps names?) :
    (r.constDeclaration node).Uniform names? := by
  unfold Rules.constDeclaration
  exact .bind (hr.declareConstants h .checkConstantName) fun _ => .pure _

end Rules.Uniform

/-! ### Passes over loops -/

/-- The same comes back to the heads of loops, and leaves them, in environments that are alike. -/
structure LoopPass.Alike (l : Ledger) (p q : LoopPass) : Prop where
  backEdge : Option.Rel (Env.Alike l) p.backEdge q.backEdge
  exits : List.Forall₂ (Env.Alike l) p.exits q.exits

/-- Passes over a loop that are alike. -/
abbrev LoopPass.alike : Likeness LoopPass :=
  ⟨LoopPass.Alike, fun hl h =>
    ⟨Env.alike.option.mono hl h.backEdge, Env.alike.list.mono hl h.exits⟩⟩

namespace Check

variable {pass : Check LoopPass}

theorem Agree.settle (hpass : pass.Agree names? .blank LoopPass.alike pass) (passes : Nat)
    {head head' : Env} (hhead : head.Alike l head') :
    (PhpCheck.settle pass passes head).Agree names? l Env.alike
      (PhpCheck.settle pass passes head') := by
  induction passes generalizing head head' l with
  | zero => exact .pure hhead
  | succ passes ih =>
    unfold PhpCheck.settle
    refine (Agree.setEnv hhead).bind fun l₁ _ _ hl₁ _ => ?_
    refine (hpass.mono l₁.blank_le).bind fun l₂ p q hl₂ hp => ?_
    obtain ⟨back?, exits⟩ := p
    obtain ⟨back?', exits'⟩ := q
    have hhead := hhead.mono (hl₁.trans hl₂)
    have hback := hp.backEdge
    dsimp only at hback ⊢
    cases hback with
    | none => exact .pure hhead
    | some hback =>
      obtain ⟨hnext, hchanged⟩ := hhead.mergeReport hback
      dsimp only
      rw [hchanged]
      refine .ite (fun _ => ?_) fun _ => .pure hhead
      exact (Agree.snapshot hnext).bind fun l₃ _ _ _ he => ih he

theorem Uniform.runLoop (hpass : pass.Agree names? .blank LoopPass.alike pass) :
    (PhpCheck.runLoop pass).Uniform names? := by
  unfold PhpCheck.runLoop
  refine Agree.env.bind fun l₁ e f _ he => ?_
  refine (Agree.quietly (.settle hpass _ he)).bind fun l₂ head head' _ hhead => ?_
  refine (Agree.setEnv hhead).bind fun l₃ _ _ _ _ => ?_
  refine (hpass.mono l₃.blank_le).bind fun l₄ last last' _ hlast => ?_
  have hjoined := Env.Alike.joinAll? hlast.exits
  generalize Env.joinAll? last.exits = joined? at hjoined ⊢
  generalize Env.joinAll? last'.exits = joined?' at hjoined ⊢
  cases hjoined with
  | none => exact .pure rfl
  | some h => exact (Agree.setEnv h).bind fun _ _ _ _ _ => .pure rfl

end Check

namespace Rules.Uniform

/-! ### Bodies and conditions -/

theorem loopBody (hr : r.Uniform names?) (h : node.Keeps names?) :
    (r.loopBody node).Agree names? l (Env.alike.option.prod Env.alike.list) (r.loopBody node) := by
  unfold Rules.loopBody
  have hbody : Check.Agree names? l (Likeness.same.prod Env.alike)
      (do
        let flow := (← r.visit node).flow
        return (flow, ← env))
      (do
        let flow := (← r.visit node).flow
        return (flow, ← env)) :=
    (hr.visit h).followed fun result => Agree.env.bind fun _ _ _ _ he => .pure ⟨rfl, he⟩
  refine (Agree.inLoop hbody).bind fun l₁ result result' _ hresult => .pure ?_
  obtain ⟨⟨flow, last⟩, jumps⟩ := result
  obtain ⟨⟨flow', last'⟩, jumps'⟩ := result'
  obtain ⟨⟨hflow, hlast⟩, hjumps⟩ := hresult
  have hends : List.Forall₂ (Env.Alike l₁)
      (jumps.continues ++ if flow.isNormal then [last] else [])
      (jumps'.continues ++ if flow'.isNormal then [last'] else []) := by
    refine List.rel_append hjumps.continues ?_
    cases hflow
    split
    · exact .cons hlast .nil
    · exact .nil
  exact ⟨Env.Alike.joinAll? hends, hjumps.breaks⟩

theorem conditionExits {b b' : Branches} (hb : b.Alike l b') :
    List.Forall₂ (Env.Alike l) (Rules.conditionExits b) (Rules.conditionExits b') := by
  unfold Rules.conditionExits
  rw [hb.known?_eq]
  split
  · exact .nil
  · exact .cons hb.split.no .nil

theorem enterBody (hr : r.Uniform names?) {test? : Option Node}
    (h : ∀ test, test? = some test → test.Keeps names?) :
    (r.enterBody test?).Agree names? l (Likeness.same.prod Env.alike.list)
      (r.enterBody test?) := by
  cases test? with
  | none => exact .pure ⟨rfl, .nil⟩
  | some test =>
    unfold Rules.enterBody
    refine (hr.condition (h test rfl)).bind fun l₁ b b' _ hb => ?_
    rw [hb.known?_eq]
    refine .ite (fun _ => .pure ⟨rfl, conditionExits hb⟩) fun _ => ?_
    refine (Agree.setEnv hb.split.yes).bind fun l₂ _ _ hl₂ _ => ?_
    exact .pure ⟨rfl, conditionExits (hb.mono hl₂)⟩

/-! ### Passes -/

theorem whilePass (hr : r.Uniform names?) {test body : Node} (htest : test.Keeps names?)
    (hbody : body.Keeps names?) :
    (r.whilePass test body).Agree names? .blank LoopPass.alike (r.whilePass test body) := by
  unfold Rules.whilePass
  refine (hr.enterBody fun n hn => Option.some.inj hn ▸ htest).bind
    fun l₁ entered entered' _ h => ?_
  obtain ⟨enters, exits⟩ := entered
  obtain ⟨enters', exits'⟩ := entered'
  obtain ⟨henters, hexits⟩ := h
  cases henters
  refine .ite (fun _ => ?_) fun _ => .pure ⟨.none, hexits⟩
  refine (hr.loopBody hbody).bind fun l₂ ends ends' hl₂ hends => .pure ⟨hends.1, ?_⟩
  exact List.rel_append (Env.alike.list.mono hl₂ hexits) hends.2

theorem doWhilePass (hr : r.Uniform names?) {test body : Node} (htest : test.Keeps names?)
    (hbody : body.Keeps names?) :
    (r.doWhilePass test body).Agree names? .blank LoopPass.alike (r.doWhilePass test body) := by
  unfold Rules.doWhilePass
  refine (hr.loopBody hbody).bind fun l₁ ends ends' _ hends => ?_
  obtain ⟨bodyEnd, breaks⟩ := ends
  obtain ⟨bodyEnd', breaks'⟩ := ends'
  obtain ⟨hend, hbreaks⟩ := hends
  dsimp only at hend hbreaks ⊢
  cases hend with
  | none => exact .pure ⟨.none, hbreaks⟩
  | some hend =>
    refine (Agree.setEnv hend).bind fun l₂ _ _ hl₂ _ => ?_
    refine (hr.condition htest).bind fun l₃ b b' hl₃ hb => .pure ⟨?_, ?_⟩
    · dsimp only
      rw [hb.known?_eq]
      split
      · exact .none
      · exact .some hb.split.yes
    · exact List.rel_append (Env.alike.list.mono (hl₂.trans hl₃) hbreaks) (conditionExits hb)

theorem forPass (hr : r.Uniform names?) {conditions : List Node} {update : Option Node}
    {body : Node} (hconditions : ∀ n ∈ conditions, n.Keeps names?)
    (hupdate : ∀ n, update = some n → n.Keeps names?) (hbody : body.Keeps names?) :
    (r.forPass conditions update body).Agree names? .blank LoopPass.alike
      (r.forPass conditions update body) := by
  unfold Rules.forPass
  refine (hr.exprs fun n hn => hconditions n (List.mem_of_mem_dropLast hn)).followed fun _ => ?_
  refine (hr.enterBody fun test htest =>
    hconditions test (List.mem_of_getLast? htest)).bind fun l₁ entered entered' _ h => ?_
  obtain ⟨enters, exits⟩ := entered
  obtain ⟨enters', exits'⟩ := entered'
  obtain ⟨henters, hexits⟩ := h
  cases henters
  refine .ite (fun _ => ?_) fun _ => .pure ⟨.none, hexits⟩
  refine (hr.loopBody hbody).bind fun l₂ ends ends' hl₂ hends => ?_
  obtain ⟨bodyEnd, breaks⟩ := ends
  obtain ⟨bodyEnd', breaks'⟩ := ends'
  obtain ⟨hend, hbreaks⟩ := hends
  have hleft : List.Forall₂ (Env.Alike l₂) (exits ++ breaks) (exits' ++ breaks') :=
    List.rel_append (Env.alike.list.mono hl₂ hexits) hbreaks
  dsimp only at hend ⊢
  cases hend with
  | none => exact .pure ⟨.none, hleft⟩
  | some hend =>
    refine (Agree.setEnv hend).bind fun l₃ _ _ hl₃ _ => ?_
    refine (hr.expr? hupdate).followed fun _ => Agree.env.bind fun l₄ e f hl₄ he => ?_
    exact .pure ⟨.some he, Env.alike.list.mono (hl₃.trans hl₄) hleft⟩

theorem foreachPass (hr : r.Uniform names?) (i : Iteration) {key : Option Node}
    {value body : Node} (hkey : ∀ n, key = some n → n.Keeps names?) (hvalue : value.Keeps names?)
    (hbody : body.Keeps names?) :
    (r.foreachPass i key value body).Agree names? .blank LoopPass.alike
      (r.foreachPass i key value body) := by
  unfold Rules.foreachPass
  refine Agree.env.bind fun l₁ head head' _ hhead => ?_
  extract_lets next next'
  have hnext : ∀ u, (next u).Agree names? l₁ LoopPass.alike (next' u) := by
    intro u
    refine (hr.assign hvalue _).followed fun _ => ?_
    refine (hr.loopBody hbody).bind fun l₂ ends ends' hl₂ hends => .pure ⟨hends.1, ?_⟩
    exact .cons (hhead.mono hl₂) (List.rel_append hends.2 (Env.Alike.toList hends.1))
  clear_value next next'
  split
  · exact (hr.assign (hkey _ rfl) _).followed fun _ => hnext ()
  · exact hnext ()

/-- What is evaluated in front of a loop statement. -/
theorem front (hr : r.Uniform names?) (h : node.Keeps names?) {front : Check (Check LoopPass)}
    (hloop : r.loop? node = some front) : front.Uniform names? := by
  cases loops_of_loop? hloop with
  | whileLoop => exact .pure _
  | doWhileLoop => exact .pure _
  | forLoop => exact .bind (hr.exprBy? h _) fun _ => .pure _
  | foreachLoop hkind hsubject =>
    exact .bind (hr.expr (h.childBy? hsubject)) fun _ => .bind .registry fun _ => .pure _

/-- The pass over a loop statement. -/
theorem pass (hr : r.Uniform names?) (h : node.Keeps names?) {front : Check (Check LoopPass)}
    (hloop : r.loop? node = some front) {setting : Setting} {c c' : Checker}
    {pass : Check LoopPass} (hfront : front setting c = .ok pass c') :
    pass.Agree names? .blank LoopPass.alike pass := by
  cases loops_of_loop? hloop with
  | whileLoop hkind htest hbody =>
    cases hfront
    exact hr.whilePass (h.childBy? htest) (h.childBy? hbody)
  | doWhileLoop hkind htest hbody =>
    cases hfront
    exact hr.doWhilePass (h.childBy? htest) (h.childBy? hbody)
  | forLoop hkind hbody =>
    obtain ⟨_, _, -, hpass⟩ := bind_ok hfront
    cases hpass
    exact hr.forPass (fun n hn => h.listed hn) (fun n hn => h.childBy? hn) (h.childBy? hbody)
  | foreachLoop hkind hsubject hvalue hbody =>
    obtain ⟨_, _, -, hrest⟩ := bind_ok hfront
    obtain ⟨_, _, -, hpass⟩ := bind_ok hrest
    cases hpass
    exact hr.foreachPass _ (fun n hn => h.childBy? hn) (h.childBy? hvalue) (h.childBy? hbody)

/-! ### Loop statements -/

@[grind ←]
theorem whileStatement (hr : r.Uniform names?) (h : node.Keeps names?) :
    (r.whileStatement node).Uniform names? := by
  unfold Rules.whileStatement
  split
  · exact .runLoop (hr.whilePass (h.childBy? ‹_›) (h.childBy? ‹_›))
  · exact .pure _

@[grind ←]
theorem doWhileStatement (hr : r.Uniform names?) (h : node.Keeps names?) :
    (r.doWhileStatement node).Uniform names? := by
  unfold Rules.doWhileStatement
  split
  · exact .runLoop (hr.doWhilePass (h.childBy? ‹_›) (h.childBy? ‹_›))
  · exact .pure _

@[grind ←]
theorem forStatement (hr : r.Uniform names?) (h : node.Keeps names?) :
    (r.forStatement node).Uniform names? := by
  unfold Rules.forStatement
  refine .bind (hr.exprBy? h _) fun _ => ?_
  split
  · exact .pure _
  · exact .runLoop (hr.forPass (fun n hn => h.listed hn) (fun n hn => h.childBy? hn)
      (h.childBy? ‹_›))

@[grind ←]
theorem foreachStatement (hr : r.Uniform names?) (h : node.Keeps names?) :
    (r.foreachStatement node).Uniform names? := by
  unfold Rules.foreachStatement
  split
  · refine .bind (hr.expr (h.childBy? ‹_›)) fun subjectTy => .bind .registry fun known => ?_
    exact .runLoop (hr.foreachPass _ (fun n hn => h.childBy? hn) (h.childBy? ‹_›)
      (h.childBy? ‹_›))
  · exact .pure _

end Rules.Uniform

end PhpCheck
