import PhpCheck.Proofs.Registry.Reach
import PhpCheck.Proofs.Tables
import PhpCheck.Registry.Traits

/-!
What a class takes from its traits.

A class that takes traits over puts their members into its own tables one after the other, each
in place of what has its name there.  Which members these are, and in which order they come, can
be told beforehand (`ClassInfo.takings`): the members of the traits that no rule keeps out, trait
by trait, then the methods that the renaming rules look up.  So an entry of the class is the one
that was taken last under its name (`ClassInfo.get?_importListed`).

The members of one trait may come in any order, table by table (`Listing`).  Without renaming
rules the order does not matter, because a table has one member for a name: the last trait that
offers a member wins, and the methods that collide are those that two traits offer
(`ClassInfo.importTraits_last_wins`).

A renaming rule looks its method up in the traits as they are, and does not ask which methods are
kept out.  It brings back a method that an `insteadof` rule keeps out, unless a later rule puts
another one in its place (`ClassInfo.insteadOf_final_iff`).
-/

namespace PhpCheck

/-- A member as the class has it that takes it over. -/
def Member.ownedBy (m : Member) (owner : String) : Member := { m with owner }

@[simp]
theorem Member.ownedBy_name (m : Member) (owner : String) : (m.ownedBy owner).name = m.name := rfl

namespace ClassInfo

/-- What a class is beside its members. -/
def head (c : ClassInfo) : ClassInfo :=
  { c with
    methods := .empty
    staticMethods := .empty
    properties := .empty
    staticProperties := .empty
    constants := .empty }

theorem head_withTable (c : ClassInfo) (kind : MemberKind) (t : Table Member) :
    (c.withTable kind t).head = c.head := by
  cases kind <;> rfl

theorem ext_table {c d : ClassInfo} (hhead : c.head = d.head)
    (htable : ∀ kind, c.table kind = d.table kind) : c = d := by
  have hmethods : c.methods = d.methods := htable .method
  have hstaticMethods : c.staticMethods = d.staticMethods := htable .staticMethod
  have hproperties : c.properties = d.properties := htable .property
  have hstaticProperties : c.staticProperties = d.staticProperties := htable .staticProperty
  have hconstants : c.constants = d.constants := htable .constant
  cases c
  cases d
  simp_all [head]

/-! ### Members that are taken over -/

/-- A member that is taken over from a trait, under the name and with the visibility that it gets
in the class. -/
structure Taking where
  trait : ClassInfo
  kind : MemberKind
  member : Member

/-- Whether it is taken under a name, in the table of a kind. -/
def Taking.standsAt (t : Taking) (kind : MemberKind) (name : String) : Bool :=
  t.kind == kind && t.member.name == name

theorem Taking.standsAt_iff {t : Taking} {kind : MemberKind} {name : String} :
    t.standsAt kind name = true ↔ t.kind = kind ∧ t.member.name = name := by
  simp [standsAt]

def takeOver (c : ClassInfo) (t : Taking) : ClassInfo :=
  c.addMember t.kind (t.member.ownedBy c.name)

def takeAll (c : ClassInfo) (ts : List Taking) : ClassInfo := ts.foldl takeOver c

/-- The one that was taken last under a name. -/
def lastStanding (ts : List Taking) (kind : MemberKind) (name : String) : Option Taking :=
  ts.reverse.find? (·.standsAt kind name)

theorem takeAll_append (c : ClassInfo) (ts us : List Taking) :
    c.takeAll (ts ++ us) = (c.takeAll ts).takeAll us := List.foldl_append

theorem takeAll_head (c : ClassInfo) (ts : List Taking) : (c.takeAll ts).head = c.head := by
  induction ts generalizing c with
  | nil => rfl
  | cons t ts ih => exact (ih (c.takeOver t)).trans (head_withTable c _ _)

theorem takeAll_name (c : ClassInfo) (ts : List Taking) : (c.takeAll ts).name = c.name := by
  have hhead : (c.takeAll ts).head.name = c.head.name := by rw [takeAll_head]
  exact hhead

theorem get?_takeOver (c : ClassInfo) (t : Taking) (kind : MemberKind) (name : String) :
    ((c.takeOver t).table kind).get? name =
      if t.standsAt kind name then some (t.member.ownedBy c.name)
      else (c.table kind).get? name := by
  rw [takeOver, addMember, table_withTable, Member.ownedBy_name]
  by_cases hkind : t.kind = kind
  · subst hkind
    rw [if_pos rfl, Table.get?_insert]
    by_cases hname : t.member.name = name <;> simp [Taking.standsAt, hname]
  · rw [if_neg hkind, if_neg (fun hstands => hkind (Taking.standsAt_iff.1 hstands).1)]

theorem lastStanding_append (ts us : List Taking) (kind : MemberKind) (name : String) :
    lastStanding (ts ++ us) kind name =
      (lastStanding us kind name).or (lastStanding ts kind name) := by
  rw [lastStanding, List.reverse_append, List.find?_append]
  rfl

/-- The member taken last under a name is the one that stands there in the end. -/
theorem get?_takeAll (c : ClassInfo) (ts : List Taking) (kind : MemberKind) (name : String) :
    ((c.takeAll ts).table kind).get? name =
      ((lastStanding ts kind name).map (·.member.ownedBy c.name)).or
        ((c.table kind).get? name) := by
  induction ts using List.reverseRecOn with
  | nil => rfl
  | append_singleton ts t ih =>
    have hlast : (c.takeAll (ts ++ [t])).table kind = ((c.takeAll ts).takeOver t).table kind := by
      rw [takeAll_append]
      rfl
    have hone : lastStanding [t] kind name = if t.standsAt kind name then some t else none :=
      List.find?_singleton
    rw [hlast, get?_takeOver, takeAll_name, ih, lastStanding_append, hone]
    by_cases hstands : t.standsAt kind name <;> simp [hstands]

theorem lastStanding_eq_some_iff {ts : List Taking} {kind : MemberKind} {name : String}
    {t : Taking} : lastStanding ts kind name = some t ↔
      t.standsAt kind name ∧ ∃ before after, ts = before ++ t :: after ∧
        ∀ later ∈ after, later.standsAt kind name = false := by
  rw [lastStanding, List.find?_eq_some_iff_append]
  refine and_congr_right fun _ => ⟨?_, ?_⟩
  · rintro ⟨after, before, hsplit, hnone⟩
    refine ⟨before.reverse, after.reverse, ?_, by simpa using hnone⟩
    rw [← List.reverse_reverse ts, hsplit]
    simp
  · rintro ⟨before, after, rfl, hnone⟩
    exact ⟨after.reverse, before.reverse, by simp, by simpa using hnone⟩

theorem lastStanding_eq_none_iff {ts : List Taking} {kind : MemberKind} {name : String} :
    lastStanding ts kind name = none ↔ ∀ t ∈ ts, t.standsAt kind name = false := by
  simp [lastStanding]

/-! ### The order of a trait's members -/

/-- A trait with its members listed table by table, in any order. -/
structure Listing where
  trait : ClassInfo
  members : MemberKind → List Member
  perm : ∀ kind, (members kind).Perm (trait.table kind).values

namespace Listing

/-- A trait with its members as they are gone through. -/
def ofTrait (order : Order) (t : ClassInfo) : Listing := ⟨t, order.list t, order.perm t⟩

/-- The members of a kind that no rule keeps out. -/
def takingsOf (rules : List TraitRule) (l : Listing) (kind : MemberKind) : List Taking :=
  ((l.members kind).filter fun m => !(kind.isMethod && excluded rules l.trait.name m.name)).map
    fun m => ⟨l.trait, kind, m⟩

def takings (rules : List TraitRule) (l : Listing) : List Taking :=
  MemberKind.all.flatMap (l.takingsOf rules)

theorem mem_takings {rules : List TraitRule} {l : Listing} {t : Taking} :
    t ∈ l.takings rules ↔ t.trait = l.trait ∧ t.member ∈ (l.trait.table t.kind).values ∧
      (t.kind.isMethod && excluded rules l.trait.name t.member.name) = false := by
  obtain ⟨trait, kind, member⟩ := t
  have hall : kind ∈ MemberKind.all := by cases kind <;> decide
  simp only [takings, takingsOf, List.mem_flatMap, List.mem_map, List.mem_filter, Bool.not_eq_true',
    Taking.mk.injEq]
  constructor
  · rintro ⟨k, -, m, ⟨hm, hfree⟩, rfl, rfl, rfl⟩
    exact ⟨rfl, (l.perm k).mem_iff.1 hm, hfree⟩
  · rintro ⟨rfl, hm, hfree⟩
    exact ⟨kind, hall, member, ⟨(l.perm kind).mem_iff.2 hm, hfree⟩, rfl, rfl, rfl⟩

end Listing

namespace Import

/-- Takes the members of a trait over in the order in which they are listed. -/
def takeListing (rules : List TraitRule) (i : Import) (l : Listing) : Import :=
  let i := [MemberKind.method, .staticMethod].foldl
    (fun i kind => (l.members kind).foldl (takeMethod rules l.trait.name kind) i) i
  [MemberKind.property, .staticProperty, .constant].foldl
    (fun i kind => (l.members kind).foldl (·.take kind) i) i

/-- Takes one member over; a method is registered for collisions. -/
def accept (i : Import) (t : Taking) : Import :=
  if t.kind.isMethod then i.takeMethod [] t.trait.name t.kind t.member else i.take t.kind t.member

end Import

/-- Takes traits over, the members of each in the order in which they are listed. -/
def importListed (c : ClassInfo) (order : Order) (listings : List Listing)
    (rules : List TraitRule) : ClassInfo × List TraitCollision :=
  let i := listings.foldl (Import.takeListing rules) { target := c }
  let i := rules.foldl (Import.takeAlias order (listings.map (·.trait))) i
  (i.target, i.collisions.reverse)

theorem importTraits_eq (c : ClassInfo) (order : Order) (traits : List ClassInfo)
    (rules : List TraitRule) : c.importTraits traits rules order =
      c.importListed order (traits.map (.ofTrait order)) rules := by
  have hnames : (traits.map (Listing.ofTrait order)).map (·.trait) = traits := by
    rw [List.map_map]
    exact List.map_id traits
  rw [importListed, hnames, List.foldl_map]
  rfl

end ClassInfo

/-! ### The rules -/

/-- The method that a renaming rule is about: the first one in the traits, if the rule names none
of them. -/
def ClassInfo.foundMethod? (order : Order) (traits : List ClassInfo) (trait : Option String)
    (method : String) : Option ClassInfo.Taking :=
  (traits.filter fun t => trait.all (sameName t.name)).findSome? fun t =>
    [MemberKind.method, .staticMethod].findSome? fun kind =>
      (t.member? order kind method .anyCase).map fun m => ⟨t, kind, m⟩

namespace TraitRule

/-- Whether a rule renames a method, or changes who may use it. -/
def renames : TraitRule → Bool
  | .insteadOf .. => false
  | .renamed .. => true

/-- What a renaming rule takes over. -/
def taking? (order : ClassInfo.Order) (traits : List ClassInfo) :
    TraitRule → Option ClassInfo.Taking
  | .insteadOf .. => none
  | .renamed trait method newName visibility =>
    (ClassInfo.foundMethod? order traits trait method).map fun t =>
      { t with
        member :=
          { t.member with
            name := newName.getD t.member.name
            visibility := visibility.getD t.member.visibility } }

/-- Whether a rule takes a method of this very trait over under this name. -/
def gives (trait name : String) : TraitRule → Bool
  | .renamed (some t) _ (some n) _ => sameName t trait && sameName n name
  | _ => false

theorem gives_congr (rule : TraitRule) (trait : String) {name name' : String}
    (hname : sameName name name' = true) : rule.gives trait name = rule.gives trait name' := by
  rw [sameName, beq_iff_eq] at hname
  unfold gives sameName
  rw [hname]

end TraitRule

namespace ClassInfo

/-- All that is taken over from traits, in turn. -/
def takings (order : Order) (listings : List Listing) (rules : List TraitRule) : List Taking :=
  listings.flatMap (·.takings rules) ++ rules.filterMap (·.taking? order (listings.map (·.trait)))

theorem isMethod_of_taking? {order : Order} {traits : List ClassInfo} {rule : TraitRule}
    {t : Taking} (ht : rule.taking? order traits = some t) : t.kind.isMethod = true := by
  cases rule with
  | insteadOf trait method excluded => cases ht
  | renamed trait method newName visibility =>
    obtain ⟨source, hsource, rfl⟩ := Option.map_eq_some_iff.1 ht
    obtain ⟨found, -, hfound⟩ := List.exists_of_findSome?_eq_some hsource
    obtain ⟨kind, hkind, hmember⟩ := List.exists_of_findSome?_eq_some hfound
    obtain ⟨m, -, rfl⟩ := Option.map_eq_some_iff.1 hmember
    rcases List.mem_cons.1 hkind with rfl | hkind
    · rfl
    · rw [List.mem_singleton.1 hkind]
      rfl

namespace Import

theorem takeAlias_eq (order : Order) (traits : List ClassInfo) (i : Import) (rule : TraitRule) :
    i.takeAlias order traits rule =
      (rule.taking? order traits).elim i fun t => i.take t.kind t.member := by
  cases rule with
  | insteadOf trait method excluded => rfl
  | renamed trait method newName visibility =>
    have hfound : ((traits.filter fun t => trait.all (sameName t.name)).findSome? fun t =>
        [MemberKind.method, .staticMethod].findSome? fun kind =>
          (t.member? order kind method .anyCase).map fun m => (kind, m)) =
        (foundMethod? order traits trait method).map fun t => (t.kind, t.member) := by
      simp only [foundMethod?, List.map_findSome?, Function.comp_def, Option.map_map]
    rw [takeAlias, hfound, TraitRule.taking?]
    cases foundMethod? order traits trait method <;> rfl

theorem takeMethod_eq (rules : List TraitRule) (trait : String) (kind : MemberKind) (i : Import)
    (m : Member) : takeMethod rules trait kind i m =
      if excluded rules trait m.name then i else takeMethod [] trait kind i m := rfl

/-- What a trait gives is taken over member by member. -/
theorem takeListing_eq (rules : List TraitRule) (i : Import) (l : Listing) :
    i.takeListing rules l = (l.takings rules).foldl accept i := by
  have hmethods (kind : MemberKind) (hkind : kind.isMethod = true) (i : Import) :
      (l.takingsOf rules kind).foldl accept i =
        (l.members kind).foldl (takeMethod rules l.trait.name kind) i := by
    rw [Listing.takingsOf, List.foldl_map, List.foldl_filter]
    congr 1
    funext i m
    rw [takeMethod_eq rules, accept, hkind, Bool.true_and]
    cases excluded rules l.trait.name m.name <;> rfl
  have hothers (kind : MemberKind) (hkind : kind.isMethod = false) (i : Import) :
      (l.takingsOf rules kind).foldl accept i = (l.members kind).foldl (·.take kind) i := by
    rw [Listing.takingsOf, List.foldl_map, List.foldl_filter]
    congr 1
    funext i m
    rw [accept, hkind]
    rfl
  simp only [takeListing, Listing.takings, MemberKind.all, List.flatMap_cons, List.flatMap_nil,
    List.append_nil, List.foldl_append, List.foldl_cons, List.foldl_nil]
  rw [hmethods .method rfl, hmethods .staticMethod rfl, hothers .property rfl,
    hothers .staticProperty rfl, hothers .constant rfl]

/-- The renaming rules change the class only. -/
theorem takeAliases_eq (order : Order) (traits : List ClassInfo) (i : Import)
    (rules : List TraitRule) : rules.foldl (takeAlias order traits) i =
      { i with target := i.target.takeAll (rules.filterMap (·.taking? order traits)) } := by
  induction rules generalizing i with
  | nil => rfl
  | cons rule rules ih =>
    rw [List.foldl_cons, ih, takeAlias_eq]
    cases hrule : rule.taking? order traits with
    | none => rw [List.filterMap_cons_none hrule]; rfl
    | some t => rw [List.filterMap_cons_some hrule]; rfl

theorem accept_target (i : Import) (t : Taking) :
    (i.accept t).target = i.target.takeOver t := by
  unfold accept
  split <;> rfl

theorem accepted_target (i : Import) (ts : List Taking) :
    (ts.foldl accept i).target = i.target.takeAll ts := by
  induction ts generalizing i with
  | nil => rfl
  | cons t ts ih => rw [List.foldl_cons, ih, accept_target]; rfl

end Import

/-- The run of an import: what it puts into the tables, and the collisions, which come from the
traits alone. -/
theorem importListed_eq (c : ClassInfo) (order : Order) (listings : List Listing)
    (rules : List TraitRule) : c.importListed order listings rules =
      (c.takeAll (takings order listings rules),
        ((listings.flatMap (·.takings rules)).foldl Import.accept
          { target := c }).collisions.reverse) := by
  have hlistings (i : Import) : listings.foldl (Import.takeListing rules) i =
      (listings.flatMap (·.takings rules)).foldl Import.accept i := by
    rw [List.foldl_flatMap]
    congr 1
    funext i l
    exact i.takeListing_eq rules l
  rw [importListed, hlistings, Import.takeAliases_eq, Import.accepted_target, ← takeAll_append]
  rfl

theorem get?_importListed (c : ClassInfo) (order : Order) (listings : List Listing)
    (rules : List TraitRule) (kind : MemberKind) (name : String) :
    ((c.importListed order listings rules).1.table kind).get? name =
      ((lastStanding (takings order listings rules) kind name).map (·.member.ownedBy c.name)).or
        ((c.table kind).get? name) := by
  rw [importListed_eq]
  exact get?_takeAll c _ kind name

/-- Only the members of a class change. -/
theorem importListed_head (c : ClassInfo) (order : Order) (listings : List Listing)
    (rules : List TraitRule) : (c.importListed order listings rules).1.head = c.head := by
  rw [importListed_eq]
  exact takeAll_head c _

/-! ### Collisions -/

/-- The names of the traits that gave a method, told by its name in lower case. -/
def givers (ts : List Taking) (key : String) : List String :=
  (ts.filter fun t => t.kind.isMethod && t.member.name.toLower == key).map (·.trait.name)

theorem givers_snoc (ts : List Taking) (t : Taking) (key : String) :
    givers (ts ++ [t]) key =
      if t.kind.isMethod && t.member.name.toLower == key then givers ts key ++ [t.trait.name]
      else givers ts key := by
  rw [givers, List.filter_append, List.map_append, List.filter_singleton]
  cases t.kind.isMethod && t.member.name.toLower == key with
  | true => rfl
  | false => exact List.append_nil _

theorem mem_givers {ts : List Taking} {key trait : String} :
    trait ∈ givers ts key ↔
      ∃ t ∈ ts, t.kind.isMethod = true ∧ t.member.name.toLower = key ∧ t.trait.name = trait := by
  simp [givers, and_assoc]

/-- A new name makes two different ones of names that are not there yet. -/
theorem differ_snoc {seen : List String} {name : String} :
    (∃ s ∈ seen ++ [name], ∃ t ∈ seen ++ [name], s ≠ t) ↔
      (∃ s ∈ seen, ∃ t ∈ seen, s ≠ t) ∨ seen ≠ [] ∧ name ∉ seen := by
  constructor
  · rintro ⟨s, hs, t, ht, hne⟩
    by_cases hname : name ∈ seen
    · have hseen : ∀ a ∈ seen ++ [name], a ∈ seen :=
        List.forall_mem_append.2 ⟨fun _ ha => ha, by simpa using hname⟩
      exact .inl ⟨s, hseen s hs, t, hseen t ht, hne⟩
    · refine .inr ⟨?_, hname⟩
      rintro rfl
      exact hne ((List.mem_singleton.1 hs).trans (List.mem_singleton.1 ht).symm)
  · rintro (⟨s, hs, t, ht, hne⟩ | ⟨hseen, hname⟩)
    · exact ⟨s, List.mem_append_left _ hs, t, List.mem_append_left _ ht, hne⟩
    · obtain ⟨s, hs⟩ := List.exists_mem_of_ne_nil _ hseen
      exact ⟨s, List.mem_append_left _ hs, name,
        List.mem_append_right _ (List.mem_singleton_self _), fun heq => hname (heq ▸ hs)⟩

/-- What is registered after some members were taken over: who gave a method, and the methods that
traits of different names gave. -/
structure Registered (ts : List Taking) (i : Import) : Prop where
  providers : ∀ key, (i.providers.get? key).getD [] = givers ts key
  collisions : ∀ key, key ∈ i.collisions.map (·.member.toLower) ↔
    ∃ s ∈ givers ts key, ∃ t ∈ givers ts key, s ≠ t

theorem Registered.accept {ts : List Taking} {i : Import} (hi : Registered ts i) (t : Taking) :
    Registered (ts ++ [t]) (i.accept t) := by
  by_cases hkind : t.kind.isMethod
  · let seen := (i.providers.get? t.member.name.toLower).getD []
    rw [Import.accept, if_pos hkind]
    constructor
    · intro key
      rw [givers_snoc, hkind, Bool.true_and, ← hi.providers key]
      change ((i.providers.insert _ _).get? key).getD [] = _
      rw [Table.get?_insert]
      by_cases hkey : t.member.name.toLower = key <;> simp [hkey]
    · intro key
      have hcollisions : (i.takeMethod [] t.trait.name t.kind t.member).collisions =
          if seen.isEmpty || seen.contains t.trait.name then i.collisions
          else ⟨t.member.name, seen ++ [t.trait.name]⟩ :: i.collisions := rfl
      rw [hcollisions, givers_snoc, hkind, Bool.true_and]
      by_cases hkey : t.member.name.toLower = key
      · have hseen : seen = givers ts key := hkey ▸ hi.providers _
        rw [hkey, beq_self_eq_true, if_pos rfl, differ_snoc, ← hi.collisions, hseen]
        by_cases hold : givers ts key = [] ∨ t.trait.name ∈ givers ts key
        · have hnone : ¬ (givers ts key ≠ [] ∧ t.trait.name ∉ givers ts key) := by
            simpa [or_iff_not_imp_left] using hold
          rw [if_pos (by simpa using hold)]
          simp only [hnone, or_false]
        · have hnew : givers ts key ≠ [] ∧ t.trait.name ∉ givers ts key := not_or.1 hold
          rw [if_neg (by simpa using hold), List.map_cons, hkey]
          exact ⟨fun _ => .inr hnew, fun _ => List.mem_cons_self⟩
      · rw [beq_false_of_ne hkey, if_neg Bool.false_ne_true, ← hi.collisions]
        split
        · rfl
        · rw [List.map_cons, List.mem_cons]
          simp [Ne.symm hkey]
  · have hsame (key : String) : givers (ts ++ [t]) key = givers ts key := by
      rw [givers_snoc, Bool.eq_false_of_not_eq_true hkind]
      rfl
    rw [Import.accept, if_neg hkind]
    refine ⟨fun key => ?_, fun key => ?_⟩
    · rw [hsame]
      exact hi.providers key
    · rw [hsame]
      exact hi.collisions key

theorem registered_accepted (c : ClassInfo) (ts : List Taking) :
    Registered ts (ts.foldl Import.accept { target := c }) := by
  induction ts using List.reverseRecOn with
  | nil => exact ⟨fun key => rfl, fun key => by simp [givers]⟩
  | append_singleton ts t ih =>
    rw [List.foldl_append]
    exact ih.accept t

/-! ### Without renaming rules -/

/-- The members of a class are entered under their names. -/
def Keyed (c : ClassInfo) : Prop :=
  ∀ kind name m, (c.table kind).get? name = some m → m.name = name

theorem keyed_ofName (name : String) (kind : ClassKind) : (ofName name kind).Keyed := by
  intro kind name m hm
  cases kind <;> cases hm

theorem Keyed.addMember {c : ClassInfo} (hc : c.Keyed) (kind : MemberKind) (m : Member) :
    (c.addMember kind m).Keyed := by
  intro other name m' hm'
  rw [ClassInfo.addMember, table_withTable] at hm'
  split at hm'
  · rw [Table.get?_insert] at hm'
    split at hm'
    · rename_i hname
      exact Option.some.inj hm' ▸ hname
    · exact hc kind name m' hm'
  · exact hc other name m' hm'

/-- The member that a trait gives under a name, if no rule keeps it out. -/
def offered? (t : ClassInfo) (rules : List TraitRule) (kind : MemberKind) (name : String) :
    Option Member :=
  if kind.isMethod && excluded rules t.name name then none else (t.table kind).get? name

/-- Whether a trait gives a method whose name is this one in lower case. -/
def Provides (t : ClassInfo) (rules : List TraitRule) (key : String) : Prop :=
  ∃ kind name, kind.isMethod = true ∧ name.toLower = key ∧ (t.offered? rules kind name).isSome

section

variable {rules : List TraitRule} {l : Listing} {kind : MemberKind} {name : String}

theorem Keyed.name_of_offered? {t : ClassInfo} (hkeyed : t.Keyed) {m : Member}
    (hm : t.offered? rules kind name = some m) : m.name = name := by
  rw [offered?] at hm
  split at hm
  · cases hm
  · exact hkeyed kind name m hm

theorem Keyed.mem_takings (hkeyed : l.trait.Keyed) {t : Taking} :
    t ∈ l.takings rules ↔
      t.trait = l.trait ∧ l.trait.offered? rules t.kind t.member.name = some t.member := by
  rw [Listing.mem_takings, Table.mem_values_iff, offered?]
  refine and_congr_right fun _ => ?_
  cases t.kind.isMethod && excluded rules l.trait.name t.member.name with
  | true => simp
  | false =>
    simp only [and_true, Bool.false_eq_true, if_false]
    refine ⟨?_, fun hget => ⟨_, hget⟩⟩
    rintro ⟨name, hget⟩
    rwa [hkeyed _ _ _ hget]

theorem Keyed.lastStanding_takings (hkeyed : l.trait.Keyed) :
    lastStanding (l.takings rules) kind name =
      (l.trait.offered? rules kind name).map fun m => ⟨l.trait, kind, m⟩ := by
  cases hlast : lastStanding (l.takings rules) kind name with
  | none =>
    cases hoffered : l.trait.offered? rules kind name with
    | none => rfl
    | some m =>
      have hname : m.name = name := hkeyed.name_of_offered? hoffered
      have hmem : (⟨l.trait, kind, m⟩ : Taking) ∈ l.takings rules :=
        hkeyed.mem_takings.2 ⟨rfl, hname.symm ▸ hoffered⟩
      have hstands := lastStanding_eq_none_iff.1 hlast _ hmem
      simp [Taking.standsAt, hname] at hstands
  | some t =>
    obtain ⟨hstands, before, after, hsplit, -⟩ := lastStanding_eq_some_iff.1 hlast
    obtain ⟨rfl, rfl⟩ := Taking.standsAt_iff.1 hstands
    have hmem : t ∈ l.takings rules := hsplit ▸ List.mem_append_right _ List.mem_cons_self
    obtain ⟨htrait, hoffered⟩ := hkeyed.mem_takings.1 hmem
    rw [hoffered, Option.map_some, ← htrait]

end

theorem filterMap_taking?_eq_nil {rules : List TraitRule}
    (hrules : ∀ rule ∈ rules, rule.renames = false) (order : Order) (traits : List ClassInfo) :
    rules.filterMap (·.taking? order traits) = [] := by
  refine List.filterMap_eq_nil_iff.2 fun rule hrule => ?_
  cases rule with
  | insteadOf trait method excluded => rfl
  | renamed trait method newName visibility => cases hrules _ hrule

section

variable {c : ClassInfo} {order : Order} {rules : List TraitRule} {listings : List Listing}

/-- The last trait that gives a member wins. -/
theorem lastStanding_listings (hkeyed : ∀ l ∈ listings, l.trait.Keyed) (kind : MemberKind)
    (name : String) :
    (lastStanding (listings.flatMap (·.takings rules)) kind name).map (·.member) =
      (listings.map (·.trait)).reverse.findSome? (·.offered? rules kind name) := by
  induction listings using List.reverseRecOn with
  | nil => rfl
  | append_singleton ls l ih =>
    have hfirst := ih fun l' hl' => hkeyed l' (List.mem_append_left _ hl')
    have hlast : (lastStanding (l.takings rules) kind name).map (·.member) =
        l.trait.offered? rules kind name := by
      rw [(hkeyed l (by simp)).lastStanding_takings, Option.map_map]
      exact Option.map_id'
    rw [List.flatMap_append, List.flatMap_singleton, lastStanding_append, Option.map_or, hlast,
      hfirst, List.map_append, List.reverse_append, List.findSome?_append, List.map_singleton,
      List.reverse_singleton, List.findSome?_singleton]

theorem get?_importListed_unrenamed (hrules : ∀ rule ∈ rules, rule.renames = false)
    (hkeyed : ∀ l ∈ listings, l.trait.Keyed) (kind : MemberKind) (name : String) :
    ((c.importListed order listings rules).1.table kind).get? name =
      (((listings.map (·.trait)).reverse.findSome? (·.offered? rules kind name)).map
        (·.ownedBy c.name)).or ((c.table kind).get? name) := by
  rw [get?_importListed, takings, filterMap_taking?_eq_nil hrules, List.append_nil,
    ← lastStanding_listings hkeyed, Option.map_map]
  rfl

theorem mem_givers_listings (hkeyed : ∀ l ∈ listings, l.trait.Keyed) {key trait : String} :
    trait ∈ givers (listings.flatMap (·.takings rules)) key ↔
      ∃ t ∈ listings.map (·.trait), t.Provides rules key ∧ t.name = trait := by
  simp only [mem_givers, List.mem_flatMap, List.mem_map]
  constructor
  · rintro ⟨t, ⟨l, hl, ht⟩, hkind, hkey, rfl⟩
    obtain ⟨htrait, hoffered⟩ := (hkeyed l hl).mem_takings.1 ht
    exact ⟨l.trait, ⟨l, hl, rfl⟩, ⟨t.kind, t.member.name, hkind, hkey, by simp [hoffered]⟩,
      congrArg ClassInfo.name htrait.symm⟩
  · rintro ⟨_, ⟨l, hl, rfl⟩, ⟨kind, name, hkind, hkey, hsome⟩, rfl⟩
    obtain ⟨m, hoffered⟩ := Option.isSome_iff_exists.1 hsome
    obtain rfl : m.name = name := (hkeyed l hl).name_of_offered? hoffered
    exact ⟨⟨l.trait, kind, m⟩, ⟨l, hl, (hkeyed l hl).mem_takings.2 ⟨rfl, hoffered⟩⟩, hkind, hkey,
      rfl⟩

/-- The methods that collide are those that traits of different names give. -/
theorem mem_collisions_importListed (hkeyed : ∀ l ∈ listings, l.trait.Keyed) (key : String) :
    key ∈ (c.importListed order listings rules).2.map (·.member.toLower) ↔
      ∃ s ∈ listings.map (·.trait), ∃ t ∈ listings.map (·.trait),
        s.name ≠ t.name ∧ s.Provides rules key ∧ t.Provides rules key := by
  rw [importListed_eq, List.map_reverse, List.mem_reverse,
    (registered_accepted c (listings.flatMap (·.takings rules))).collisions]
  simp only [mem_givers_listings hkeyed]
  constructor
  · rintro ⟨_, ⟨s, hs, hsgives, rfl⟩, _, ⟨t, ht, htgives, rfl⟩, hne⟩
    exact ⟨s, hs, t, ht, hne, hsgives, htgives⟩
  · rintro ⟨s, hs, t, ht, hne, hsgives, htgives⟩
    exact ⟨_, ⟨s, hs, hsgives, rfl⟩, _, ⟨t, ht, htgives, rfl⟩, hne⟩

end

/-- Without renaming rules, an entry of a class that took traits over is the member of the last
trait that offers one under this name, and what it was before if no trait does.  The methods that
collide are, but for the case of letters, those that two traits of different names offer.  All
this does not depend on the order in which the members of a trait come. -/
theorem importTraits_last_wins (c : ClassInfo) (order : Order) {traits : List ClassInfo}
    {rules : List TraitRule}
    (hrules : ∀ rule ∈ rules, rule.renames = false) (hkeyed : ∀ t ∈ traits, t.Keyed) :
    (∀ kind name, ((c.importTraits traits rules order).1.table kind).get? name =
      ((traits.reverse.findSome? (·.offered? rules kind name)).map (·.ownedBy c.name)).or
        ((c.table kind).get? name)) ∧
    (∀ key, key ∈ (c.importTraits traits rules order).2.map (·.member.toLower) ↔
      ∃ s ∈ traits, ∃ t ∈ traits,
        s.name ≠ t.name ∧ s.Provides rules key ∧ t.Provides rules key) ∧
    ∀ listings : List Listing, listings.map (·.trait) = traits →
      (c.importListed order listings rules).1 = (c.importTraits traits rules order).1 ∧
      ∀ key, key ∈ (c.importListed order listings rules).2.map (·.member.toLower) ↔
        key ∈ (c.importTraits traits rules order).2.map (·.member.toLower) := by
  have hnames : (traits.map (Listing.ofTrait order)).map (·.trait) = traits := by
    rw [List.map_map]
    exact List.map_id traits
  have hlisted (ls : List Listing) (hls : ls.map (·.trait) = traits) : ∀ l ∈ ls, l.trait.Keyed :=
    fun l hl => hkeyed _ (hls ▸ List.mem_map_of_mem hl)
  have hofTrait := hlisted _ hnames
  have hget (kind : MemberKind) (name : String) :
      ((c.importListed order (traits.map (.ofTrait order)) rules).1.table kind).get? name = _ :=
    get?_importListed_unrenamed hrules hofTrait kind name
  have hcollisions (key : String) :
      key ∈ (c.importListed order (traits.map (.ofTrait order)) rules).2.map
        (·.member.toLower) ↔ _ :=
    mem_collisions_importListed hofTrait key
  simp only [hnames] at hget hcollisions
  rw [importTraits_eq]
  refine ⟨hget, hcollisions, fun ls hls => ⟨?_, fun key => ?_⟩⟩
  · refine ext_table ?_ fun kind => Table.ext_get? fun name => ?_
    · rw [importListed_head, importListed_head]
    · rw [hget, get?_importListed_unrenamed hrules (hlisted ls hls), hls]
  · rw [hcollisions, mem_collisions_importListed (hlisted ls hls), hls]

/-- A method without parameters. -/
def bareMethod (name : String) (result : Ty) (owner : String) : Member :=
  .ofSignature ⟨some name, [], .of result, true, [], false⟩ .everyone owner

/-- A trait that walks and talks. -/
def walker : ClassInfo :=
  ((ofName "Walker" .trait).addMember .method
    (bareMethod "talk" (.string none) "Walker")).addMember .staticMethod
    (bareMethod "walk" .mixed "Walker")

/-- A trait that does the same under names written otherwise. -/
def talker : ClassInfo :=
  ((ofName "Talker" .trait).addMember .method
    (bareMethod "talk" (.int none) "Talker")).addMember .method
    (bareMethod "Walk" .mixed "Talker")

theorem walker_keyed : walker.Keyed := ((keyed_ofName _ _).addMember _ _).addMember _ _

theorem talker_keyed : talker.Keyed := ((keyed_ofName _ _).addMember _ _).addMember _ _

/-- Keeps the talker's method out, whatever the case of letters. -/
def walkerTalks : List TraitRule := [.insteadOf "Walker" "TALK" ["talker"]]

/-- The last trait's method is kept out, so the one in front of it stands; the other methods
collide. -/
theorem importTraits_last_wins_excluded :
    ((((ofName "Host" .ordinary).importTraits [walker, talker] walkerTalks).1.table .method).get?
        "talk" = some (bareMethod "talk" (.string none) "Host")) ∧
    "walk" ∈ ((ofName "Host" .ordinary).importTraits [walker, talker] walkerTalks).2.map
      (·.member.toLower) := by
  have hrules : ∀ rule ∈ walkerTalks, rule.renames = false := by
    simp [walkerTalks, TraitRule.renames]
  have hkeyed : ∀ t ∈ [walker, talker], t.Keyed := by
    simp [walker_keyed, talker_keyed]
  obtain ⟨hget, hcollisions, -⟩ :=
    importTraits_last_wins (ofName "Host" .ordinary) .byName hrules hkeyed
  constructor
  · have htalker : talker.offered? walkerTalks .method "talk" = none := by cbv
    have hwalker : walker.offered? walkerTalks .method "talk" =
        some (bareMethod "talk" (.string none) "Walker") := by cbv
    have hlast : [walker, talker].reverse.findSome? (·.offered? walkerTalks .method "talk") =
        some (bareMethod "talk" (.string none) "Walker") := by
      simp [htalker, hwalker]
    rw [hget, hlast]
    cbv
  · exact (hcollisions "walk").2 ⟨walker, .head _, talker, .tail _ (.head _), by decide +kernel,
      ⟨.staticMethod, "walk", rfl, by decide +kernel, by cbv⟩,
      ⟨.method, "Walk", rfl, by decide +kernel, by cbv⟩⟩

/-! ### With renaming rules -/

/-- Whether a rule keeps a method of a trait out under this name, and no rule gives that trait's
method this name. -/
def Barred (rules : List TraitRule) (trait name : String) : Prop :=
  excluded rules trait name = true ∧ ∀ rule ∈ rules, rule.gives trait name = false

theorem excluded_congr {rules : List TraitRule} {trait name name' : String}
    (hname : sameName name name' = true) :
    excluded rules trait name = excluded rules trait name' := by
  rw [sameName, beq_iff_eq] at hname
  unfold excluded sameName
  rw [hname]

theorem Barred.congr {rules : List TraitRule} {trait name name' : String}
    (hbarred : Barred rules trait name') (hname : sameName name name' = true) :
    Barred rules trait name :=
  ⟨excluded_congr hname ▸ hbarred.1, fun rule hrule =>
    (rule.gives_congr trait hname).trans (hbarred.2 rule hrule)⟩

variable {order : Order} {traits : List ClassInfo} {rules : List TraitRule} {t : Taking}

/-- What the traits give by themselves is not kept out. -/
theorem not_barred_of_mem_takings {listings : List Listing}
    (ht : t ∈ listings.flatMap (·.takings rules)) (hkind : t.kind.isMethod = true) :
    ¬ Barred rules t.trait.name t.member.name := by
  obtain ⟨l, -, hl⟩ := List.mem_flatMap.1 ht
  obtain ⟨htrait, -, hfree⟩ := Listing.mem_takings.1 hl
  rw [hkind, Bool.true_and, ← htrait] at hfree
  intro hbarred
  rw [hbarred.1] at hfree
  cases hfree

/-- What a renaming rule takes over stands unless a later one puts another in its place. -/
theorem lastStanding_filterMap {kind : MemberKind} {name : String} :
    lastStanding (rules.filterMap (·.taking? order traits)) kind name = some t ↔
      t.standsAt kind name ∧ ∃ before rule after, rules = before ++ rule :: after ∧
        rule.taking? order traits = some t ∧
        ∀ later ∈ after, ∀ t', later.taking? order traits = some t' →
          t'.standsAt kind name = false := by
  rw [lastStanding_eq_some_iff]
  refine and_congr_right fun _ => ⟨?_, ?_⟩
  · rintro ⟨tsBefore, tsAfter, hsplit, hnone⟩
    obtain ⟨before, rest, rfl, -, hrest⟩ := List.filterMap_eq_append_iff.1 hsplit
    obtain ⟨skipped, rule, after, rfl, -, hrule, hafter⟩ := List.filterMap_eq_cons_iff.1 hrest
    refine ⟨before ++ skipped, rule, after, by simp, hrule, fun later hlater t' ht' => ?_⟩
    exact hnone t' (hafter ▸ List.mem_filterMap.2 ⟨later, hlater, ht'⟩)
  · rintro ⟨before, rule, after, rfl, hrule, hnone⟩
    refine ⟨before.filterMap (·.taking? order traits), after.filterMap (·.taking? order traits),
      ?_, ?_⟩
    · rw [List.filterMap_append, List.filterMap_cons_some hrule]
    · intro t' ht'
      obtain ⟨later, hlater, hlaterTaking⟩ := List.mem_filterMap.1 ht'
      exact hnone later hlater t' hlaterTaking

/-- What was taken over last under a name when traits were imported. -/
def taken? (order : Order) (traits : List ClassInfo) (rules : List TraitRule) (kind : MemberKind)
    (name : String) : Option Taking :=
  lastStanding (takings order (traits.map (.ofTrait order)) rules) kind name

/-- Whether an `insteadof` rule is final: no method that stands in the class under a name of a
method was taken from a trait that such a rule keeps out, unless a rule gives that trait's method
this name. -/
def InsteadOfFinal (order : Order) (traits : List ClassInfo) (rules : List TraitRule) : Prop :=
  ∀ kind name t method, kind.isMethod = true → taken? order traits rules kind name = some t →
    sameName name method = true → ¬ Barred rules t.trait.name method

/-- A renaming rule does not ask which methods are kept out.  So the `insteadof` rules are final
exactly if what a renaming rule takes over against them is replaced by a later one. -/
theorem insteadOf_final_iff (c : ClassInfo) (order : Order) (traits : List ClassInfo)
    (rules : List TraitRule) :
    (∀ kind name, ((c.importTraits traits rules order).1.table kind).get? name =
      ((taken? order traits rules kind name).map (·.member.ownedBy c.name)).or
        ((c.table kind).get? name)) ∧
    (InsteadOfFinal order traits rules ↔
      ∀ before rule after t, rules = before ++ rule :: after → rule.taking? order traits = some t →
        Barred rules t.trait.name t.member.name →
        ∃ later ∈ after, ∃ t', later.taking? order traits = some t' ∧
          t'.standsAt t.kind t.member.name = true) := by
  have hnames : (traits.map (Listing.ofTrait order)).map (·.trait) = traits := by
    rw [List.map_map]
    exact List.map_id traits
  have htaken (kind : MemberKind) (name : String) : taken? order traits rules kind name =
      (lastStanding (rules.filterMap (·.taking? order traits)) kind name).or
        (lastStanding ((traits.map (Listing.ofTrait order)).flatMap (·.takings rules))
          kind name) := by
    rw [taken?, takings, hnames, lastStanding_append]
  refine ⟨fun kind name => ?_, fun hfinal before rule after t hsplit hrule hbarred => ?_,
    fun hreplaced kind name t method hkind ht hname hbarred => ?_⟩
  · rw [importTraits_eq]
    exact get?_importListed c order _ rules kind name
  · by_contra hlast
    have hstanding : lastStanding (rules.filterMap (·.taking? order traits)) t.kind t.member.name =
        some t := by
      refine lastStanding_filterMap.2 ⟨Taking.standsAt_iff.2 ⟨rfl, rfl⟩, before, rule, after,
        hsplit, hrule, fun later hlater t' ht' => Bool.eq_false_iff.2 fun hstands => hlast ?_⟩
      exact ⟨later, hlater, t', ht', hstands⟩
    refine hfinal t.kind t.member.name t t.member.name (isMethod_of_taking? hrule) ?_
      (by simp [sameName]) hbarred
    rw [htaken, hstanding]
    rfl
  · rw [htaken, Option.or_eq_some_iff] at ht
    rcases ht with ht | ⟨-, ht⟩
    · obtain ⟨hstands, before, rule, after, hsplit, hrule, hnone⟩ := lastStanding_filterMap.1 ht
      obtain ⟨rfl, rfl⟩ := Taking.standsAt_iff.1 hstands
      obtain ⟨later, hlater, t', ht', hstands'⟩ := hreplaced before rule after t hsplit hrule
        (hbarred.congr hname)
      rw [hnone later hlater t' ht'] at hstands'
      cases hstands'
    · obtain ⟨hstands, before, after, hsplit, -⟩ := lastStanding_eq_some_iff.1 ht
      obtain ⟨rfl, rfl⟩ := Taking.standsAt_iff.1 hstands
      have hmem : t ∈ (traits.map (Listing.ofTrait order)).flatMap (·.takings rules) :=
        hsplit ▸ List.mem_append_right _ List.mem_cons_self
      exact not_barred_of_mem_takings hmem hkind (hbarred.congr hname)

/-- Keeps the talker's method out, and then makes the method protected without naming a trait. -/
def talkRules : List TraitRule :=
  [.insteadOf "Walker" "talk" ["Talker"], .renamed none "talk" none (some .heirs)]

/-- The talker's method, made protected. -/
def protectedTalk : Taking :=
  ⟨talker, .method, { bareMethod "talk" (.int none) "Talker" with visibility := .heirs }⟩

/-- The renaming rule finds the method that is kept out, because its trait comes first. -/
theorem insteadOf_final_undone :
    (((ofName "Host" .ordinary).importTraits [talker, walker] talkRules).1.table .method).get?
      "talk" = some { bareMethod "talk" (.int none) "Host" with visibility := .heirs } ∧
    ¬ InsteadOfFinal .byName [talker, walker] talkRules := by
  have hrule : (TraitRule.renamed none "talk" none (some .heirs)).taking? .byName [talker, walker] =
      some protectedTalk := by cbv
  have hbarred : Barred talkRules talker.name "talk" :=
    ⟨by decide +kernel, by simp [talkRules, TraitRule.gives]⟩
  obtain ⟨hget, hfinal⟩ := insteadOf_final_iff (ofName "Host" .ordinary) .byName [talker, walker]
    talkRules
  refine ⟨?_, fun h => ?_⟩
  · have htaken : taken? .byName [talker, walker] talkRules .method "talk" =
        some protectedTalk := by cbv
    rw [hget, htaken]
    cbv
  · obtain ⟨later, hlater, -⟩ := hfinal.1 h [_] _ [] _ rfl hrule hbarred
    cases hlater

end ClassInfo

end PhpCheck
