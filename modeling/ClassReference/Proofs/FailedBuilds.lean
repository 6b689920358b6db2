import ClassReference.Proofs.History
import ClassReference.Proofs.StoppedResolution

/-!
# Proofs: models after a failed build

A build that fails writes into the classes of the last model. It keeps their order, what they
declare and the packages, but not their links, ancestors and members: these are as the stopped
resolution has left them (`model_after_failed_build`). The model survives if the classes outside it
keep clear of it (`KeptClear`): then the arena begins with the classes of the model (`arenaOf_eq`),
each has the ancestors that it had (`trail`), and settling it again changes nothing (`settled_eq`).
-/

namespace ClassReference

/-! ## A model that is spared -/

/-- The classes that a model does not list. -/
def Model.unlisted (m : Model) (classes : List ClassEntry) : List ClassEntry :=
  classes.filter fun e => (m.get? e.name.full).isNone

theorem Model.mem_of_get? {m : Model} {full : String} {c : ClassEntry} (h : m.get? full = some c) :
    c ∈ m.classes ∧ c.name.full = full :=
  ⟨List.mem_of_find?_eq_some h, by simpa using List.find?_some h⟩

/-- A selected class is not listed if the model lists none under its name. -/
theorem Model.mem_unlisted {m : Model} {rules : Hierarchy.Rules} {classes : List ClassEntry}
    {full : String} {e : ClassEntry} (he : Hierarchy.definitionOf rules classes full = some e)
    (h : m.get? full = none) :
    e ∈ m.unlisted (Hierarchy.arenaOf rules classes) ∧ e.name.full = full := by
  obtain ⟨hmem, rfl⟩ := ((Hierarchy.arranges_arenaOf rules classes).find_iff full e).mp he
  exact ⟨List.mem_filter.mpr ⟨hmem, by rw [h]; rfl⟩, rfl⟩

/-- The other classes keep clear of the model: the catalogue was `old` when the model was built, and
has grown to `new` since. -/
structure Model.KeptClear (m : Model) (rules : Hierarchy.Rules) (old new : Catalog) : Prop where
  /-- The other selected classes come behind those of the model in the order of names. -/
  behind : ∀ e ∈ m.unlisted (Hierarchy.arenaOf rules new.classes), ∀ c ∈ m.classes,
    c.name.full < e.name.full
  /-- They are not parents of classes of the model. -/
  parents : ∀ e ∈ m.unlisted (Hierarchy.arenaOf rules new.classes), ∀ c ∈ m.classes,
    c.parentName ≠ some e.name.full
  /-- Those that are public have no parent in the model. -/
  children : ∀ e ∈ m.unlisted (Hierarchy.arenaOf rules new.classes), e.excluded = false →
    ∀ c ∈ m.classes,
    e.parentName ≠ some c.name.full
  /-- The classes of the model declare the members that they declared before. -/
  members : ∀ c ∈ m.classes, new.members.declaredBy c.name.full = old.members.declaredBy c.name.full

theorem Members.gather_congr {ms ms' : Members} {own : String} {ancestors : List String}
    (h : ∀ full ∈ own :: ancestors, ms.declaredBy full = ms'.declaredBy full) :
    ms.gather own ancestors = ms'.gather own ancestors := by
  unfold gather
  rw [h own List.mem_cons_self]
  refine List.foldl_ext _ _ _ fun acc a ha => ?_
  rw [h a (List.mem_cons_of_mem _ ha)]

/-- A class of the model gathers from classes of the model what it gathered before. -/
theorem Model.KeptClear.gather_eq {m : Model} {rules : Hierarchy.Rules} {old new : Catalog}
    (h : m.KeptClear rules old new) {c : ClassEntry} (hc : c ∈ m.classes)
    {ancestors : List ClassEntry} (ha : ∀ a ∈ ancestors, a ∈ m.classes) :
    new.members.gather c.name.full (ancestors.map (·.name.full)) =
      old.members.gather c.name.full (ancestors.map (·.name.full)) := by
  refine Members.gather_congr fun full hfull => ?_
  rcases List.mem_cons.mp hfull with rfl | hfull
  · exact h.members c hc
  · obtain ⟨a, hmem, rfl⟩ := List.mem_map.mp hfull
    exact h.members a (ha a hmem)

theorem Hierarchy.parentIn_congr {defs : String → Option ClassEntry} {c d : ClassEntry}
    (h : c.parentName = d.parentName) : parentIn defs c = parentIn defs d := by
  rw [parentIn, h, parentIn]

namespace Session

open Hierarchy

section KeptClear

variable {s t : Session} {m : Model}

/-- The classes of the last model are found under their names. -/
theorem Follows.definitionOf_eq (h : s.Follows m t) {full : String} {c : ClassEntry}
    (hc : m.get? full = some c) : definitionOf t.rules t.catalog.classes full = some c := by
  obtain ⟨hmem, rfl⟩ := Model.mem_of_get? hc
  exact ((arranges_arenaOf t.rules t.catalog.classes).find_iff _ c).mpr ⟨h.mem_arenaOf hmem, rfl⟩

/-- A name that was defined is still defined. -/
theorem Follows.isSome_definitionOf (h : s.Follows m t) {full : String}
    (hd : (definitionOf s.rules s.catalog.classes full).isSome) :
    (definitionOf t.rules t.catalog.classes full).isSome := by
  obtain ⟨more, hmore⟩ := h.classes
  rw [hmore, h.rules]
  refine isSome_definitionOf_append ?_ more
  have hmap := map_declared_definitionOf s.rules s.build.value.1.catalog.classes full
  rw [build_catalog, map_declared_update, ← map_declared_definitionOf] at hmap
  have hsome := congrArg Option.isSome hmap
  rw [Option.isSome_map, Option.isSome_map] at hsome
  rw [build_catalog, hsome]
  exact hd

/-- If the other classes keep clear of the model, the arena begins with its classes. -/
theorem Follows.arenaOf_eq (h : s.Follows m t) (hclear : m.KeptClear t.rules s.catalog t.catalog) :
    arenaOf t.rules t.catalog.classes =
      m.classes ++ m.unlisted (arenaOf t.rules t.catalog.classes) := by
  have harena := arranges_arenaOf t.rules t.catalog.classes
  refine harena.unique ⟨?_, fun full e => ?_⟩
  · rw [List.pairwise_append]
    exact ⟨sorted_listed (build_ok h.built).1, harena.sorted.filter _,
      fun c hc e he => hclear.behind e he c hc⟩
  · rw [harena.find_iff, List.mem_append]
    constructor
    · rintro ⟨he, rfl⟩
      refine ⟨?_, rfl⟩
      cases hget : m.get? e.name.full with
      | none => exact Or.inr (List.mem_filter.mpr ⟨he, by rw [hget]; rfl⟩)
      | some c =>
        obtain ⟨hc, hname⟩ := Model.mem_of_get? hget
        exact Or.inl (harena.eq_of_name (h.mem_arenaOf hc) he hname ▸ hc)
    · rintro ⟨hc | he, rfl⟩
      · exact ⟨h.mem_arenaOf hc, rfl⟩
      · exact ⟨(List.mem_filter.mp he).1, rfl⟩

/-- The parent that a class of the model had differs from the one that the model lists only in what
resolution fills in. -/
theorem Follows.parentIn_declared (h : s.Follows m t)
    (hclear : m.KeptClear t.rules s.catalog t.catalog) {c : ClassEntry} (hc : c ∈ m.classes) :
    (parentIn (definitionOf s.rules s.catalog.classes) c).map (·.declared) =
      (c.parentName.bind m.get?).map (·.declared) := by
  unfold parentIn
  cases hname : c.parentName with
  | none => rfl
  | some full =>
    change (definitionOf s.rules s.catalog.classes full).map (·.declared) =
      (m.get? full).map (·.declared)
    have hlisted := find?_listed (build_ok h.built).1 full
    cases hget : m.get? full with
    | some p =>
      rw [← Model.get?, hget] at hlisted
      obtain ⟨d, hd, hdp⟩ := Option.map_eq_some_iff.mp hlisted.symm
      rw [definitionOf, hd]
      exact congrArg some hdp
    | none =>
      cases hd : definitionOf s.rules s.catalog.classes full with
      | none => rfl
      | some d =>
        -- An excluded parent, which the model does not list, would still be selected.
        obtain ⟨e, he⟩ :=
          Option.isSome_iff_exists.mp (h.isSome_definitionOf (Option.isSome_of_mem hd))
        obtain ⟨hmem, rfl⟩ := Model.mem_unlisted he hget
        exact absurd hname (hclear.parents e hmem c hc)

/-- The parent that a class of the model has now is the one that the model lists. -/
theorem Follows.parentIn_eq (h : s.Follows m t) (hclear : m.KeptClear t.rules s.catalog t.catalog)
    {c : ClassEntry} (hc : c ∈ m.classes) :
    parentIn (definitionOf t.rules t.catalog.classes) c = c.parentName.bind m.get? := by
  unfold parentIn
  cases hname : c.parentName with
  | none => rfl
  | some full =>
    change definitionOf t.rules t.catalog.classes full = m.get? full
    cases hget : m.get? full with
    | some p => exact h.definitionOf_eq hget
    | none =>
      cases he : definitionOf t.rules t.catalog.classes full with
      | none => rfl
      | some e =>
        obtain ⟨hmem, rfl⟩ := Model.mem_unlisted he hget
        exact absurd hname (hclear.parents e hmem c hc)

/-- A class of the model has the ancestors that it had, and they are in the model. -/
theorem Follows.trail (h : s.Follows m t) (hclear : m.KeptClear t.rules s.catalog t.catalog)
    {a : ClassEntry} {l : List ClassEntry}
    (ht : Trail (parentIn (definitionOf s.rules s.catalog.classes)) a l) {c : ClassEntry}
    (hc : c ∈ m.classes) (hca : c.parentName = a.parentName) :
    ∃ k, Trail (parentIn (definitionOf t.rules t.catalog.classes)) c k ∧
      k.map (·.declared) = l.map (·.declared) ∧ ∀ x ∈ k, x ∈ m.classes := by
  -- The trail runs through the old entries, and `c` is the entry of the model for `a`.
  induction ht generalizing c with
  | @stop a hstop =>
    have hold := h.parentIn_declared hclear hc
    rw [parentIn_congr hca, hstop, Option.map_none, eq_comm, Option.map_eq_none_iff] at hold
    exact ⟨[], Trail.stop ((h.parentIn_eq hclear hc).trans hold), rfl, by simp⟩
  | @step a b l hstep _ ih =>
    have hold := h.parentIn_declared hclear hc
    rw [parentIn_congr hca, hstep, eq_comm, Option.map_some, Option.map_eq_some_iff] at hold
    obtain ⟨p, hp, hpb⟩ := hold
    obtain ⟨full, -, hget⟩ := Option.bind_eq_some_iff.mp hp
    have hmem := (Model.mem_of_get? hget).1
    obtain ⟨k, hk, hkl, hall⟩ := ih hmem (congrArg ClassEntry.parentName hpb :)
    refine ⟨p :: k, Trail.step ((h.parentIn_eq hclear hc).trans hp) hk, ?_, ?_⟩
    · rw [List.map_cons, List.map_cons, hpb, hkl]
    · intro x hx
      rcases List.mem_cons.mp hx with rfl | hx
      · exact hmem
      · exact hall x hx

/-- The parent of a class of the model stands where the model lists it. -/
theorem Follows.parentIndex_eq (h : s.Follows m t)
    (hclear : m.KeptClear t.rules s.catalog t.catalog) {c : ClassEntry} (hc : c ∈ m.classes) :
    c.parentName.bind (positionOf (arenaOf t.rules t.catalog.classes)) = c.parentIndex := by
  rw [parentIndex_listed (build_ok h.built).1 hc]
  cases hname : c.parentName with
  | none => rfl
  | some full =>
    have hothers : positionOf (m.unlisted (arenaOf t.rules t.catalog.classes)) full = none := by
      rw [positionOf, List.findIdx?_eq_none_iff]
      intro e he
      rw [beq_eq_false_iff_ne]
      rintro rfl
      exact hclear.parents e he c hc hname
    change positionOf (arenaOf t.rules t.catalog.classes) full = positionOf m.classes full
    rw [h.arenaOf_eq hclear, positionOf, List.findIdx?_append, ← positionOf, ← positionOf, hothers]
    exact Option.or_none

/-- A class of the model has the subclasses that the model lists. -/
theorem Follows.subClasses_eq (h : s.Follows m t) (hclear : m.KeptClear t.rules s.catalog t.catalog)
    {c : ClassEntry} (hc : c ∈ m.classes) :
    childrenOf (arenaOf t.rules t.catalog.classes) c.name.full = c.subClasses := by
  have hok := (build_ok h.built).1
  have hothers : (m.unlisted (arenaOf t.rules t.catalog.classes)).filter
      (fun e => !e.excluded && e.parentName == some c.name.full) = [] := by
    rw [List.filter_eq_nil_iff]
    intro e he hchild
    obtain ⟨hpublic, hparent⟩ := Bool.and_eq_true_iff.mp hchild
    exact hclear.children e he (by simpa using hpublic) c hc (beq_iff_eq.mp hparent)
  have hpublic : ∀ e ∈ m.classes, (!e.excluded && e.parentName == some c.name.full) =
      (e.parentName == some c.name.full) := by
    intro e he
    obtain ⟨d, -, hd, l, -, rfl⟩ := exists_of_mem_listed hok he
    change (!d.excluded && _) = _
    rw [hd]
    rfl
  rw [subClasses_listed hok hc, childrenOf_arena hok, h.arenaOf_eq hclear, childrenOf,
    List.filter_append, hothers, List.append_nil, List.filter_congr hpublic]

/-- If the other classes keep clear of the model, settling changes none of its classes. -/
theorem Follows.settled_eq (h : s.Follows m t) (hclear : m.KeptClear t.rules s.catalog t.catalog)
    {c e : ClassEntry} (hc : c ∈ m.classes)
    (he : SettledAs (definitionOf t.rules t.catalog.classes) t.rules
      (arenaOf t.rules t.catalog.classes) t.catalog.members c e) : c = e := by
  obtain ⟨k, hk, rfl⟩ := he
  obtain ⟨d, -, -, l, hl, hcd⟩ := exists_of_mem_listed (build_ok h.built).1 hc
  obtain ⟨k', hk', hkl, hall⟩ := h.trail hclear hl hc (by rw [hcd]; rfl)
  obtain rfl := hk.unique hk'
  -- The ancestors differ from the old ones in what resolution fills in only, so they have the same
  -- names.
  have hnames : k.map (·.name) = l.map (·.name) := by
    simpa [Function.comp_def, ClassEntry.declared] using congrArg (List.map ClassEntry.name) hkl
  have hfulls : k.map (·.name.full) = l.map (·.name.full) := by
    simpa [Function.comp_def] using congrArg (List.map ClassName.full) hnames
  have hcomponent : k.any (fun a => t.rules.componentClass == some a.name.full) = c.component := by
    have hany : ∀ es : List ClassEntry,
        es.any (fun a => s.rules.componentClass == some a.name.full) =
        (es.map (·.name.full)).any fun full => s.rules.componentClass == some full := by
      intro es
      rw [List.any_map]
      rfl
    rw [h.rules, hany, hfulls, ← hany, hcd]
    rfl
  have hmembers : (t.catalog.members.gather c.name.full (k.map (·.name.full))).listed =
      c.members := by
    rw [hclear.gather_eq hc hall, hfulls, hcd]
    rfl
  have hsuper : (k.map (·.name)).reverse = c.superClasses := by
    rw [hnames, hcd]
    rfl
  rw [settled, h.parentIndex_eq hclear hc,
    (arranges_arenaOf t.rules t.catalog.classes).mergeSort_children, h.subClasses_eq hclear hc,
    hsuper, hcomponent, hmembers]

/-- If the other classes keep clear of the model, its classes come before one whose parents run in a
loop. -/
theorem Follows.lt_of_loop (h : s.Follows m t) (hclear : m.KeptClear t.rules s.catalog t.catalog)
    {d : ClassEntry} (hd : d ∈ arenaOf t.rules t.catalog.classes) {v : List ClassEntry}
    (hv : Loop (parentIn (definitionOf t.rules t.catalog.classes)) d v) {c : ClassEntry}
    (hc : c ∈ m.classes) : c.name.full < d.name.full := by
  rw [h.arenaOf_eq hclear, List.mem_append] at hd
  rcases hd with hd | hd
  · obtain ⟨l, hl, -⟩ := superClasses_listed (build_ok h.built).1 hd
    obtain ⟨k, hk, -⟩ := h.trail hclear hl hd rfl
    exact absurd hk hv.not_trail
  · exact hclear.behind d hd c hc

/-- After a build that fails, the classes of the last model are as the resolution leaves them when
it is stopped at the first class of the reported chain. If the other classes keep clear of the
model, that changes nothing. -/
theorem Follows.model_build (h : s.Follows m t) {cycle : Cycle}
    (hfail : t.build.value.2 = .error cycle) :
    t.build.value.1.model.tree = m.tree ∧
    (∃ first, cycle.chain.head? = some first ∧
      List.Forall₂ (LeftAs t.rules t.catalog first) m.classes t.build.value.1.model.classes) ∧
    (m.KeptClear t.rules s.catalog t.catalog → t.build.value.1.model = m) := by
  obtain ⟨hout, -, htree⟩ := build_error hfail
  obtain ⟨d, hd, v, hv, hfirst, hall⟩ := resolve_stopped hout
  have hleft := h.forall₂_model hfail hall
  have htree : t.build.value.1.model.tree = m.tree := htree.trans h.tree
  refine ⟨htree, ⟨d.name.full, hfirst, hleft⟩, fun hclear => ?_⟩
  have hequal : List.Forall₂ Eq m.classes t.build.value.1.model.classes := by
    have hmem := (List.forall₂_and_left m.classes t.build.value.1.model.classes).mpr
      ⟨fun c hc => hc, hleft⟩
    refine hmem.imp ?_
    rintro c e ⟨hc, hce⟩
    rw [LeftAs, if_pos (h.lt_of_loop hclear hd hv hc)] at hce
    exact h.settled_eq hclear hc hce
  rw [List.forall₂_eq_eq_eq] at hequal
  calc t.build.value.1.model = ⟨t.build.value.1.model.classes, t.build.value.1.model.tree⟩ := rfl
    _ = m := by rw [← hequal, htree]

end KeptClear

end Session

/-! ## Collections -/

namespace Collection

theorem follows_nextAll {s : Session} {m : Model} {c : Collection} (h : s.Follows m c.session)
    (additions : List Addition) : s.Follows m (c.nextAll (additions.map .add)).1.session := by
  induction additions generalizing c with
  | nil => exact h
  | cons a additions ih =>
    refine ih ?_
    rw [next]
    cases c.contribution a with
    | ok found => exact h.add found
    | error e => exact h

/-- A build that fails leaves the last model with the same classes in the same order, with all that
they declare, and with the same packages. What resolution fills in is as the failed resolution
leaves it: the classes before the first one of the reported chain are settled among everything
collected, and the others are only linked. If the classes outside the model keep clear of it, the
model is as it was returned. -/
theorem model_after_failed_build {c mid after : Collection} {m : Model} {additions : List Addition}
    {found : List Answer} {cycle : Cycle} {w w' : World}
    (hbuilt : (c.performAll (.build :: additions.map .add) w).1 = (mid, .built (.ok m) :: found))
    (hfailed : (mid.perform .build w').1 = (after, .built (.error cycle))) :
    after.session.model.tree = m.tree ∧
    after.session.model.classes.map ClassEntry.declared = m.classes.map ClassEntry.declared ∧
    (∃ first, cycle.chain.head? = some first ∧
      List.Forall₂ (Hierarchy.LeftAs mid.session.rules mid.session.catalog first) m.classes
        after.session.model.classes) ∧
    (m.KeptClear mid.session.rules c.session.catalog mid.session.catalog →
      after.session.model = m) := by
  rw [performAll_value, nextAll] at hbuilt
  rw [perform_value] at hfailed
  obtain ⟨rfl, hanswers⟩ := Prod.mk.inj hbuilt
  obtain ⟨rfl, hanswer⟩ := Prod.mk.inj hfailed
  have hok : c.session.build.value.2 = .ok m := Answer.built.inj (List.cons.inj hanswers).1
  have hbuild : c.session.Follows m (c.next .build).1.session := Session.follows_build hok
  have hfollows := follows_nextAll hbuild additions
  obtain ⟨htree, ⟨first, hfirst, hleft⟩, hclear⟩ := hfollows.model_build (Answer.built.inj hanswer)
  have hdeclared := Hierarchy.map_eq_of_forall₂ hleft fun _ _ => Hierarchy.LeftAs.declared
  exact ⟨htree, hdeclared, ⟨first, hfirst, hleft⟩, hclear⟩

/-- A class with an event, and its child. -/
def parentAndChild : Addition :=
  .comments [{ body := "@class A" }, { body := "@event x" }, { body := "@class B\n@extends A" }] "a"

/-- A class that is its own parent. -/
def ownParent (name : String) : Addition :=
  .comments [{ body := "@class " ++ name ++ "\n@extends " ++ name }] "b"

/-- The event of the first class. -/
def parentEvents : Members where
  events := [{ name := "x", owner := ⟨"A", "A"⟩, description := ⟨"", some ""⟩, detail := {} }]

/-- The entities of the class and its child. -/
def pairCatalog : Catalog where
  classes := [{ name := ⟨"A", "A"⟩, definedIn := "a" },
    { name := ⟨"B", "B"⟩, definedIn := "a", parentName := some "A" }]
  members := parentEvents

/-- The entity of the class that is its own parent. -/
def ownParentCatalog (name : String) : Catalog where
  classes := [{ name := ⟨name, name⟩, definedIn := "b", parentName := some name }]

/-- A collection that holds the class and its child. -/
def pairCollection : Collection :=
  ((start {}).performAll [.add parentAndChild] noFiles).1.1

/-- The model of the class and its child. -/
def pairModel : Model where
  classes := [{ name := ⟨"A", "A"⟩, definedIn := "a", members := parentEvents,
                subClasses := [⟨"B", "B"⟩] },
    { name := ⟨"B", "B"⟩, definedIn := "a", parentName := some "A", members := parentEvents
      superClasses := [⟨"A", "A"⟩], parentIndex := some 0 }]
  tree := { classes := [⟨"A", "A"⟩, ⟨"B", "B"⟩] }

/-- The collection with the model built from it. -/
def builtCollection : Collection where
  config := {}
  session := { (start {}).session with
    catalog := ⟨pairModel.classes, parentEvents⟩
    shown := [0, 1]
    tree := pairModel.tree }

/-- The collection after the model was built and another class was added. -/
def grownCollection (name : String) : Collection :=
  { builtCollection with session := builtCollection.session.add (ownParentCatalog name) }

theorem pairCollection_eq :
    pairCollection = { start {} with session := (start {}).session.add pairCatalog } := by
  have hfound : (start {}).contribution parentAndChild = .ok pairCatalog := by decide +kernel
  rw [pairCollection, performAll_value]
  simp only [nextAll, next, hfound]

theorem performAll_pairCollection {name : String}
    (hfound : (start {}).contribution (ownParent name) = .ok (ownParentCatalog name)) :
    (pairCollection.performAll [.build, .add (ownParent name)] noFiles).1 =
      (grownCollection name,
        [.built (.ok pairModel), .collected (.ok (ownParentCatalog name))]) := by
  have hbuild : pairCollection.next .build = (builtCollection, .built (.ok pairModel)) := by
    rw [pairCollection_eq]
    cbv
  have hgrown : builtCollection.contribution (ownParent name) = .ok (ownParentCatalog name) := by
    rw [← hfound, ← contribution_nextAll (start {}) [.add parentAndChild],
      ← performAll_value _ _ noFiles, ← pairCollection,
      ← contribution_next pairCollection .build, hbuild]
  rw [performAll_value, nextAll, hbuild, nextAll, next, hgrown]
  rfl

/-- A class in a loop behind those of the model does them no harm. -/
theorem pairModel_spared :
    (pairCollection.performAll [.build, .add (ownParent "Z")] noFiles).1 =
      (grownCollection "Z", [.built (.ok pairModel), .collected (.ok (ownParentCatalog "Z"))]) ∧
    ((grownCollection "Z").perform .build noFiles).1.2 = .built (.error ⟨["Z", "Z"]⟩) ∧
    pairModel.KeptClear {} pairCatalog (grownCollection "Z").session.catalog ∧
    ((grownCollection "Z").perform .build noFiles).1.1.session.model = pairModel := by
  have hfound : (start {}).contribution (ownParent "Z") = .ok (ownParentCatalog "Z") := by
    decide +kernel
  have hbuilt : (pairCollection.performAll (.build :: [ownParent "Z"].map .add) noFiles).1 = _ :=
    performAll_pairCollection hfound
  have hfailed : ((grownCollection "Z").perform .build noFiles).1.2 =
      .built (.error ⟨["Z", "Z"]⟩) := by cbv
  have hunlisted :
      pairModel.unlisted (Hierarchy.arenaOf {} (grownCollection "Z").session.catalog.classes) =
      (ownParentCatalog "Z").classes := by cbv
  have hclear : pairModel.KeptClear {} pairCatalog (grownCollection "Z").session.catalog := by
    refine ⟨?_, ?_, ?_, fun _ _ => rfl⟩ <;> rw [hunlisted] <;> decide +kernel
  refine ⟨hbuilt, hfailed, hclear, ?_⟩
  obtain ⟨-, -, -, hspared⟩ := model_after_failed_build hbuilt (Prod.ext rfl hfailed)
  rw [pairCollection_eq] at hspared
  exact hspared hclear

/-- The model with the links that a failed build has left. -/
def disturbedModel : Model where
  classes := [{ name := ⟨"A", "A"⟩, definedIn := "a", members := parentEvents,
                subClasses := [⟨"B", "B"⟩] },
    { name := ⟨"B", "B"⟩, definedIn := "a", parentName := some "A", parentIndex := some 1 }]
  tree := pairModel.tree

/-- A class in a loop before those of the model leaves the child without its ancestor, and with
itself as its parent. -/
theorem pairModel_disturbed :
    (pairCollection.performAll [.build, .add (ownParent "0")] noFiles).1 =
      (grownCollection "0", [.built (.ok pairModel), .collected (.ok (ownParentCatalog "0"))]) ∧
    ((grownCollection "0").perform .build noFiles).1.2 = .built (.error ⟨["0", "0"]⟩) ∧
    ((grownCollection "0").perform .build noFiles).1.1.session.model = disturbedModel ∧
    disturbedModel.toValue ≠ pairModel.toValue ∧
    disturbedModel.classes.map (·.parentIndex) ≠ pairModel.classes.map (·.parentIndex) ∧
    (disturbedModel.get? "B").map disturbedModel.parent = some (.ok (disturbedModel.get? "B")) ∧
    (pairModel.get? "B").map pairModel.parent = some (.ok (pairModel.get? "A")) := by
  have hfound : (start {}).contribution (ownParent "0") = .ok (ownParentCatalog "0") := by
    decide +kernel
  refine ⟨performAll_pairCollection hfound, by cbv, by cbv, ?_, by decide +kernel, rfl, rfl⟩
  simp [Model.toValue, ClassEntry.toValue, ClassEntry.entries, disturbedModel, pairModel,
    parentEvents]

end Collection

end ClassReference
