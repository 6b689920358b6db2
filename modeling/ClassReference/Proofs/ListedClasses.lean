import ClassReference.Model
import ClassReference.Proofs.Settling
import Mathlib

/-!
# Proofs: the listed classes and their links

A resolution that is not stopped lists the public classes of its arena. Each of them is listed as it
was settled, except that it points to its parent by the position in the list and not by that in the
arena (`forall₂_listed`). Parents, subclasses and ancestors of listed classes agree with each other.
-/

namespace ClassReference

/-- The declared half of an entry: what its comment says. -/
def ClassEntry.declared (e : ClassEntry) : ClassEntry :=
  { e with
    members := {}
    subClasses := []
    superClasses := []
    parentIndex := none
    component := false }

namespace Hierarchy

/-! ## Positions among the public classes -/

section Positions

variable {defs : String → Option ClassEntry} {arena : List ClassEntry}

/-- Without some of its classes, an arena arranges the others. -/
theorem Arranges.filter (h : Arranges defs arena) (p : ClassEntry → Bool) :
    Arranges (fun full => (defs full).filter p) (arena.filter p) where
  sorted := h.sorted.filter p
  find_iff full e := by
    rw [Option.filter_eq_some_iff, h.find_iff, List.mem_filter]
    exact and_right_comm

theorem Arranges.find?_eq (h : Arranges defs arena) (full : String) :
    arena.find? (·.name.full == full) = defs full := by
  cases hd : defs full with
  | none =>
    rw [List.find?_eq_none]
    intro e he hn
    rw [(h.find_iff full e).mpr ⟨he, by simpa using hn⟩] at hd
    cases hd
  | some e =>
    obtain ⟨he, hn⟩ := (h.find_iff full e).mp hd
    obtain ⟨e', he'⟩ : ∃ e', arena.find? (·.name.full == full) = some e' :=
      Option.isSome_iff_exists.mp (List.find?_isSome.mpr ⟨e, he, by simpa using hn⟩)
    have hn' : e'.name.full = full := by simpa using List.find?_some he'
    rw [he', h.eq_of_name (List.mem_of_find?_eq_some he') he (hn'.trans hn.symm)]

/-- Among the elements that are kept, an element stands behind those that are kept before it. -/
theorem idxOf_filter {p : ClassEntry → Bool} {e : ClassEntry} (he : e ∈ arena) (hp : p e = true) :
    (arena.filter p).idxOf e = (arena.take (arena.idxOf e)).countP p := by
  induction arena with
  | nil => cases he
  | cons a arena ih =>
    by_cases hae : a = e
    · subst hae
      simp [hp]
    · have he' : e ∈ arena := (List.mem_cons.mp he).resolve_left (Ne.symm hae)
      rw [List.idxOf_cons_ne _ hae, List.take_succ_cons, List.countP_cons, List.filter_cons]
      split
      · rw [List.idxOf_cons_ne _ hae, ih he']
      · rw [ih he', Nat.add_zero]

theorem detachedIndex_idxOf {e : ClassEntry} (he : e ∈ arena) :
    detachedIndex arena (arena.idxOf e) =
      ((some e).filter (!·.excluded)).map (arena.filter (!·.excluded)).idxOf := by
  unfold detachedIndex
  rw [List.getElem?_idxOf he]
  cases hx : e.excluded with
  | true => simp [Option.filter, hx]
  | false =>
    have hidx := idxOf_filter (p := fun e => !e.excluded) he (by simp [hx])
    simp [Option.filter, hx, hidx]

/-- Detached positions depend only on which classes are excluded. -/
theorem detachedIndex_congr {out : List ClassEntry}
    (h : out.map (·.excluded) = arena.map (·.excluded)) :
    detachedIndex out = detachedIndex arena := by
  have hflags : ∀ (l : List ClassEntry) (i : Nat), detachedIndex l i =
      (l.map (·.excluded))[i]?.bind fun x =>
        if x then none else some (((l.map (·.excluded)).take i).countP (!·)) := by
    intro l i
    unfold detachedIndex
    rw [← List.map_take, List.countP_map, List.getElem?_map]
    cases l[i]? <;> rfl
  funext i
  rw [hflags out, hflags arena, h]

/-- The position in the arena, detached from the excluded classes, is the position among the public
ones. -/
theorem Arranges.bind_detachedIndex (h : Arranges defs arena) (full : String) :
    (positionOf arena full).bind (detachedIndex arena) =
      positionOf (arena.filter (!·.excluded)) full := by
  rw [h.positionOf_eq, (h.filter _).positionOf_eq]
  cases hd : defs full with
  | none => rfl
  | some e => exact detachedIndex_idxOf ((h.find_iff full e).mp hd).1

end Positions

/-! ## What is listed -/

/-- The class `d` of the arena is listed as `c`. -/
def ListedAs (defs : String → Option ClassEntry) (rules : Rules) (arena : List ClassEntry)
    (ms : Members) (d c : ClassEntry) : Prop :=
  ∃ l, Trail (parentIn defs) d l ∧
    c = { settled rules arena ms d l with
      parentIndex := d.parentName.bind (positionOf (arena.filter (!·.excluded))) }

/-- What settling or listing a class leaves as it is can be read off the arena. -/
theorem map_eq_of_forall₂ {β : Type} {r : ClassEntry → ClassEntry → Prop} {l l' : List ClassEntry}
    {f : ClassEntry → β} (h : List.Forall₂ r l l') (hf : ∀ d c, r d c → f c = f d) :
    l'.map f = l.map f := by
  induction h with
  | nil => rfl
  | cons hdc _ ih => rw [List.map_cons, List.map_cons, hf _ _ hdc, ih]

/-- Detaching changes the parent positions of the public classes only. -/
theorem filter_detach (out : List ClassEntry) :
    (detach out).filter (!·.excluded) = (out.filter (!·.excluded)).map fun e =>
      { e with parentIndex := e.parentIndex.bind (detachedIndex out) } := by
  unfold detach
  generalize detachedIndex out = index
  induction out with
  | nil => rfl
  | cons e out ih => cases hx : e.excluded <;> simp [hx, ih]

/-- The public classes among those that were settled are listed with positions in the list. -/
theorem Arranges.forall₂_detach {defs : String → Option ClassEntry} {arena out : List ClassEntry}
    {rules : Rules} {ms : Members} (h : Arranges defs arena)
    (hall : List.Forall₂ (SettledAs defs rules arena ms) arena out) :
    List.Forall₂ (ListedAs defs rules arena ms) (arena.filter (!·.excluded))
      ((detach out).filter (!·.excluded)) := by
  have hflags : out.map (·.excluded) = arena.map (·.excluded) := by
    refine map_eq_of_forall₂ hall ?_
    rintro d _ ⟨l, -, rfl⟩
    rfl
  have hpublic : List.Forall₂ (SettledAs defs rules arena ms) (arena.filter (!·.excluded))
      (out.filter (!·.excluded)) := by
    refine List.rel_filter ?_ hall
    rintro d _ ⟨l, -, rfl⟩
    exact Iff.rfl
  rw [filter_detach, detachedIndex_congr hflags, List.forall₂_map_right_iff]
  refine hpublic.imp ?_
  rintro d _ ⟨l, ht, rfl⟩
  refine ⟨l, ht, ?_⟩
  have hidx : (settled rules arena ms d l).parentIndex.bind (detachedIndex arena) =
      d.parentName.bind (positionOf (arena.filter (!·.excluded))) := by
    change (d.parentName.bind (positionOf arena)).bind (detachedIndex arena) = _
    rw [Option.bind_assoc]
    exact congrArg d.parentName.bind (funext h.bind_detachedIndex)
  rw [hidx]

/-- A resolution that is not stopped lists the public classes of its arena. -/
theorem forall₂_listed {rules : Rules} {catalog : Catalog} {listed : List ClassEntry}
    (h : (resolve rules catalog).value.outcome = .ok listed) :
    List.Forall₂ (ListedAs (definitionOf rules catalog.classes) rules
      (arenaOf rules catalog.classes)
        catalog.members) ((arenaOf rules catalog.classes).filter (!·.excluded)) listed := by
  rcases resolve_cases rules catalog with ⟨out, hok, hall⟩ | ⟨_, _, _, _, _, _, _, herr⟩
  · rw [hok] at h
    obtain rfl := Except.ok.inj h
    exact (arranges_arenaOf rules catalog.classes).forall₂_detach hall
  · rw [herr] at h
    cases h

/-- The trail of a class depends on its parent name only. -/
theorem Trail.of_parentName {defs : String → Option ClassEntry} {d c : ClassEntry}
    {l : List ClassEntry} (ht : Trail (parentIn defs) d l) (h : c.parentName = d.parentName) :
    Trail (parentIn defs) c l := by
  have hnext : parentIn defs c = parentIn defs d := by rw [parentIn, h, parentIn]
  cases ht with
  | stop hd => exact Trail.stop (hnext.trans hd)
  | step hd t => exact Trail.step (hnext.trans hd) t

/-- A class and its ancestors have different names. -/
theorem Arranges.trail_nodup {defs : String → Option ClassEntry} {arena : List ClassEntry}
    (h : Arranges defs arena) {d : ClassEntry} {l : List ClassEntry} (hd : d ∈ arena)
    (ht : Trail (parentIn defs) d l) : ((d :: l).map (·.name.full)).Nodup := by
  refine ht.nodup.map_on ?_
  have hmem : ∀ a ∈ d :: l, a ∈ arena := by
    intro a ha
    rcases List.mem_cons.mp ha with rfl | ha
    · exact hd
    · exact h.mem_of_trail ht a ha
  intro a ha b hb hab
  exact h.eq_of_name (hmem a ha) (hmem b hb) hab

/-! ## Names and definitions -/

theorem positionOf_congr {l l' : List ClassEntry} (h : l.map (·.declared) = l'.map (·.declared)) :
    positionOf l = positionOf l' := by
  have hmap : ∀ (es : List ClassEntry) (full : String), positionOf es full =
      (es.map (·.declared)).findIdx? (·.name.full == full) := by
    intro es full
    rw [List.findIdx?_map]
    rfl
  funext full
  rw [hmap l, hmap l', h]

/-- In a list with different names, the position of a name is where the class with this name
stands. -/
theorem positionOf_eq_some_iff {l : List ClassEntry}
    (h : l.Pairwise fun a b => a.name.full < b.name.full) {full : String} {j : Nat} :
    positionOf l full = some j ↔ ∃ p, l[j]? = some p ∧ p.name.full = full := by
  rw [positionOf, List.findIdx?_eq_some_iff_getElem]
  constructor
  · rintro ⟨hj, hn, -⟩
    exact ⟨l[j], List.getElem?_eq_getElem hj, by simpa using hn⟩
  · rintro ⟨p, hp, rfl⟩
    obtain ⟨hj, rfl⟩ := List.getElem?_eq_some_iff.mp hp
    refine ⟨hj, by simp, ?_⟩
    intro i hi
    have hlt := List.pairwise_iff_getElem.mp h i j (by omega) hj hi
    simpa using hlt.ne

/-- The selected definition of a name, if it is public, is the first public definition. -/
theorem definitionOf_public (rules : Rules) (classes : List ClassEntry) (full : String) :
    (definitionOf rules classes full).filter (!·.excluded) =
      classes.find? fun e => e.name.full == full && !e.excluded := by
  unfold definitionOf
  cases hf : classes.find? fun e => e.name.full == full && !e.excluded with
  | some e =>
    have he := List.find?_some hf
    rw [Bool.and_eq_true] at he
    simp [Option.filter, he.2]
  | none =>
    rw [Option.none_or, Option.filter_eq_none_iff]
    intro e he hpublic
    split at he
    · have hmem := List.mem_of_find?_eq_some he
      have hn := List.find?_some he
      exact List.find?_eq_none.mp hf e hmem (by rw [Bool.and_eq_true]; exact ⟨hn, hpublic⟩)
    · cases he

/-- An excluded definition is selected only if excluded classes pass on members. -/
theorem inheritFromExcluded_of_definitionOf {rules : Rules} {classes : List ClassEntry}
    {full : String} {e : ClassEntry} (h : definitionOf rules classes full = some e)
    (hx : e.excluded = true) : rules.inheritFromExcluded = true := by
  by_contra hr
  rw [definitionOf, if_neg hr, Option.or_none] at h
  have he := List.find?_some h
  simp [hx] at he

/-! ## Links -/

section Links

variable {rules : Rules} {catalog : Catalog} {listed : List ClassEntry}

theorem exists_of_mem_listed (h : (resolve rules catalog).value.outcome = .ok listed)
    {c : ClassEntry} (hc : c ∈ listed) :
    ∃ d ∈ arenaOf rules catalog.classes, d.excluded = false ∧
      ListedAs (definitionOf rules catalog.classes) rules (arenaOf rules catalog.classes)
        catalog.members d c := by
  have hall := forall₂_listed h
  obtain ⟨i, hi, rfl⟩ := List.getElem_of_mem hc
  have hi' : i < ((arenaOf rules catalog.classes).filter (!·.excluded)).length := by
    rw [hall.length_eq]
    exact hi
  have hd := List.mem_filter.mp (List.getElem_mem hi')
  exact ⟨_, hd.1, by simpa using hd.2, hall.get hi' hi⟩

/-- The declared halves of the listed classes are those of the public classes in the arena. -/
theorem map_declared_listed (h : (resolve rules catalog).value.outcome = .ok listed) :
    listed.map (·.declared) = ((arenaOf rules catalog.classes).filter (!·.excluded)).map
      (·.declared) := by
  refine map_eq_of_forall₂ (forall₂_listed h) ?_
  rintro d _ ⟨l, -, rfl⟩
  rfl

theorem sorted_listed (h : (resolve rules catalog).value.outcome = .ok listed) :
    listed.Pairwise fun a b => a.name.full < b.name.full := by
  have hsorted := ((arranges_arenaOf rules catalog.classes).filter (!·.excluded)).sorted
  have hdeclared : (listed.map (·.declared)).Pairwise fun a b => a.name.full < b.name.full := by
    rw [map_declared_listed h, List.pairwise_map]
    exact hsorted
  rw [List.pairwise_map] at hdeclared
  exact hdeclared

/-- Under each name, the first public definition is listed. -/
theorem find?_listed (h : (resolve rules catalog).value.outcome = .ok listed) (full : String) :
    (listed.find? (·.name.full == full)).map (·.declared) =
      (catalog.classes.find? fun e => e.name.full == full && !e.excluded).map (·.declared) := by
  have hfind : ∀ es : List ClassEntry, (es.find? (·.name.full == full)).map (·.declared) =
      (es.map (·.declared)).find? (·.name.full == full) := by
    intro es
    rw [List.find?_map]
    rfl
  rw [hfind, map_declared_listed h, ← hfind,
    ((arranges_arenaOf rules catalog.classes).filter (!·.excluded)).find?_eq, definitionOf_public]

/-- A listed class points to its parent by the position in the list. -/
theorem parentIndex_listed (h : (resolve rules catalog).value.outcome = .ok listed) {c : ClassEntry}
    (hc : c ∈ listed) : c.parentIndex = c.parentName.bind (positionOf listed) := by
  obtain ⟨d, -, -, l, -, rfl⟩ := exists_of_mem_listed h hc
  rw [positionOf_congr (map_declared_listed h)]
  rfl

/-- Children in the order of their names are sorted already. -/
theorem Arranges.children_sorted {defs : String → Option ClassEntry} {arena : List ClassEntry}
    (h : Arranges defs arena) (full : String) :
    (childrenOf arena full).Pairwise fun a b => a.full < b.full :=
  List.pairwise_map.mpr (h.sorted.filter _)

theorem Arranges.mergeSort_children {defs : String → Option ClassEntry} {arena : List ClassEntry}
    (h : Arranges defs arena) (full : String) :
    (childrenOf arena full).mergeSort (fun a b => decide (a.full ≤ b.full)) =
      childrenOf arena full := by
  refine List.mergeSort_of_pairwise ((h.children_sorted full).imp ?_)
  intro a b hlt
  exact decide_eq_true hlt.le

theorem subClasses_listed (h : (resolve rules catalog).value.outcome = .ok listed) {p : ClassEntry}
    (hp : p ∈ listed) : p.subClasses = childrenOf (arenaOf rules catalog.classes) p.name.full := by
  obtain ⟨d, -, -, l, -, rfl⟩ := exists_of_mem_listed h hp
  exact (arranges_arenaOf rules catalog.classes).mergeSort_children d.name.full

/-- The children among the public classes of the arena are the listed classes that name the class as
their parent. -/
theorem childrenOf_arena (h : (resolve rules catalog).value.outcome = .ok listed) (full : String) :
    childrenOf (arenaOf rules catalog.classes) full =
      (listed.filter (·.parentName == some full)).map (·.name) := by
  have hmap : ∀ es : List ClassEntry, (es.filter (·.parentName == some full)).map (·.name) =
      ((es.map (·.declared)).filter (·.parentName == some full)).map (·.name) := by
    intro es
    rw [List.filter_map, List.map_map]
    rfl
  rw [hmap, map_declared_listed h, ← hmap, List.filter_filter, childrenOf]
  simp only [Bool.and_comm]

/-- The parent of a listed class is the listed class with its parent name. It is never missing. -/
theorem parent_listed (h : (resolve rules catalog).value.outcome = .ok listed) {c : ClassEntry}
    (hc : c ∈ listed) (tree : Package) :
    (Model.mk listed tree).parent c = .ok (c.parentName.bind (Model.mk listed tree).get?) := by
  unfold Model.parent
  rw [parentIndex_listed h hc]
  cases c.parentName with
  | none => rfl
  | some full =>
    rw [Option.bind_some, Option.bind_some]
    cases hpos : positionOf listed full with
    | none =>
      have hnone : (Model.mk listed tree).get? full = none := by
        rw [Model.get?, List.find?_eq_none]
        intro e he hn
        have hn' := List.findIdx?_eq_none_iff.mp hpos e he
        rw [hn'] at hn
        cases hn
      rw [hnone]
    | some j =>
      have hget : (Model.mk listed tree).get? full = listed[j]? := by
        rw [Model.get?, List.find?_eq_getElem?_findIdx]
        rw [positionOf, List.findIdx?_eq_some_iff_findIdx_eq] at hpos
        rw [hpos.2]
      obtain ⟨p, hp, -⟩ := (positionOf_eq_some_iff (sorted_listed h)).mp hpos
      simp only [hget, hp]

/-- The ancestors of a listed class have different names, and are excluded only if excluded classes
pass on members. -/
theorem superClasses_listed (h : (resolve rules catalog).value.outcome = .ok listed)
    {c : ClassEntry} (hc : c ∈ listed) :
    ∃ l, Trail (parentIn (definitionOf rules catalog.classes)) c l ∧
      c.superClasses = (l.map (·.name)).reverse ∧ ((c :: l).map (·.name.full)).Nodup ∧
      ∀ a ∈ l, a.excluded = true → rules.inheritFromExcluded = true := by
  have harena := arranges_arenaOf rules catalog.classes
  obtain ⟨d, hd, -, l, ht, rfl⟩ := exists_of_mem_listed h hc
  have hnames : ((d :: l).map (·.name.full)).Nodup := harena.trail_nodup hd ht
  refine ⟨l, ht.of_parentName rfl, rfl, hnames, ?_⟩
  intro a ha hx
  exact inheritFromExcluded_of_definitionOf
    ((harena.find_iff _ a).mpr ⟨harena.mem_of_trail ht a ha, rfl⟩) hx

theorem component_listed (h : (resolve rules catalog).value.outcome = .ok listed) {c : ClassEntry}
    (hc : c ∈ listed) :
    c.component = true ↔ ∃ a ∈ c.superClasses, rules.componentClass = some a.full := by
  obtain ⟨d, -, -, l, -, rfl⟩ := exists_of_mem_listed h hc
  simp [settled]

/-- The links of listed classes agree with their names and with each other. -/
structure WellLinked (rules : Rules) (classes listed : List ClassEntry) : Prop where
  /-- The classes stand in the order of their names, and no name occurs twice. -/
  sorted : listed.Pairwise fun a b => a.name.full < b.name.full
  /-- Under each name, the first public definition is listed, if there is one. -/
  first_public : ∀ full, (listed.find? (·.name.full == full)).map ClassEntry.declared =
    (classes.find? fun e => e.name.full == full && !e.excluded).map ClassEntry.declared
  /-- A class points to the position of the class with its parent name. -/
  parentIndex_iff : ∀ c ∈ listed, ∀ j,
    c.parentIndex = some j ↔ ∃ p, listed[j]? = some p ∧ c.parentName = some p.name.full
  /-- The parent of a class is the listed class with its parent name. -/
  parent_eq : ∀ c ∈ listed, ∀ tree,
    (Model.mk listed tree).parent c =
    .ok (c.parentName.bind fun full => listed.find? (·.name.full == full))
  /-- The subclasses of a class are the listed classes with its name as parent name. -/
  subClasses_eq : ∀ p ∈ listed,
    p.subClasses = (listed.filter (·.parentName == some p.name.full)).map (·.name)
  /-- Subclasses stand in the order of their names, and none of them occurs twice. -/
  subClasses_sorted : ∀ p ∈ listed, p.subClasses.Pairwise fun a b => a.full < b.full
  /-- The ancestors of a class are the selected classes on the way along the parent names, the last
  one first. -/
  superClasses_trail : ∀ c ∈ listed, ∃ l, Trail (parentIn (definitionOf rules classes)) c l ∧
    c.superClasses = (l.map (·.name)).reverse ∧ ((c :: l).map (·.name.full)).Nodup ∧
    ∀ a ∈ l, a.excluded = true → rules.inheritFromExcluded = true
  /-- A class is a component if the component class is one of its ancestors. -/
  component_iff : ∀ c ∈ listed,
    c.component = true ↔ ∃ a ∈ c.superClasses, rules.componentClass = some a.full

/-- Whatever is defined, the classes that are listed are linked well. -/
theorem resolve_wellLinked (h : (resolve rules catalog).value.outcome = .ok listed) :
    WellLinked rules catalog.classes listed where
  sorted := sorted_listed h
  first_public := find?_listed h
  parentIndex_iff c hc j := by
    rw [parentIndex_listed h hc, Option.bind_eq_some_iff]
    constructor
    · rintro ⟨full, hfull, hpos⟩
      obtain ⟨p, hp, rfl⟩ := (positionOf_eq_some_iff (sorted_listed h)).mp hpos
      exact ⟨p, hp, hfull⟩
    · rintro ⟨p, hp, hfull⟩
      exact ⟨p.name.full, hfull, (positionOf_eq_some_iff (sorted_listed h)).mpr ⟨p, hp, rfl⟩⟩
  parent_eq c hc tree := parent_listed h hc tree
  subClasses_eq p hp := by
    rw [subClasses_listed h hp, childrenOf_arena h]
  subClasses_sorted p hp := by
    rw [subClasses_listed h hp]
    exact (arranges_arenaOf rules catalog.classes).children_sorted _
  superClasses_trail c hc := superClasses_listed h hc
  component_iff c hc := component_listed h hc

/-- A class whose parent is defined twice, and whose root is excluded. -/
def excludedRoot : List ClassEntry :=
  [{ name := ⟨"C", "C"⟩, parentName := some "B" },
    { name := ⟨"B", "B"⟩, excluded := true },
    { name := ⟨"A", "A"⟩, excluded := true },
    { name := ⟨"B", "B"⟩, parentName := some "A" }]

/-- What is listed of them if excluded classes pass on members and the root is the component
class. -/
def excludedRootListed : List ClassEntry :=
  [{ name := ⟨"B", "B"⟩
     parentName := some "A"
     subClasses := [⟨"C", "C"⟩]
     superClasses := [⟨"A", "A"⟩]
     component := true },
    { name := ⟨"C", "C"⟩
      parentName := some "B"
      superClasses := [⟨"A", "A"⟩, ⟨"B", "B"⟩]
      parentIndex := some 0
      component := true }]

theorem excludedRootListed_wellLinked :
    (resolve ⟨some "A", true⟩ { classes := excludedRoot }).value.outcome = .ok excludedRootListed ∧
      WellLinked ⟨some "A", true⟩ excludedRoot excludedRootListed := by
  have h : (resolve ⟨some "A", true⟩ { classes := excludedRoot }).value.outcome =
    .ok excludedRootListed := by
    cbv
  exact ⟨h, resolve_wellLinked h⟩

end Links

end Hierarchy

end ClassReference
