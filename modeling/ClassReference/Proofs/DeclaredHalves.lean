import ClassReference.Proofs.Building
import ClassReference.Proofs.CollectionOrder
import ClassReference.Proofs.ListedClasses

/-!
# Proofs: the declared halves of classes

A resolution writes into the entries of a catalogue, so that the next one finds there what this one
has left. It makes no difference: resolution reads the declared half of an entry only
(`settleAll_congr`), overwrites the other one, and leaves every declared half as it is, also if a
cycle stops it (`map_declared_update`). Sessions with the same declared halves and members therefore
build the same model (`Session.Agrees.build_result`).
-/

namespace ClassReference

namespace Hierarchy

/-! ## Resolution reads the declared halves only -/

section Congr

variable {arena arena' classes classes' : List ClassEntry}

theorem childrenOf_congr (h : arena.map (·.declared) = arena'.map (·.declared)) :
    childrenOf arena = childrenOf arena' := by
  have hmap : ∀ (es : List ClassEntry) (full : String),
      childrenOf es full = childrenOf (es.map (·.declared)) full := by
    intro es full
    rw [childrenOf, childrenOf, List.filter_map, List.map_map]
    rfl
  funext full
  rw [hmap arena, hmap arena', h]

/-- Linking overwrites everything but the declared halves. -/
theorem link_congr (h : arena.map (·.declared) = arena'.map (·.declared)) (ms : Members) :
    link arena ms = link arena' ms := by
  have hentry : linkEntry arena ms = linkEntry arena' ms := by
    funext e
    unfold linkEntry
    rw [positionOf_congr h, childrenOf_congr h]
  have hdeclared :
      ∀ es : List ClassEntry, link es ms = (es.map (·.declared)).map (linkEntry es ms) := by
    intro es
    rw [List.map_map]
    rfl
  rw [hdeclared arena, hdeclared arena', h, hentry]

theorem Arranges.declared {defs : String → Option ClassEntry} (h : Arranges defs arena) :
    Arranges (fun full => (defs full).map (·.declared)) (arena.map (·.declared)) where
  sorted := List.pairwise_map.mpr h.sorted
  find_iff full d := by
    rw [Option.map_eq_some_iff, List.mem_map]
    constructor
    · rintro ⟨e, he, rfl⟩
      obtain ⟨hmem, hname⟩ := (h.find_iff full e).mp he
      exact ⟨⟨e, hmem, rfl⟩, hname⟩
    · rintro ⟨⟨e, he, rfl⟩, hname⟩
      exact ⟨e, (h.find_iff full e).mpr ⟨he, hname⟩, rfl⟩

theorem map_declared_definitionOf (rules : Rules) (classes : List ClassEntry) (full : String) :
    (definitionOf rules classes full).map (·.declared) =
      definitionOf rules (classes.map (·.declared)) full := by
  unfold definitionOf
  rw [Option.map_or, List.find?_map, List.find?_map]
  split <;> rfl

theorem map_declared_arenaOf (rules : Rules)
    (h : classes.map (·.declared) = classes'.map (·.declared)) :
    (arenaOf rules classes).map (·.declared) = (arenaOf rules classes').map (·.declared) := by
  have harena := (arranges_arenaOf rules classes).declared
  have harena' := (arranges_arenaOf rules classes').declared
  simp only [map_declared_definitionOf, h] at harena harena'
  exact harena.unique harena'

theorem settleAll_congr (rules : Rules) {c c' : Catalog}
    (hclasses : c.classes.map (·.declared) = c'.classes.map (·.declared))
    (hmembers : c.members = c'.members) : settleAll rules c = settleAll rules c' := by
  unfold settleAll
  rw [hmembers, link_congr (map_declared_arenaOf rules hclasses)]

end Congr

/-! ## Resolution keeps the declared halves -/

theorem declared_settleEntry {rules : Rules} {linked : List ClassEntry} {i : Nat} {e s : ClassEntry}
    (h : settleEntry rules linked i e = .ok s) : s.declared = e.declared := by
  unfold settleEntry at h
  cases ha : ancestors linked i with
  | error cycle => rw [ha] at h; cases h
  | ok positions =>
    rw [ha] at h
    obtain rfl := Except.ok.inj h
    rfl

theorem map_declared_settleFrom (rules : Rules) (linked : List ClassEntry) (i : Nat)
    (es : List ClassEntry) :
    (settleFrom rules linked i es).1.map (·.declared) = es.map (·.declared) := by
  induction es generalizing i with
  | nil => rfl
  | cons e es ih =>
    rw [settleFrom]
    split
    · rfl
    · rename_i s hs
      simp [ih (i + 1), declared_settleEntry hs]

theorem map_declared_settleAll (rules : Rules) (catalog : Catalog) :
    (settleAll rules catalog).1.map (·.declared) =
      (arenaOf rules catalog.classes).map (·.declared) := by
  rw [settleAll, map_declared_settleFrom, link, List.map_map]
  rfl

theorem map_declared_detach (out : List ClassEntry) :
    (detach out).map (·.declared) = out.map (·.declared) := by
  rw [detach, List.map_map]
  refine List.map_congr_left fun e _ => ?_
  simp only [Function.comp_apply]
  split <;> rfl

/-! ## What resolution leaves in the catalogue -/

/-- Resolution leaves the settled classes. If it is not stopped, they are detached from the excluded
ones. -/
theorem map_entry_resolve (rules : Rules) (catalog : Catalog) :
    (resolve rules catalog).value.slots.map (·.entry) =
      match settleAll rules catalog with
      | (out, some _) => out
      | (out, none) => detach out := by
  have hlen := length_settleAll rules catalog
  rw [resolve_value]
  rcases hs : settleAll rules catalog with ⟨out, _ | cycle⟩
  · rw [hs] at hlen
    exact map_entry_zipWith _ _ (by simpa [detach] using hlen)
  · rw [hs] at hlen
    exact map_entry_zipWith _ _ (by simpa using hlen)

/-- What resolution makes of a selected definition has its declared half. -/
theorem forall₂_declared_resolve (rules : Rules) (catalog : Catalog) :
    List.Forall₂ (fun d e : ClassEntry => e.declared = d.declared) (arenaOf rules catalog.classes)
      ((resolve rules catalog).value.slots.map (·.entry)) := by
  have hmap : (arenaOf rules catalog.classes).map (·.declared) =
      ((resolve rules catalog).value.slots.map (·.entry)).map (·.declared) := by
    rw [map_entry_resolve, ← map_declared_settleAll]
    rcases settleAll rules catalog with ⟨out, _ | cycle⟩
    · exact (map_declared_detach out).symm
    · rfl
  rw [← List.forall₂_eq_eq_eq, List.forall₂_map_left_iff, List.forall₂_map_right_iff] at hmap
  exact hmap.imp fun _ _ h => h.symm

theorem exists_of_forall₂ {α β : Type} {r : α → β → Prop} {l : List α} {l' : List β}
    (h : List.Forall₂ r l l') {a : α} (ha : a ∈ l) : ∃ b ∈ l', r a b := by
  induction h with
  | nil => cases ha
  | cons hab _ ih =>
    rcases List.mem_cons.mp ha with rfl | ha
    · exact ⟨_, List.mem_cons_self, hab⟩
    · obtain ⟨b, hb, hr⟩ := ih ha
      exact ⟨b, List.mem_cons_of_mem _ hb, hr⟩

/-- After a resolution, what it has made of a selected definition stands in the position of that
definition. -/
theorem getElem?_update_select {rules : Rules} {catalog : Catalog}
    {r : ClassEntry → ClassEntry → Prop}
    (h : List.Forall₂ r (arenaOf rules catalog.classes)
      ((resolve rules catalog).value.slots.map (·.entry)))
    {t : Slot} (ht : t ∈ (select rules catalog.classes).value) :
    ∃ e, r t.entry e ∧ (catalog.update (resolve rules catalog).value.slots).classes[t.position]? =
      some e := by
  have hpositions := (positions_resolve rules catalog).symm
  rw [← List.forall₂_eq_eq_eq, List.forall₂_map_left_iff, List.forall₂_map_right_iff] at hpositions
  rw [arenaOf, List.forall₂_map_left_iff, List.forall₂_map_right_iff] at h
  have hboth : List.Forall₂ (fun t s : Slot => t.position = s.position ∧ r t.entry s.entry)
      (select rules catalog.classes).value (resolve rules catalog).value.slots :=
    hpositions.mp (fun _ _ hpos hr => ⟨hpos, hr⟩) h
  obtain ⟨s, hs, hpos, hr⟩ := exists_of_forall₂ hboth ht
  exact ⟨s.entry, hr, hpos ▸ getElem?_update_resolve hs⟩

/-- Positions of other definitions are left alone. -/
theorem getElem?_update_of_notMem {rules : Rules} {catalog : Catalog} {i : Nat}
    (hi : i ∉ (select rules catalog.classes).value.map (·.position)) :
    (catalog.update (resolve rules catalog).value.slots).classes[i]? = catalog.classes[i]? := by
  rw [← positions_resolve] at hi
  exact getElem?_foldl_set_of_notMem hi

/-- Putting the resolved definitions back changes no declared half. -/
theorem map_declared_update (rules : Rules) (catalog : Catalog) :
    (catalog.update (resolve rules catalog).value.slots).classes.map (·.declared) =
      catalog.classes.map (·.declared) := by
  refine List.ext_getElem? fun i => ?_
  rw [List.getElem?_map, List.getElem?_map]
  by_cases hi : i ∈ (select rules catalog.classes).value.map (·.position)
  · obtain ⟨t, ht, rfl⟩ := List.mem_map.mp hi
    obtain ⟨e, he, hget⟩ := getElem?_update_select (forall₂_declared_resolve rules catalog) ht
    rw [hget, getElem?_of_mem_select rules catalog.classes ht, Option.map_some, Option.map_some, he]
  · rw [getElem?_update_of_notMem hi]

end Hierarchy

namespace Session

/-- Two sessions work by the same rules, and hold the same members and the same declared halves of
classes. -/
structure Agrees (s t : Session) : Prop where
  classifier : s.classifier = t.classifier
  rules : s.rules = t.rules
  members : s.catalog.members = t.catalog.members
  declared : s.catalog.classes.map (·.declared) = t.catalog.classes.map (·.declared)

theorem Agrees.refl (s : Session) : s.Agrees s :=
  ⟨rfl, rfl, rfl, rfl⟩

theorem Agrees.trans {s t u : Session} (h : s.Agrees t) (h' : t.Agrees u) : s.Agrees u :=
  ⟨h.classifier.trans h'.classifier, h.rules.trans h'.rules, h.members.trans h'.members,
    h.declared.trans h'.declared⟩

theorem Agrees.add {s t : Session} (h : s.Agrees t) (found : Catalog) :
    (s.add found).Agrees (t.add found) where
  classifier := h.classifier
  rules := h.rules
  members := congrArg (· ++ found.members) h.members
  declared := by
    change (s.catalog.classes ++ found.classes).map _ = (t.catalog.classes ++ found.classes).map _
    rw [List.map_append, List.map_append, h.declared]

theorem build_catalog (s : Session) :
    s.build.value.1.catalog =
      s.catalog.update (Hierarchy.resolve s.rules s.catalog).value.slots := by
  simp only [build, Logged.value_bind]
  split <;> rfl

theorem build_settings (s : Session) :
    s.build.value.1.classifier = s.classifier ∧ s.build.value.1.rules = s.rules := by
  simp only [build, Logged.value_bind]
  split <;> exact ⟨rfl, rfl⟩

/-- A build leaves a session that agrees with the one before, whether it fails or not. -/
theorem agrees_build (s : Session) : s.build.value.1.Agrees s where
  classifier := s.build_settings.1
  rules := s.build_settings.2
  members := by rw [build_catalog]; rfl
  declared := by rw [build_catalog, Hierarchy.map_declared_update]

/-- Sessions that agree build the same model or meet the same cycle. -/
theorem Agrees.build_result {s t : Session} (h : s.Agrees t) :
    s.build.value.2 = t.build.value.2 := by
  rw [Session.build_result, Session.build_result, h.rules, Hierarchy.resolve_outcome,
    Hierarchy.resolve_outcome, Hierarchy.settleAll_congr t.rules h.declared h.members]

end Session

end ClassReference
