import ClassReference.Proofs.DeclaredHalves

/-!
# Proofs: resolutions that are stopped

If the parents of a class run in a loop, resolution is stopped there: the classes before it in the
order of names are settled, and it and those after it are only linked (`resolve_stopped`). A session
keeps the view of its last model then. The definitions that the model shows are selected again,
since nothing that is added behind a public definition takes its place (`mem_select_append`), so the
model shows what the stopped resolution has made of them (`Follows.forall₂_model`).
-/

namespace ClassReference

namespace Hierarchy

/-! ## A resolution that is stopped -/

/-- What a resolution that is stopped at the class with the name `first` leaves of a class: those
before it in the order of names are settled, and the others are linked. -/
def LeftAs (rules : Rules) (catalog : Catalog) (first : String) (d e : ClassEntry) : Prop :=
  if d.name.full < first then
    SettledAs (definitionOf rules catalog.classes) rules (arenaOf rules catalog.classes)
      catalog.members d e
  else
    e = linkEntry (arenaOf rules catalog.classes) catalog.members d

/-- Nothing that is declared is changed. -/
theorem LeftAs.declared {rules : Rules} {catalog : Catalog} {first : String} {d e : ClassEntry}
    (h : LeftAs rules catalog first d e) : e.declared = d.declared := by
  unfold LeftAs at h
  split at h
  · obtain ⟨l, -, rfl⟩ := h
    rfl
  · rw [h]
    rfl

section Stopped

variable {defs : String → Option ClassEntry} {arena : List ClassEntry} {rules : Rules}
  {ms : Members}

/-- If settling is stopped, the classes before some class are settled, and that class, whose parents
run in a loop, and those after it are left as they were linked. -/
theorem Arranges.settleFrom_stopped (h : Arranges defs arena) (before rest : List ClassEntry)
    (harena : arena = before ++ rest) {out : List ClassEntry} {cycle : Cycle}
    (hs : settleFrom rules (link arena ms) before.length (rest.map (linkEntry arena ms)) =
      (out, some cycle)) :
    ∃ between d after settled v, rest = between ++ d :: after ∧
      List.Forall₂ (SettledAs defs rules arena ms) between settled ∧
      out = settled ++ (d :: after).map (linkEntry arena ms) ∧
      Loop (parentIn defs) d v ∧ cycle = ⟨v.map (·.name.full)⟩ := by
  induction rest generalizing before out with
  | nil => cases hs
  | cons e rest ih =>
    have he : e ∈ arena := by rw [harena]; simp
    -- Settling counts positions, and `e` stands in the next one.
    have hidx : arena.idxOf e = before.length := by
      have hlt : before.length < arena.length := by rw [harena]; simp
      have hget : arena[before.length] = e := by simp [harena]
      rw [← hget]
      exact h.nodup.idxOf_getElem _ hlt
    have hcases := h.settleEntry_cases rules ms he
    rw [hidx] at hcases
    rw [List.map_cons, settleFrom] at hs
    rcases hcases with ⟨l, ht, hok⟩ | ⟨v, hv, herr⟩
    · rw [hok] at hs
      rcases hmore : settleFrom rules (link arena ms) (before.length + 1)
        (rest.map (linkEntry arena ms)) with
        ⟨more, stop⟩
      simp only [hmore, Prod.mk.injEq] at hs
      obtain ⟨rfl, rfl⟩ := hs
      obtain ⟨between, d, after, outs, v, rfl, hall, rfl, hv, hcycle⟩ :=
        ih (before ++ [e]) (by rw [harena]; simp) (by simpa using hmore)
      exact ⟨e :: between, d, after, _ :: outs, v, rfl, List.Forall₂.cons ⟨l, ht, rfl⟩ hall,
        rfl, hv, hcycle⟩
    · rw [herr] at hs
      simp only [Prod.mk.injEq, Option.some.injEq] at hs
      obtain ⟨rfl, rfl⟩ := hs
      exact ⟨[], e, rest, [], v, rfl, List.Forall₂.nil, rfl, hv, rfl⟩

end Stopped

/-- A resolution that fails is stopped at the first class of the chain that it reports. -/
theorem resolve_stopped {rules : Rules} {catalog : Catalog} {cycle : Cycle}
    (h : (resolve rules catalog).value.outcome = .error cycle) :
    ∃ d ∈ arenaOf rules catalog.classes, ∃ v,
      Loop (parentIn (definitionOf rules catalog.classes)) d v ∧
      cycle.chain.head? = some d.name.full ∧
      List.Forall₂ (LeftAs rules catalog d.name.full) (arenaOf rules catalog.classes)
        ((resolve rules catalog).value.slots.map (·.entry)) := by
  have harena := arranges_arenaOf rules catalog.classes
  rw [map_entry_resolve]
  rw [resolve_outcome] at h
  rcases hs : settleAll rules catalog with ⟨out, _ | stop⟩
  · rw [hs] at h
    cases h
  · rw [hs] at h
    obtain rfl := Except.error.inj h
    obtain ⟨between, d, after, outs, v, hsplit, hall, rfl, hv, rfl⟩ :=
      harena.settleFrom_stopped [] (arenaOf rules catalog.classes) rfl hs
    have hsorted := harena.sorted
    rw [hsplit, List.pairwise_append, List.pairwise_cons] at hsorted
    obtain ⟨-, ⟨hafter, -⟩, hbetween⟩ := hsorted
    have hd : d ∈ arenaOf rules catalog.classes := by rw [hsplit]; simp
    refine ⟨d, hd, v, hv, ?_, ?_⟩
    · obtain ⟨chain, p, rfl, -⟩ := hv
      rfl
    · have hsettled : List.Forall₂ (LeftAs rules catalog d.name.full) between outs := by
        have hboth := (List.forall₂_and_left between outs).mpr
          ⟨fun b hb => hbetween b hb d List.mem_cons_self, hall⟩
        refine hboth.imp ?_
        rintro b c ⟨hlt, hc⟩
        unfold LeftAs
        rw [if_pos hlt]
        exact hc
      have hlinked : List.Forall₂ (LeftAs rules catalog d.name.full) (d :: after)
          ((d :: after).map (linkEntry (arenaOf rules catalog.classes) catalog.members)) := by
        rw [List.forall₂_map_right_iff, List.forall₂_same]
        intro e he
        have hle : ¬ e.name.full < d.name.full := by
          rcases List.mem_cons.mp he with rfl | he
          · exact lt_irrefl _
          · exact (hafter e he).not_gt
        unfold LeftAs
        rw [if_neg hle]
      have happend : List.Forall₂ (LeftAs rules catalog d.name.full) (between ++ d :: after)
          (outs ++ (d :: after).map (linkEntry (arenaOf rules catalog.classes) catalog.members)) :=
        List.rel_append hsettled hlinked
      rw [← hsplit] at happend
      exact happend

/-! ## Selection after more has been collected -/

/-- A public definition stays selected, whatever comes behind it. -/
theorem choice_append {rules : Rules} {seen : List Slot} {full : String} {s : Slot}
    (h : choice rules seen full = some s) (hs : s.entry.excluded = false) (more : List Slot) :
    choice rules (seen ++ more) full = some s := by
  induction more generalizing seen with
  | nil => rwa [List.append_nil]
  | cons slot more ih =>
    have hnext : choice rules (seen ++ [slot]) full = some s := by
      rw [choice_concat, h]
      split
      · -- The new slot has the same name, but an earlier public definition is preferred.
        simp [preferred, hs]
      · rfl
    rw [← List.singleton_append, ← List.append_assoc]
    exact ih hnext

theorem slots_append (classes more : List ClassEntry) :
    ∃ behind, slots (classes ++ more) = slots classes ++ behind := by
  refine ⟨(more.zipIdx classes.length).map fun p => ⟨p.2, p.1⟩, ?_⟩
  simp [slots, List.zipIdx_append]

/-- A definition with its declared half only. -/
def Slot.declared (s : Slot) : Slot :=
  { s with entry := s.entry.declared }

theorem slots_declared (classes : List ClassEntry) :
    slots (classes.map (·.declared)) = (slots classes).map Slot.declared := by
  simp [slots, List.zipIdx_map, Slot.declared, Function.comp_def]

/-- Which definition is selected depends on the declared halves only. -/
theorem choice_declared (rules : Rules) (l : List Slot) (full : String) :
    choice rules (l.map Slot.declared) full = (choice rules l full).map Slot.declared := by
  unfold choice
  rw [Option.map_or, List.find?_map, List.find?_map]
  split <;> rfl

/-- A public definition that was selected is selected again, with whatever has been filled in since,
after more has been collected. -/
theorem mem_select_append {rules : Rules} {classes classes' more : List ClassEntry}
    (hdeclared : classes'.map (·.declared) = classes.map (·.declared)) {t : Slot}
    (ht : t ∈ (select rules classes).value) (hpublic : t.entry.excluded = false) {e : ClassEntry}
    (he : classes'[t.position]? = some e) :
    ⟨t.position, e⟩ ∈ (select rules (classes' ++ more)).value := by
  have hchoice : (choice rules (slots classes') t.entry.name.full).map Slot.declared =
      some t.declared := by
    rw [← choice_declared, ← slots_declared, hdeclared, slots_declared, choice_declared,
      (mem_select_iff rules classes).mp ht]
    rfl
  obtain ⟨u, hu, hut⟩ := Option.map_eq_some_iff.mp hchoice
  have hposition : u.position = t.position := (congrArg Slot.position hut :)
  have hentry : u.entry.declared = t.entry.declared := (congrArg Slot.entry hut :)
  have hue : u = ⟨t.position, e⟩ := by
    have hmem := (mem_slots_iff classes').mp (mem_of_choice hu)
    rw [hposition, he] at hmem
    rw [← hposition, Option.some.inj hmem]
  have hname : u.entry.name = t.entry.name := (congrArg ClassEntry.name hentry :)
  have hexcluded : u.entry.excluded = t.entry.excluded := (congrArg ClassEntry.excluded hentry :)
  obtain ⟨behind, hbehind⟩ := slots_append classes' more
  rw [← hue, mem_select_iff, hname, hbehind]
  exact choice_append hu (hexcluded.trans hpublic) behind

/-- A name that is defined stays defined, whatever comes behind. -/
theorem isSome_definitionOf_append {rules : Rules} {classes : List ClassEntry} {full : String}
    (h : (definitionOf rules classes full).isSome) (more : List ClassEntry) :
    (definitionOf rules (classes ++ more) full).isSome := by
  unfold definitionOf at h ⊢
  rw [Option.isSome_or, Bool.or_eq_true] at h ⊢
  rcases h with h | h
  · left
    rw [List.find?_append, Option.isSome_or, h, Bool.true_or]
  · right
    split at h
    · rw [if_pos ‹_›, List.find?_append, Option.isSome_or, h, Bool.true_or]
    · cases h

end Hierarchy

/-! ## What a failed build leaves of the last model -/

namespace Session

open Hierarchy

/-- A build that succeeds shows the listed classes. -/
theorem build_ok {s : Session} {m : Model} (h : s.build.value.2 = .ok m) :
    (resolve s.rules s.catalog).value.outcome = .ok m.classes ∧
      m.classes = (resolve s.rules s.catalog).value.listedSlots.map (·.entry) ∧
      s.build.value.1.shown = (resolve s.rules s.catalog).value.listedSlots.map (·.position) ∧
      s.build.value.1.tree = m.tree := by
  have hresult := h
  rw [build_result] at hresult
  simp only [build, Logged.value_bind] at h ⊢
  set r := (resolve s.rules s.catalog).value with hr
  cases hc : r.outcome with
  | error cycle => rw [hc] at hresult; cases hresult
  | ok classes =>
    have hclasses : r.listedSlots.map (·.entry) = classes := by
      unfold Resolution.outcome at hc
      cases hcycle : r.cycle with
      | some cycle => rw [hcycle] at hc; cases hc
      | none => rw [hcycle] at hc; exact Except.ok.inj hc
    rw [hc] at hresult
    obtain rfl := Except.ok.inj hresult
    exact ⟨rfl, hclasses.symm, rfl, rfl⟩

/-- A build that fails changes the catalogue only. -/
theorem build_error {s : Session} {cycle : Cycle} (h : s.build.value.2 = .error cycle) :
    (resolve s.rules s.catalog).value.outcome = .error cycle ∧ s.build.value.1.shown = s.shown ∧
      s.build.value.1.tree = s.tree := by
  have hresult := h
  rw [build_result] at hresult
  simp only [build, Logged.value_bind] at h ⊢
  cases hc : (resolve s.rules s.catalog).value.outcome with
  | error cycle' =>
    rw [hc] at hresult
    obtain rfl := Except.error.inj hresult
    exact ⟨rfl, rfl, rfl⟩
  | ok classes => rw [hc] at hresult; cases hresult

/-- The session `t` comes from `s` by a build that showed the model `m`, and by additions. -/
structure Follows (s : Session) (m : Model) (t : Session) : Prop where
  /-- The build showed the model. -/
  built : s.build.value.2 = .ok m
  /-- The rules are the same. -/
  rules : t.rules = s.rules
  /-- Definitions were added behind the others. -/
  classes : ∃ more, t.catalog.classes = s.build.value.1.catalog.classes ++ more
  /-- The model is still the last one. -/
  shown : t.shown = s.build.value.1.shown
  /-- Its packages are still shown. -/
  tree : t.tree = m.tree

section Follows

variable {s t : Session} {m : Model}

theorem follows_build (h : s.build.value.2 = .ok m) : s.Follows m s.build.value.1 where
  built := h
  rules := s.build_settings.2
  classes := ⟨[], (List.append_nil _).symm⟩
  shown := rfl
  tree := (build_ok h).2.2.2

theorem Follows.add (h : s.Follows m t) (found : Catalog) : s.Follows m (t.add found) where
  built := h.built
  rules := h.rules
  classes := by
    obtain ⟨more, hmore⟩ := h.classes
    refine ⟨more ++ found.classes, ?_⟩
    rw [← List.append_assoc, ← hmore]
    rfl
  shown := h.shown
  tree := h.tree

/-- The definitions that the last model shows are selected again. -/
theorem Follows.mem_select (h : s.Follows m t) {u : Slot}
    (hu : u ∈ (resolve s.rules s.catalog).value.listedSlots) :
    u ∈ (select t.rules t.catalog.classes).value := by
  obtain ⟨hslot, hpublic⟩ := List.mem_filter.mp hu
  obtain ⟨more, hmore⟩ := h.classes
  have hget := getElem?_update_resolve hslot
  obtain ⟨v, hv, hposition⟩ : ∃ v ∈ (select s.rules s.catalog.classes).value, v.position =
    u.position := by
    have hmem := List.mem_map_of_mem (f := Slot.position) hslot
    rw [positions_resolve] at hmem
    exact List.mem_map.mp hmem
  obtain ⟨e, hdeclared, hget'⟩ :=
    getElem?_update_select (forall₂_declared_resolve s.rules s.catalog) hv
  rw [hposition, hget] at hget'
  obtain rfl := Option.some.inj hget'
  have hexcluded : u.entry.excluded = v.entry.excluded := (congrArg ClassEntry.excluded hdeclared :)
  rw [hmore, h.rules, build_catalog]
  rw [← hposition] at hget
  have heta : u = ⟨v.position, u.entry⟩ := by rw [hposition]
  rw [heta]
  exact mem_select_append (map_declared_update s.rules s.catalog) hv
    (by rw [← hexcluded]; simpa using hpublic) hget

theorem Follows.mem_arenaOf (h : s.Follows m t) {c : ClassEntry} (hc : c ∈ m.classes) :
    c ∈ arenaOf t.rules t.catalog.classes := by
  rw [(build_ok h.built).2.1] at hc
  obtain ⟨u, hu, rfl⟩ := List.mem_map.mp hc
  exact List.mem_map_of_mem (h.mem_select hu)

/-- After a build that fails, the last model shows what resolution has made of its classes. -/
theorem Follows.forall₂_model (h : s.Follows m t) {cycle : Cycle}
    (hfail : t.build.value.2 = .error cycle) {r : ClassEntry → ClassEntry → Prop}
    (hr : List.Forall₂ r (arenaOf t.rules t.catalog.classes)
      ((resolve t.rules t.catalog).value.slots.map (·.entry))) :
    List.Forall₂ r m.classes t.build.value.1.model.classes := by
  obtain ⟨-, hclasses, hshown, -⟩ := build_ok h.built
  have hslots : ∀ l : List Slot, (∀ u ∈ l, u ∈ (select t.rules t.catalog.classes).value) →
      List.Forall₂ r (l.map (·.entry))
        ((l.map (·.position)).filterMap (t.build.value.1.catalog.classes[·]?)) := by
    intro l hl
    induction l with
    | nil => exact List.Forall₂.nil
    | cons u l ih =>
      obtain ⟨e, hue, hget⟩ := getElem?_update_select hr (hl u List.mem_cons_self)
      rw [← build_catalog] at hget
      rw [List.map_cons, List.map_cons, List.filterMap_cons_some hget]
      exact List.Forall₂.cons hue (ih fun v hv => hl v (List.mem_cons_of_mem _ hv))
  rw [model, (build_error hfail).2.1, h.shown, hshown, hclasses]
  exact hslots _ fun u hu => h.mem_select hu

end Follows

end Session

end ClassReference
