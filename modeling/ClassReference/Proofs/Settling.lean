import ClassReference.Hierarchy.Resolution
import ClassReference.Proofs.MemberLists
import ClassReference.Proofs.ParentWalk
import ClassReference.Proofs.Selection

/-!
# Proofs: settling the classes of an arena

Resolution works with positions in an arena. Here they are replaced by the classes that stand there:
the parent of a class is the definition that its parent name selects (`parentIn`), its ancestors are
the trail of these parents, and settling it gives one entry that depends on its definition and its
trail only (`settled`). The classes are settled in order up to the first whose parents run in a loop
(`resolve_cases`).
-/

namespace ClassReference.Hierarchy

/-- The parent of a class among the classes that `defs` gives. -/
def parentIn (defs : String → Option ClassEntry) (e : ClassEntry) : Option ClassEntry :=
  e.parentName.bind defs

/-- The entry of a class with its links, its ancestors and its members. -/
def settled (rules : Rules) (arena : List ClassEntry) (ms : Members) (d : ClassEntry)
    (ancestors : List ClassEntry) : ClassEntry :=
  { d with
    parentIndex := d.parentName.bind (positionOf arena)
    subClasses := (childrenOf arena d.name.full).mergeSort fun a b => decide (a.full ≤ b.full)
    superClasses := (ancestors.map (·.name)).reverse
    component := ancestors.any fun a => rules.componentClass == some a.name.full
    members := (ms.gather d.name.full (ancestors.map (·.name.full))).listed }

/-! ## Classes and positions -/

section Arena

variable {defs : String → Option ClassEntry} {arena : List ClassEntry} {ms : Members}

theorem Arranges.nodup (h : Arranges defs arena) : arena.Nodup := by
  refine h.sorted.imp ?_
  rintro a b hlt rfl
  exact lt_irrefl _ hlt

theorem Arranges.mem_of_parentIn (h : Arranges defs arena) {e p : ClassEntry}
    (hp : parentIn defs e = some p) : p ∈ arena := by
  obtain ⟨full, -, hd⟩ := Option.bind_eq_some_iff.mp hp
  exact ((h.find_iff full p).mp hd).1

theorem Arranges.mem_of_trail (h : Arranges defs arena) {e : ClassEntry} {l : List ClassEntry}
    (ht : Trail (parentIn defs) e l) : ∀ a ∈ l, a ∈ arena := by
  induction ht with
  | stop _ => simp
  | step hs _ ih =>
    intro a ha
    rcases List.mem_cons.mp ha with rfl | ha
    · exact h.mem_of_parentIn hs
    · exact ih a ha

theorem Arranges.eq_of_name (h : Arranges defs arena) {a b : ClassEntry} (ha : a ∈ arena)
    (hb : b ∈ arena) (hab : a.name.full = b.name.full) : a = b := by
  have hda := (h.find_iff b.name.full a).mpr ⟨ha, hab⟩
  have hdb := (h.find_iff b.name.full b).mpr ⟨hb, rfl⟩
  exact Option.some.inj (hda.symm.trans hdb)

/-- The position of a name is that of the class with this name. -/
theorem Arranges.positionOf_eq (h : Arranges defs arena) (full : String) :
    positionOf arena full = (defs full).map arena.idxOf := by
  unfold positionOf
  cases hd : defs full with
  | none =>
    rw [Option.map_none, List.findIdx?_eq_none_iff]
    intro e he
    rw [beq_eq_false_iff_ne]
    intro hn
    rw [(h.find_iff full e).mpr ⟨he, hn⟩] at hd
    cases hd
  | some e =>
    obtain ⟨he, hn⟩ := (h.find_iff full e).mp hd
    have hlt := List.idxOf_lt_length_of_mem he
    rw [Option.map_some, List.findIdx?_eq_some_iff_getElem]
    refine ⟨hlt, by simp [hn], ?_⟩
    intro j hj hjn
    have hje : arena[j] = e := h.eq_of_name (List.getElem_mem _) he (by rw [hn]; simpa using hjn)
    have hij := h.nodup.idxOf_getElem j (by omega)
    rw [hje] at hij
    omega

theorem getElem?_link (i : Nat) : (link arena ms)[i]? = arena[i]?.map (linkEntry arena ms) := by
  simp [link]

theorem parentAt_link (i : Nat) :
    parentAt (link arena ms) i = arena[i]?.bind fun e => e.parentName.bind (positionOf arena) := by
  rw [parentAt, getElem?_link]
  cases arena[i]? <;> rfl

theorem namesAt_link (positions : List Nat) :
    namesAt (link arena ms) positions = namesAt arena positions := by
  refine congrArg (positions.filterMap ·) (funext fun i => ?_)
  rw [getElem?_link, Option.map_map]
  rfl

/-- The links of the arena lead from class to parent as the names do. -/
theorem Arranges.parentAt_idxOf (h : Arranges defs arena) {e : ClassEntry} (he : e ∈ arena) :
    parentAt (link arena ms) (arena.idxOf e) = (parentIn defs e).map arena.idxOf := by
  rw [parentAt_link, List.getElem?_idxOf he]
  cases hp : e.parentName with
  | none => simp [parentIn, hp]
  | some full => simp [parentIn, hp, h.positionOf_eq]

/-- Every link of the arena leads to a class. -/
theorem Arranges.parentIndex_lt (h : Arranges defs arena) {i j : Nat}
    (hij : parentAt (link arena ms) i = some j) : j < arena.length := by
  rw [parentAt_link] at hij
  obtain ⟨e, -, hp⟩ := Option.bind_eq_some_iff.mp hij
  obtain ⟨full, -, hpos⟩ := Option.bind_eq_some_iff.mp hp
  rw [h.positionOf_eq] at hpos
  obtain ⟨p, hd, rfl⟩ := Option.map_eq_some_iff.mp hpos
  exact List.idxOf_lt_length_of_mem ((h.find_iff full p).mp hd).1

theorem filterMap_idxOf {l : List ClassEntry} (hl : ∀ a ∈ l, a ∈ arena) :
    (l.map arena.idxOf).filterMap (arena[·]?) = l := by
  rw [List.filterMap_map]
  calc l.filterMap ((arena[·]?) ∘ arena.idxOf) = l.filterMap some :=
        List.filterMap_congr fun a ha => List.getElem?_idxOf (hl a ha)
    _ = l := List.filterMap_some

theorem namesAt_idxOf {l : List ClassEntry} (hl : ∀ a ∈ l, a ∈ arena) :
    namesAt arena (l.map arena.idxOf) = l.map (·.name.full) := by
  have hmap : namesAt arena (l.map arena.idxOf) =
      ((l.map arena.idxOf).filterMap (arena[·]?)).map (·.name.full) := by
    rw [namesAt, List.map_filterMap]
  rw [hmap, filterMap_idxOf hl]

theorem Arranges.mem_of_loop (h : Arranges defs arena) {e : ClassEntry} {v : List ClassEntry}
    (he : e ∈ arena) (hv : Loop (parentIn defs) e v) : ∀ a ∈ v, a ∈ arena := by
  intro a ha
  exact mem_of_reaches (fun _ _ _ hy => h.mem_of_parentIn hy) he (hv.reaches a ha)

/-- The ancestors of a class are the classes on its trail. If there is no trail, the names on its
loop are reported. -/
theorem Arranges.ancestors_cases (h : Arranges defs arena) (ms : Members) {e : ClassEntry}
    (he : e ∈ arena) :
    (∃ l, Trail (parentIn defs) e l ∧
      ancestors (link arena ms) (arena.idxOf e) = .ok (l.map arena.idxOf)) ∨
    ∃ v, Loop (parentIn defs) e v ∧
      ancestors (link arena ms) (arena.idxOf e) = .error ⟨v.map (·.name.full)⟩ := by
  have hclosed : ∀ x ∈ arena, ∀ y, parentIn defs x = some y → y ∈ arena :=
    fun _ _ _ hy => h.mem_of_parentIn hy
  have hmap : climb (parentAt (link arena ms)) (arena.idxOf e) arena.length []
      (parentAt (link arena ms) (arena.idxOf e)) =
      ((climb (parentIn defs) e arena.length [] (parentIn defs e)).map
        (List.map arena.idxOf)).mapError
        (List.map arena.idxOf) := by
    rw [h.parentAt_idxOf he]
    exact climb_map hclosed (fun x hx y _ hxy => (List.idxOf_inj hx).mp hxy)
      (fun x hx => h.parentAt_idxOf hx) arena.length [] (by simpa using he) (parentIn defs e)
      (fun p hp => hclosed e he p hp)
  have hlen : (link arena ms).length = arena.length := by simp [link]
  unfold ancestors
  rw [hlen, hmap]
  rcases climb_start hclosed he (Nat.le_refl arena.length) with ⟨l, hok, ht⟩ | ⟨v, herr, hv⟩
  · exact Or.inl ⟨l, ht, by rw [hok]; rfl⟩
  · refine Or.inr ⟨v, hv, ?_⟩
    rw [herr]
    simp only [Except.map, Except.mapError, namesAt_link, namesAt_idxOf (h.mem_of_loop he hv)]

/-! ## Settling one class -/

/-- Settling a class depends on its definition and its ancestors only. -/
theorem settleEntry_link (rules : Rules) (i : Nat) (d : ClassEntry) :
    settleEntry rules (link arena ms) i (linkEntry arena ms d) =
      (ancestors (link arena ms) i).map fun positions =>
        settled rules arena ms d (positions.filterMap (arena[·]?)) := by
  unfold settleEntry
  cases ancestors (link arena ms) i with
  | error c => rfl
  | ok positions =>
    have hchain : positions.filterMap ((link arena ms)[·]?) =
        (positions.filterMap (arena[·]?)).map (linkEntry arena ms) := by
      simp only [getElem?_link, List.map_filterMap]
    simp only [bind, Except.bind, pure, Except.pure, Except.map, hchain]
    congr 1
    simp only [settled, linkEntry, Members.gather, List.map_map, List.foldl_map, List.any_map]
    rfl

theorem Arranges.settleEntry_cases (h : Arranges defs arena) (rules : Rules) (ms : Members)
    {e : ClassEntry} (he : e ∈ arena) :
    (∃ l, Trail (parentIn defs) e l ∧
      settleEntry rules (link arena ms) (arena.idxOf e) (linkEntry arena ms e) =
        .ok (settled rules arena ms e l)) ∨
    ∃ v, Loop (parentIn defs) e v ∧
      settleEntry rules (link arena ms) (arena.idxOf e) (linkEntry arena ms e) =
        .error ⟨v.map (·.name.full)⟩ := by
  rw [settleEntry_link]
  rcases h.ancestors_cases ms he with ⟨l, ht, hok⟩ | ⟨v, hv, herr⟩
  · refine Or.inl ⟨l, ht, ?_⟩
    rw [hok]
    simp only [Except.map, filterMap_idxOf (h.mem_of_trail ht)]
  · exact Or.inr ⟨v, hv, by rw [herr]; rfl⟩

/-! ## Settling all classes -/

theorem length_settleFrom (rules : Rules) (linked : List ClassEntry) (i : Nat)
    (es : List ClassEntry) : (settleFrom rules linked i es).1.length = es.length := by
  induction es generalizing i with
  | nil => rfl
  | cons e es ih =>
    rw [settleFrom]
    split
    · rfl
    · simp [ih (i + 1)]

/-- The class at the given place is settled as `s`. -/
def SettledAs (defs : String → Option ClassEntry) (rules : Rules) (arena : List ClassEntry)
    (ms : Members) (d s : ClassEntry) : Prop :=
  ∃ l, Trail (parentIn defs) d l ∧ s = settled rules arena ms d l

/-- From any place of the arena on, either all classes are settled, or the first one whose parents
run in a loop is reported. -/
theorem Arranges.settleFrom_cases (h : Arranges defs arena) (rules : Rules) (ms : Members)
    (before rest : List ClassEntry) (harena : arena = before ++ rest) :
    (∃ out, settleFrom rules (link arena ms) before.length (rest.map (linkEntry arena ms)) =
      (out, none) ∧
      List.Forall₂ (SettledAs defs rules arena ms) rest out) ∨
    ∃ between d after v, rest = between ++ d :: after ∧
      (∀ b ∈ between, ∃ l, Trail (parentIn defs) b l) ∧ Loop (parentIn defs) d v ∧
      (settleFrom rules (link arena ms) before.length (rest.map (linkEntry arena ms))).2 =
        some ⟨v.map (·.name.full)⟩ := by
  induction rest generalizing before with
  | nil => exact Or.inl ⟨[], rfl, List.Forall₂.nil⟩
  | cons e rest ih =>
    have he : e ∈ arena := by rw [harena]; simp
    have hidx : arena.idxOf e = before.length := by
      have hlt : before.length < arena.length := by rw [harena]; simp
      have hget : arena[before.length] = e := by simp [harena]
      rw [← hget]
      exact h.nodup.idxOf_getElem _ hlt
    have hcases := h.settleEntry_cases rules ms he
    rw [hidx] at hcases
    simp only [List.map_cons, settleFrom]
    rcases hcases with ⟨l, ht, hok⟩ | ⟨v, hv, herr⟩
    · have hrest := ih (before ++ [e]) (by rw [harena]; simp)
      simp only [List.length_append, List.length_singleton] at hrest
      rw [hok]
      rcases hrest with ⟨out, hout, hall⟩ | ⟨between, d, after, v, hsplit, hbefore, hv, hcycle⟩
      · exact Or.inl ⟨_ :: out, by simp only [hout], List.Forall₂.cons ⟨l, ht, rfl⟩ hall⟩
      · refine Or.inr ⟨e :: between, d, after, v, by rw [hsplit]; rfl, ?_, hv, hcycle⟩
        intro b hb
        rcases List.mem_cons.mp hb with rfl | hb
        · exact ⟨l, ht⟩
        · exact hbefore b hb
    · exact Or.inr ⟨[], e, rest, v, rfl, by simp, hv, by rw [herr]⟩

end Arena

/-! ## Resolving a catalogue -/

/-- The selected classes of a catalogue in the order of their names. -/
def arenaOf (rules : Rules) (classes : List ClassEntry) : List ClassEntry :=
  (select rules classes).value.map (·.entry)

theorem arranges_arenaOf (rules : Rules) (classes : List ClassEntry) :
    Arranges (definitionOf rules classes) (arenaOf rules classes) :=
  arranges_select rules classes

/-- Settling the classes of a catalogue in order. -/
def settleAll (rules : Rules) (catalog : Catalog) : List ClassEntry × Option Cycle :=
  settleFrom rules (link (arenaOf rules catalog.classes) catalog.members) 0
    (link (arenaOf rules catalog.classes) catalog.members)

theorem length_settleAll (rules : Rules) (catalog : Catalog) :
    (settleAll rules catalog).1.length = (select rules catalog.classes).value.length := by
  rw [settleAll, length_settleFrom, link, List.length_map, arenaOf, List.length_map]

/-- A resolution puts the settled classes into the positions of their definitions. If it is not
stopped, they are detached from the excluded ones first. -/
theorem resolve_value (rules : Rules) (catalog : Catalog) :
    (resolve rules catalog).value =
      match settleAll rules catalog with
      | (out, some cycle) =>
        ⟨((select rules catalog.classes).value.map (·.position)).zipWith Slot.mk out, some cycle⟩
      | (out, none) =>
        ⟨((select rules catalog.classes).value.map (·.position)).zipWith Slot.mk
          (detach out), none⟩ := by
  simp only [resolve, Logged.value_bind]
  rw [← arenaOf, ← settleAll]
  rcases settleAll rules catalog with ⟨out, _ | cycle⟩ <;> rfl

theorem map_entry_zipWith (positions : List Nat) (es : List ClassEntry)
    (h : es.length = positions.length) : (positions.zipWith Slot.mk es).map (·.entry) = es := by
  refine List.ext_getElem (by simp [h]) ?_
  intro i h1 h2
  simp

/-- A resolution results in the public classes among those that were settled, or in the cycle that
stopped it. -/
theorem resolve_outcome (rules : Rules) (catalog : Catalog) :
    (resolve rules catalog).value.outcome =
      match settleAll rules catalog with
      | (_, some cycle) => .error cycle
      | (out, none) => .ok ((detach out).filter (!·.excluded)) := by
  have hlen := length_settleAll rules catalog
  rw [resolve_value]
  rcases hs : settleAll rules catalog with ⟨out, _ | cycle⟩
  · rw [hs] at hlen
    have hentries :=
      map_entry_zipWith ((select rules catalog.classes).value.map (·.position)) (detach out)
      (by simpa [detach] using hlen)
    simp only [Resolution.outcome, Resolution.listedSlots]
    conv_rhs => rw [← hentries, List.filter_map]
    rfl
  · rfl

/-- A resolution settles all classes and lists the public ones, or reports the first class whose
parents run in a loop. -/
theorem resolve_cases (rules : Rules) (catalog : Catalog) :
    (∃ out, (resolve rules catalog).value.outcome = .ok ((detach out).filter (!·.excluded)) ∧
      List.Forall₂ (SettledAs (definitionOf rules catalog.classes) rules
        (arenaOf rules catalog.classes)
        catalog.members) (arenaOf rules catalog.classes) out) ∨
    ∃ before d after v, arenaOf rules catalog.classes = before ++ d :: after ∧
      (∀ b ∈ before, ∃ l, Trail (parentIn (definitionOf rules catalog.classes)) b l) ∧
      Loop (parentIn (definitionOf rules catalog.classes)) d v ∧
      (resolve rules catalog).value.outcome = .error ⟨v.map (·.name.full)⟩ := by
  have h := arranges_arenaOf rules catalog.classes
  rw [resolve_outcome]
  rcases h.settleFrom_cases rules catalog.members [] (arenaOf rules catalog.classes) rfl with
    ⟨out, hout, hall⟩ | ⟨before, d, after, v, hsplit, hbefore, hv, hcycle⟩
  · have hall' : settleAll rules catalog = (out, none) := hout
    exact Or.inl ⟨out, by rw [hall'], hall⟩
  · have hcycle' : (settleAll rules catalog).2 = some ⟨v.map (·.name.full)⟩ := hcycle
    refine Or.inr ⟨before, d, after, v, hsplit, hbefore, hv, ?_⟩
    rcases hs : settleAll rules catalog with ⟨out, _ | cycle⟩
    · rw [hs] at hcycle'
      cases hcycle'
    · rw [hs] at hcycle'
      rw [Option.some.inj hcycle']

end ClassReference.Hierarchy
