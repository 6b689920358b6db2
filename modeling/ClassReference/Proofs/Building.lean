import ClassReference.Session
import ClassReference.Proofs.Settling

/-!
# Proofs: building a model

A build puts the resolved definitions back into the catalogue and shows them by their positions. As
the positions are different, what is shown is what resolution lists (`build_result`).
-/

namespace ClassReference

/-! ## Putting definitions back -/

section Update

variable {slots : List Hierarchy.Slot} {classes : List ClassEntry}

theorem getElem?_foldl_set_of_notMem {i : Nat} (hi : i ∉ slots.map (·.position)) :
    (slots.foldl (fun classes s => classes.set s.position s.entry) classes)[i]? = classes[i]? := by
  induction slots generalizing classes with
  | nil => rfl
  | cons s slots ih =>
    rw [List.map_cons, List.mem_cons, not_or] at hi
    rw [List.foldl_cons, ih hi.2, List.getElem?_set_ne (Ne.symm hi.1)]

theorem getElem?_foldl_set (hnd : (slots.map (·.position)).Nodup)
    (hlt : ∀ s ∈ slots, s.position < classes.length) {s : Hierarchy.Slot} (hs : s ∈ slots) :
    (slots.foldl (fun classes s => classes.set s.position s.entry) classes)[s.position]? =
      some s.entry := by
  induction slots generalizing classes with
  | nil => cases hs
  | cons t slots ih =>
    rw [List.map_cons, List.nodup_cons] at hnd
    rw [List.foldl_cons]
    rcases List.mem_cons.mp hs with rfl | hs
    · rw [getElem?_foldl_set_of_notMem hnd.1, List.getElem?_set_self (hlt s List.mem_cons_self)]
    · refine ih hnd.2 ?_ hs
      intro u hu
      rw [List.length_set]
      exact hlt u (List.mem_cons_of_mem _ hu)

end Update

namespace Hierarchy

/-- Resolution leaves every selected definition in its position. -/
theorem positions_resolve (rules : Rules) (catalog : Catalog) :
    (resolve rules catalog).value.slots.map (·.position) =
      (select rules catalog.classes).value.map (·.position) := by
  have hzip : ∀ (positions : List Nat) (es : List ClassEntry), es.length = positions.length →
      (positions.zipWith Slot.mk es).map (·.position) = positions := by
    intro positions es hlen
    refine List.ext_getElem (by simp [hlen]) ?_
    intro i h1 h2
    simp
  have hlen := length_settleAll rules catalog
  rw [resolve_value]
  rcases hs : settleAll rules catalog with ⟨out, _ | cycle⟩
  · rw [hs] at hlen
    exact hzip _ _ (by simpa [detach] using hlen)
  · rw [hs] at hlen
    exact hzip _ _ (by simpa using hlen)

/-- After a resolution, each of its definitions stands in its position of the catalogue. -/
theorem getElem?_update_resolve {rules : Rules} {catalog : Catalog} {s : Slot}
    (hs : s ∈ (resolve rules catalog).value.slots) :
    (catalog.update (resolve rules catalog).value.slots).classes[s.position]? = some s.entry := by
  have hpositions := positions_resolve rules catalog
  refine getElem?_foldl_set ?_ ?_ hs
  · rw [hpositions]
    exact select_positions_nodup rules catalog.classes
  · intro t ht
    have hmem : t.position ∈ (select rules catalog.classes).value.map (·.position) := by
      rw [← hpositions]
      exact List.mem_map_of_mem ht
    obtain ⟨u, hu, hut⟩ := List.mem_map.mp hmem
    rw [← hut]
    exact (List.getElem?_eq_some_iff.mp (getElem?_of_mem_select rules catalog.classes hu)).1

end Hierarchy

/-! ## The model -/

namespace Session

/-- A build results in the listed classes with their packages, or in the cycle that stopped the
resolution. -/
theorem build_result (s : Session) :
    s.build.value.2 = (Hierarchy.resolve s.rules s.catalog).value.outcome.map fun classes =>
      ⟨classes, Package.ofClasses classes⟩ := by
  simp only [build, Logged.value_bind]
  set r := (Hierarchy.resolve s.rules s.catalog).value with hr
  have hshown :
      (r.listedSlots.map (·.position)).filterMap ((s.catalog.update r.slots).classes[·]?) =
      r.listedSlots.map (·.entry) := by
    rw [List.filterMap_map, ← List.filterMap_eq_map]
    refine List.filterMap_congr ?_
    intro t ht
    exact Hierarchy.getElem?_update_resolve (List.mem_filter.mp ht).1
  cases hc : r.outcome with
  | error cycle => rfl
  | ok classes =>
    have hclasses : r.listedSlots.map (·.entry) = classes := by
      unfold Hierarchy.Resolution.outcome at hc
      cases hcycle : r.cycle with
      | some cycle => rw [hcycle] at hc; cases hc
      | none => rw [hcycle] at hc; exact Except.ok.inj hc
    simp only [Logged.value_bind, Logged.value_pure, model, hshown, hclasses]
    rfl

end Session

end ClassReference
