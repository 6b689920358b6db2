import ClassReference.Hierarchy.Selection
import Mathlib.Data.List.Nodup
import Mathlib.Data.String.Basic

/-!
# Proofs: selection of class definitions

Selection takes in one definition after the other. What is selected for a name can be said without
any order of work: the first public definition, or the first definition at all if there is no public
one and excluded classes may pass on members (`definitionOf`). The selected definitions stand in the
order of their names, one for each name (`Arranges`).
-/

namespace ClassReference.Hierarchy

/-- The selected definition of a name. -/
def definitionOf (rules : Rules) (classes : List ClassEntry) (full : String) : Option ClassEntry :=
  (classes.find? fun e => e.name.full == full && !e.excluded).or
    (if rules.inheritFromExcluded then classes.find? (·.name.full == full) else none)

/-- The arena holds the classes that `defs` gives for their names, in the order of the names. -/
structure Arranges (defs : String → Option ClassEntry) (arena : List ClassEntry) : Prop where
  /-- The names grow strictly. -/
  sorted : arena.Pairwise fun a b => a.name.full < b.name.full
  /-- The classes are found by their names. -/
  find_iff : ∀ full e, defs full = some e ↔ e ∈ arena ∧ e.name.full = full

/-! ## One definition more -/

/-- The selected definition of a name, with its position. -/
def choice (rules : Rules) (slots : List Slot) (full : String) : Option Slot :=
  (slots.find? fun s => s.entry.name.full == full && !s.entry.excluded).or
    (if rules.inheritFromExcluded then slots.find? (·.entry.name.full == full) else none)

/-- What is selected for a name if one more definition of it is taken in. -/
def preferred (slot : Slot) : Option Slot → Slot
  | none => slot
  | some current => if current.entry.excluded && !slot.entry.excluded then slot else current

theorem name_of_choice {rules : Rules} {slots : List Slot} {full : String} {s : Slot}
    (h : choice rules slots full = some s) : s.entry.name.full = full := by
  unfold choice at h
  rcases Option.or_eq_some_iff.mp h with h | ⟨-, h⟩
  · have := List.find?_some h
    simp only [Bool.and_eq_true, beq_iff_eq] at this
    exact this.1
  · split_ifs at h
    simpa using List.find?_some h

theorem mem_of_choice {rules : Rules} {slots : List Slot} {full : String} {s : Slot}
    (h : choice rules slots full = some s) : s ∈ slots := by
  unfold choice at h
  rcases Option.or_eq_some_iff.mp h with h | ⟨-, h⟩
  · exact List.mem_of_find?_eq_some h
  · split_ifs at h
    exact List.mem_of_find?_eq_some h

/-- A public definition is preferred to an excluded one, and an earlier one to a later one. -/
theorem choice_concat (rules : Rules) (seen : List Slot) (slot : Slot) (full : String) :
    choice rules (seen ++ [slot]) full =
      if slot.entry.name.full = full ∧
      (slot.entry.excluded = true → rules.inheritFromExcluded = true) then
        some (preferred slot (choice rules seen full))
      else choice rules seen full := by
  by_cases hn : slot.entry.name.full = full
  swap
  · simp [choice, List.find?_append, hn]
  simp only [choice, List.find?_append]
  cases hp : seen.find? fun s => s.entry.name.full == full && !s.entry.excluded with
  | some s =>
    have hs := List.find?_some hp
    simp only [Bool.and_eq_true, Bool.not_eq_true'] at hs
    simp [preferred, hs.2]
  | none =>
    cases hx : slot.entry.excluded with
    | false =>
      cases hi : rules.inheritFromExcluded with
      | false => simp [hn, hx, preferred]
      | true =>
        -- whatever is found in `seen` is excluded
        cases ha : seen.find? (·.entry.name.full == full) with
        | none => simp [hn, hx, preferred]
        | some s =>
          have hsn := List.find?_some ha
          have hse := List.find?_eq_none.mp hp s (List.mem_of_find?_eq_some ha)
          simp only [hsn, Bool.true_and, Bool.not_eq_true', Bool.not_eq_false] at hse
          simp [hn, hx, preferred, hse]
    | true =>
      cases hi : rules.inheritFromExcluded with
      | false => simp [hx]
      | true =>
        cases ha : seen.find? (·.entry.name.full == full) with
        | none => simp [hn, hx, preferred]
        | some s => simp [hn, hx, preferred]

/-- Replacing the definition of a name changes what is found for this name only. -/
theorem find?_replace (chosen : List Slot) (slot : Slot) (full : String) :
    (chosen.map fun s => if s.entry.name.full == slot.entry.name.full then slot else s).find?
        (·.entry.name.full == full) =
      (chosen.find? (·.entry.name.full == full)).map fun s =>
        if slot.entry.name.full = full then slot else s := by
  rw [List.find?_map]
  have hkeep : ((fun s : Slot => s.entry.name.full == full) ∘
      fun s => if s.entry.name.full == slot.entry.name.full then slot else s) =
      fun s => s.entry.name.full == full := by
    funext s
    by_cases hs : s.entry.name.full = slot.entry.name.full <;> simp [hs]
  rw [hkeep]
  cases hf : chosen.find? (·.entry.name.full == full) with
  | none => rfl
  | some s =>
    have hsn : s.entry.name.full = full := by simpa using List.find?_some hf
    by_cases hn : slot.entry.name.full = full
    · simp [hsn, hn]
    · simp [hsn, hn, Ne.symm hn]

/-- Taking in a definition changes what is found by name in the same way. -/
theorem find?_selectNext (rules : Rules) (chosen : List Slot) (slot : Slot) (full : String) :
    (selectNext rules chosen slot).value.find? (·.entry.name.full == full) =
      if slot.entry.name.full = full ∧
      (slot.entry.excluded = true → rules.inheritFromExcluded = true) then
        some (preferred slot (chosen.find? (·.entry.name.full == full)))
      else chosen.find? (·.entry.name.full == full) := by
  unfold selectNext
  by_cases hx : (slot.entry.excluded && !rules.inheritFromExcluded) = true
  · simp only [Bool.and_eq_true, Bool.not_eq_true'] at hx
    simp [hx.1, hx.2]
  have hok : slot.entry.excluded = true → rules.inheritFromExcluded = true := by simpa using hx
  simp only [hx, Bool.false_eq_true, if_false, and_iff_left hok]
  cases hc : chosen.find? (·.entry.name.full == slot.entry.name.full) with
  | none =>
    by_cases hn : slot.entry.name.full = full
    · simp [List.find?_append, ← hn, hc, preferred]
    · simp [List.find?_append, hn]
  | some current =>
    by_cases hr : (current.entry.excluded && !slot.entry.excluded) = true
    · simp only [hr, if_true, Logged.value_bind, Logged.value_pure, find?_replace]
      by_cases hn : slot.entry.name.full = full
      · simp [← hn, hc, preferred, hr]
      · simp [hn]
    · simp only [hr, Bool.false_eq_true, if_false, Logged.value_bind, Logged.value_pure]
      by_cases hn : slot.entry.name.full = full
      · simp [← hn, hc, preferred, hr]
      · simp [hn]

/-- Taking in a definition keeps the names apart. -/
theorem nodup_selectNext (rules : Rules) (chosen : List Slot) (slot : Slot)
    (h : (chosen.map (·.entry.name.full)).Nodup) :
    ((selectNext rules chosen slot).value.map (·.entry.name.full)).Nodup := by
  unfold selectNext
  by_cases hx : (slot.entry.excluded && !rules.inheritFromExcluded) = true
  · simpa only [hx, if_true, Logged.value_bind, Logged.value_pure] using h
  · simp only [hx, Bool.false_eq_true, if_false]
    cases hc : chosen.find? (·.entry.name.full == slot.entry.name.full) with
    | none =>
      simp only [Logged.value_pure, List.map_append, List.map_cons, List.map_nil]
      refine List.nodup_append.mpr ⟨h, List.nodup_singleton _, ?_⟩
      intro x hxm y hy hxy
      obtain ⟨s, hs, rfl⟩ := List.mem_map.mp hxm
      obtain rfl : y = slot.entry.name.full := by simpa using hy
      exact List.find?_eq_none.mp hc s hs (by simpa using hxy)
    | some current =>
      by_cases hr : (current.entry.excluded && !slot.entry.excluded) = true
      · have hsame : (fun s : Slot => s.entry.name.full) ∘
            (fun s => if (s.entry.name.full == slot.entry.name.full) = true then slot else s) =
            fun s => s.entry.name.full := by
          funext s
          by_cases hs : s.entry.name.full = slot.entry.name.full <;> simp [hs]
        simp only [hr, if_true, Logged.value_bind, Logged.value_pure, List.map_map, hsame]
        exact h
      · simpa only [hr, Bool.false_eq_true, if_false, Logged.value_bind, Logged.value_pure] using h

/-! ## All definitions -/

/-- What has been chosen after the definitions `seen`. -/
structure Chosen (rules : Rules) (seen chosen : List Slot) : Prop where
  /-- There is one definition for a name. -/
  nodup : (chosen.map (·.entry.name.full)).Nodup
  /-- It is the one to be selected. -/
  find : ∀ full, chosen.find? (·.entry.name.full == full) = choice rules seen full

theorem Chosen.next {rules : Rules} {seen chosen : List Slot} (h : Chosen rules seen chosen)
    (slot : Slot) : Chosen rules (seen ++ [slot]) (selectNext rules chosen slot).value :=
  ⟨nodup_selectNext rules chosen slot h.nodup,
    fun full => by rw [find?_selectNext, choice_concat, h.find full]⟩

theorem Chosen.from {rules : Rules} {seen chosen : List Slot} (h : Chosen rules seen chosen)
    (slots : List Slot) : Chosen rules (seen ++ slots) (selectFrom rules chosen slots).value := by
  induction slots generalizing seen chosen with
  | nil => simpa [selectFrom] using h
  | cons slot slots ih =>
    have hstep := ih (h.next slot)
    rw [List.append_assoc] at hstep
    exact hstep

theorem chosen_selectFrom (rules : Rules) (slots : List Slot) :
    Chosen rules slots (selectFrom rules [] slots).value := by
  have hinit : Chosen rules [] [] := ⟨List.nodup_nil, fun full => by simp [choice]⟩
  exact hinit.from slots

theorem Chosen.mem_iff {rules : Rules} {seen chosen : List Slot} (h : Chosen rules seen chosen)
    {s : Slot} : s ∈ chosen ↔ choice rules seen s.entry.name.full = some s := by
  rw [← h.find]
  constructor
  · intro hs
    obtain ⟨t, ht⟩ := Option.isSome_iff_exists.mp
      (List.find?_isSome (p := fun t : Slot => t.entry.name.full == s.entry.name.full).mpr
        ⟨s, hs, by simp⟩)
    have htn : t.entry.name.full = s.entry.name.full := by simpa using List.find?_some ht
    rw [ht, List.inj_on_of_nodup_map h.nodup (List.mem_of_find?_eq_some ht) hs htn]
  · exact List.mem_of_find?_eq_some

/-! ## The selected definitions in order -/

section Select

variable (rules : Rules) (classes : List ClassEntry)

theorem mem_select_iff {s : Slot} :
    s ∈ (select rules classes).value ↔ choice rules (slots classes) s.entry.name.full = some s := by
  simp only [select, Logged.value_bind, Logged.value_pure, List.mem_mergeSort]
  exact (chosen_selectFrom rules (slots classes)).mem_iff

/-- The selected definitions stand in the strict order of their names. -/
theorem select_sorted :
    (select rules classes).value.Pairwise fun a b => a.entry.name.full < b.entry.name.full := by
  simp only [select, Logged.value_bind, Logged.value_pure]
  set chosen := (selectFrom rules [] (slots classes)).value with hchosen
  have hle : (chosen.mergeSort fun a b => decide (a.entry.name.full ≤ b.entry.name.full)).Pairwise
      fun a b => a.entry.name.full ≤ b.entry.name.full := by
    refine (List.pairwise_mergeSort ?_ ?_ chosen).imp (by simp)
    · intro a b c hab hbc
      simp only [decide_eq_true_eq] at hab hbc ⊢
      exact hab.trans hbc
    · intro a b
      simpa using le_total a.entry.name.full b.entry.name.full
  have hnd : (chosen.mergeSort fun a b => decide (a.entry.name.full ≤ b.entry.name.full)).Pairwise
      fun a b => a.entry.name.full ≠ b.entry.name.full := by
    have hperm := (List.mergeSort_perm chosen
      fun a b => decide (a.entry.name.full ≤ b.entry.name.full)).map (·.entry.name.full)
    exact List.pairwise_map.mp (hperm.nodup_iff.mpr (chosen_selectFrom rules (slots classes)).nodup)
  exact hle.imp₂ (fun _ _ h1 h2 => lt_of_le_of_ne h1 h2) hnd

theorem mem_slots_iff {s : Slot} : s ∈ slots classes ↔ classes[s.position]? = some s.entry := by
  obtain ⟨i, e⟩ := s
  simp [slots, List.mem_zipIdx_iff_getElem?]

theorem definitionOf_eq (full : String) :
    definitionOf rules classes full = (choice rules (slots classes) full).map (·.entry) := by
  have hentries : (slots classes).map (·.entry) = classes := by
    simp only [slots, List.map_map]
    exact List.zipIdx_map_fst 0 classes
  have hfind : ∀ p : ClassEntry → Bool,
      classes.find? p = ((slots classes).find? fun s => p s.entry).map (·.entry) := by
    intro p
    conv_lhs => rw [← hentries, List.find?_map]
    rfl
  rw [definitionOf, choice, hfind, hfind, Option.map_or]
  split_ifs <;> rfl

/-- The selected definitions are arranged by name. -/
theorem arranges_select :
    Arranges (definitionOf rules classes) ((select rules classes).value.map (·.entry)) where
  sorted := List.pairwise_map.mpr (select_sorted rules classes)
  find_iff full e := by
    rw [definitionOf_eq]
    constructor
    · intro h
      obtain ⟨s, hs, rfl⟩ := Option.map_eq_some_iff.mp h
      have hn := name_of_choice hs
      refine ⟨List.mem_map_of_mem ((mem_select_iff rules classes).mpr ?_), hn⟩
      rw [hn]
      exact hs
    · rintro ⟨he, rfl⟩
      obtain ⟨s, hs, rfl⟩ := List.mem_map.mp he
      rw [(mem_select_iff rules classes).mp hs]
      rfl

/-- The selected definitions stand at different positions of the catalogue. -/
theorem select_positions_nodup : ((select rules classes).value.map (·.position)).Nodup := by
  refine List.pairwise_map.mpr ((select_sorted rules classes).imp_of_mem ?_)
  intro s t hs ht hlt hpos
  have hs' := (mem_slots_iff classes).mp (mem_of_choice ((mem_select_iff rules classes).mp hs))
  have ht' := (mem_slots_iff classes).mp (mem_of_choice ((mem_select_iff rules classes).mp ht))
  rw [hpos, ht'] at hs'
  rw [Option.some.inj hs'] at hlt
  exact lt_irrefl _ hlt

theorem getElem?_of_mem_select {s : Slot} (hs : s ∈ (select rules classes).value) :
    classes[s.position]? = some s.entry :=
  (mem_slots_iff classes).mp (mem_of_choice ((mem_select_iff rules classes).mp hs))

end Select

end ClassReference.Hierarchy
