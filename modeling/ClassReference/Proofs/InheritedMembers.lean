import ClassReference.Proofs.ListedClasses

/-!
# Proofs: inherited members

Which members a listed class shows is decided while its ancestors are walked, against a list that
grows on the way. Here the decision is said without the walk: a member is passed on unless it is
static or another one overrides it, and which others can do so depends on their owner only
(`PassedOn`).

A member may occur more than once among those that were collected. So the walk is followed by the
positions of the members (`gatherAt`), and the members themselves come in at the end.
-/

namespace ClassReference

namespace Member

variable {α : Type}

/-! ## Overriding -/

/-- The member `o` overrides `m` if `m` comes later. -/
def Overrides (o m : Member α) : Prop :=
  o.name ≠ "" ∧ o.simpleName = m.simpleName

theorem overriddenBy_iff {m : Member α} {present : List (Member α)} :
    m.overriddenBy present = true ↔ m.name ≠ "" ∧ ∃ o ∈ present, o.Overrides m := by
  simp [overriddenBy, Overrides]

theorem inherit_concat (present declared : List (Member α)) (m : Member α) :
    inherit present (declared ++ [m]) =
      if m.static || m.overriddenBy (inherit present declared) then inherit present declared
      else inherit present declared ++ [m] := by
  unfold inherit
  rw [List.foldl_append]
  rfl

/-- Members that were left out because they are overridden leave nothing uncovered: what they
override is overridden anyway. -/
theorem overrides_inherit_iff (present declared : List (Member α)) (m : Member α) :
    (∃ o ∈ inherit present declared, o.Overrides m) ↔
      (∃ o ∈ present, o.Overrides m) ∨ ∃ o ∈ declared, o.static = false ∧ o.Overrides m := by
  induction declared using List.reverseRecOn with
  | nil => simp [inherit]
  | append_singleton declared d ih =>
    have hconcat : (∃ o ∈ declared ++ [d], o.static = false ∧ o.Overrides m) ↔
        (∃ o ∈ declared, o.static = false ∧ o.Overrides m) ∨
        (d.static = false ∧ d.Overrides m) := by
      simp [or_and_right, exists_or]
    rw [inherit_concat, hconcat, ← or_assoc, ← ih]
    split
    · rename_i hskip
      refine ⟨Or.inl, ?_⟩
      rintro (h | ⟨hstatic, -, hsimple⟩)
      · exact h
      · -- `d` itself is overridden, and by a member that overrides `m` as well
        have hover : d.overriddenBy (inherit present declared) = true := by
          simpa [hstatic] using hskip
        obtain ⟨-, o, ho, hname, hod⟩ := overriddenBy_iff.mp hover
        exact ⟨o, ho, hname, hod.trans hsimple⟩
    · rename_i hkeep
      have hstatic : d.static = false := by
        simp only [Bool.or_eq_true, not_or] at hkeep
        simpa using hkeep.1
      simp [hstatic, or_and_right, exists_or]

/-! ## One ancestor -/

section Positions

variable (ms : List (Member α))

/-- The positions of the members that the class with the given full name declares. -/
def declaredAt (full : String) : List (Fin ms.length) :=
  (List.finRange ms.length).filter fun i => (ms.get i).owner.full == full

/-- The positions that are there, and behind them those of the members that an ancestor passes
on. -/
def inheritAt (present declared : List (Fin ms.length)) : List (Fin ms.length) :=
  declared.foldl (fun acc i =>
    if (ms.get i).static || (ms.get i).overriddenBy (acc.map ms.get) then acc
      else acc ++ [i]) present

variable {ms}

theorem mem_declaredAt {full : String} {i : Fin ms.length} :
    i ∈ declaredAt ms full ↔ (ms.get i).owner.full = full := by
  simp [declaredAt]

theorem declaredAt_sorted (full : String) : (declaredAt ms full).Pairwise (· < ·) :=
  (List.pairwise_lt_finRange ms.length).filter _

theorem map_declaredAt (full : String) :
    (declaredAt ms full).map ms.get = ms.filter (·.owner.full == full) := by
  have hmap : ms.filter (·.owner.full == full) =
      ((List.finRange ms.length).map ms.get).filter (·.owner.full == full) := by
    rw [List.map_get_finRange]
  rw [hmap, List.filter_map]
  rfl

theorem inheritAt_concat (present declared : List (Fin ms.length)) (i : Fin ms.length) :
    inheritAt ms present (declared ++ [i]) =
      if (ms.get i).static ||
          (ms.get i).overriddenBy ((inheritAt ms present declared).map ms.get) then
        inheritAt ms present declared
      else inheritAt ms present declared ++ [i] := by
  unfold inheritAt
  rw [List.foldl_append]
  rfl

theorem map_inheritAt (present declared : List (Fin ms.length)) :
    (inheritAt ms present declared).map ms.get =
      inherit (present.map ms.get) (declared.map ms.get) := by
  induction declared using List.reverseRecOn with
  | nil => rfl
  | append_singleton declared i ih =>
    rw [inheritAt_concat, List.map_append, List.map_singleton, inherit_concat, ← ih]
    split
    · rfl
    · rw [List.map_append, List.map_singleton]

/-- Behind the positions that are there, inherited ones stand in the order of collection. -/
theorem inheritAt_eq_append (present declared : List (Fin ms.length)) :
    ∃ l, inheritAt ms present declared = present ++ l ∧ l.Sublist declared := by
  induction declared using List.reverseRecOn with
  | nil => exact ⟨[], by simp [inheritAt], List.Sublist.refl _⟩
  | append_singleton declared i ih =>
    obtain ⟨l, hl, hsub⟩ := ih
    rw [inheritAt_concat, hl]
    split
    · exact ⟨l, rfl, hsub.trans (List.sublist_append_left _ _)⟩
    · exact ⟨l ++ [i], by rw [List.append_assoc], hsub.append (List.Sublist.refl _)⟩

theorem overriddenBy_inheritAt_iff (present declared : List (Fin ms.length)) (i : Fin ms.length) :
    (ms.get i).overriddenBy ((inheritAt ms present declared).map ms.get) = true ↔
      (ms.get i).name ≠ "" ∧ ∃ j, (ms.get j).Overrides (ms.get i) ∧
        (j ∈ present ∨ j ∈ declared ∧ (ms.get j).static = false) := by
  rw [overriddenBy_iff, map_inheritAt, overrides_inherit_iff]
  refine and_congr_right fun _ => ?_
  constructor
  · rintro (⟨_, ho, hover⟩ | ⟨_, ho, hstatic, hover⟩)
    · obtain ⟨j, hj, rfl⟩ := List.mem_map.mp ho
      exact ⟨j, hover, Or.inl hj⟩
    · obtain ⟨j, hj, rfl⟩ := List.mem_map.mp ho
      exact ⟨j, hover, Or.inr ⟨hj, hstatic⟩⟩
  · rintro ⟨j, hover, hj | ⟨hj, hstatic⟩⟩
    · exact Or.inl ⟨_, List.mem_map_of_mem hj, hover⟩
    · exact Or.inr ⟨_, List.mem_map_of_mem hj, hstatic, hover⟩

/-- An ancestor passes on what is not static and not overridden, by what is there or by what it has
passed on before. -/
theorem mem_inheritAt {present declared : List (Fin ms.length)} (h : declared.Pairwise (· < ·))
    {i : Fin ms.length} :
    i ∈ inheritAt ms present declared ↔ i ∈ present ∨ i ∈ declared ∧ (ms.get i).static = false ∧
      ((ms.get i).name = "" ∨ ¬ ∃ j, (ms.get j).Overrides (ms.get i) ∧
        (j ∈ present ∨ j ∈ declared ∧ (ms.get j).static = false ∧ j < i)) := by
  induction declared using List.reverseRecOn with
  | nil => simp [inheritAt]
  | append_singleton declared d ih =>
    have hsorted := List.pairwise_append.mp h
    have hlt : ∀ j ∈ declared, j < d := fun j hj => hsorted.2.2 j hj d (List.mem_singleton_self d)
    have hstep : i ∈ inheritAt ms present (declared ++ [d]) ↔ i ∈ inheritAt ms present declared ∨
        i = d ∧ (ms.get d).static = false ∧ ((ms.get d).name = "" ∨
          ¬ ∃ j, (ms.get j).Overrides (ms.get d) ∧
            (j ∈ present ∨ j ∈ declared ∧ (ms.get j).static = false)) := by
      have hover := overriddenBy_inheritAt_iff present declared d
      rw [inheritAt_concat]
      split
      · rename_i hskip
        refine ⟨Or.inl, ?_⟩
        rintro (hi | ⟨-, hstatic, hfree⟩)
        · exact hi
        · rw [hstatic, Bool.false_or, hover] at hskip
          exact absurd hskip.2 (hfree.resolve_left hskip.1)
      · rename_i hkeep
        rw [Bool.or_eq_true, not_or, hover, not_and_or, not_not, Bool.not_eq_true] at hkeep
        rw [List.mem_append, List.mem_singleton]
        exact or_congr_right ⟨fun hi => ⟨hi, hkeep⟩, And.left⟩
    rw [hstep, ih hsorted.1]
    -- nothing before `d` is overridden by `d`, and all positions in `declared` are before `d`
    grind

/-! ## All ancestors -/

variable (ms)

/-- The positions of the members that a class has, hidden ones included. -/
def gatherAt (own : String) (ancestors : List String) : List (Fin ms.length) :=
  ancestors.foldl (fun acc a => inheritAt ms acc (declaredAt ms a)) (declaredAt ms own)

/-- The member at `i` is passed on to the class `own` by one of the ancestors: it is not static, and
either it has no name, or no other member overrides it. Others do so if the class itself declares
them, or if they are not static and declared by a closer ancestor, or earlier by the same one. -/
def PassedOn (own : String) (ancestors : List String) (i : Fin ms.length) : Prop :=
  (ms.get i).static = false ∧ ∃ closer farther,
    ancestors = closer ++ (ms.get i).owner.full :: farther ∧
    ((ms.get i).name = "" ∨ ¬ ∃ j ≠ i, (ms.get j).Overrides (ms.get i) ∧
      ((ms.get j).owner.full = own ∨ (ms.get j).static = false ∧ ((ms.get j).owner.full ∈ closer ∨
        (ms.get j).owner.full = (ms.get i).owner.full ∧ j < i)))

variable {ms}

theorem gatherAt_concat (own : String) (ancestors : List String) (a : String) :
    gatherAt ms own (ancestors ++ [a]) =
      inheritAt ms (gatherAt ms own ancestors) (declaredAt ms a) := by
  unfold gatherAt
  rw [List.foldl_append]
  rfl

theorem map_gatherAt (own : String) (ancestors : List String) :
    (gatherAt ms own ancestors).map ms.get = gather ms own ancestors := by
  induction ancestors using List.reverseRecOn with
  | nil => exact map_declaredAt own
  | append_singleton ancestors a ih =>
    rw [gatherAt_concat, map_inheritAt, map_declaredAt, ih, gather, gather, List.foldl_append]
    rfl

/-- Whether some gathered member overrides `m` does not depend on which members were left out. -/
theorem overrides_gatherAt_iff (ms : List (Member α)) (own : String) (ancestors : List String)
    (m : Member α) :
    (∃ j ∈ gatherAt ms own ancestors, (ms.get j).Overrides m) ↔ ∃ j, (ms.get j).Overrides m ∧
      ((ms.get j).owner.full = own ∨
        (ms.get j).static = false ∧ (ms.get j).owner.full ∈ ancestors) := by
  induction ancestors using List.reverseRecOn with
  | nil => simp [gatherAt, mem_declaredAt, and_comm]
  | append_singleton ancestors a ih =>
    have hlift : ∀ l : List (Fin ms.length), (∃ j ∈ l, (ms.get j).Overrides m) ↔
        ∃ o ∈ l.map ms.get, o.Overrides m := by simp
    rw [gatherAt_concat, hlift, map_inheritAt, overrides_inherit_iff, ← hlift, ih]
    constructor
    · rintro (⟨j, hover, hj | ⟨hstatic, hj⟩⟩ | ⟨_, ho, hstatic, hover⟩)
      · exact ⟨j, hover, Or.inl hj⟩
      · exact ⟨j, hover, Or.inr ⟨hstatic, List.mem_append_left _ hj⟩⟩
      · obtain ⟨j, hj, rfl⟩ := List.mem_map.mp ho
        rw [mem_declaredAt] at hj
        exact ⟨j, hover, Or.inr ⟨hstatic, List.mem_append_right _ (List.mem_singleton.mpr hj)⟩⟩
    · rintro ⟨j, hover, hj | ⟨hstatic, hj⟩⟩
      · exact Or.inl ⟨j, hover, Or.inl hj⟩
      · rcases List.mem_append.mp hj with hj | hj
        · exact Or.inl ⟨j, hover, Or.inr ⟨hstatic, hj⟩⟩
        · have hj' := mem_declaredAt.mpr (List.mem_singleton.mp hj)
          exact Or.inr ⟨_, List.mem_map_of_mem hj', hstatic, hover⟩

/-- What overrides a member of a farther ancestor is among what was gathered before or is passed on
by this ancestor, unless something that was gathered overrides it in turn. -/
theorem overridden_iff {own : String} {ancestors : List String} {i : Fin ms.length}
    (hi : (ms.get i).owner.full ∉ own :: ancestors) :
    (∃ j ≠ i, (ms.get j).Overrides (ms.get i) ∧
      ((ms.get j).owner.full = own ∨ (ms.get j).static = false ∧
        ((ms.get j).owner.full ∈ ancestors ∨
          (ms.get j).owner.full = (ms.get i).owner.full ∧ j < i))) ↔
      ∃ j, (ms.get j).Overrides (ms.get i) ∧ (j ∈ gatherAt ms own ancestors ∨
        j ∈ declaredAt ms (ms.get i).owner.full ∧ (ms.get j).static = false ∧ j < i) := by
  have hgather := overrides_gatherAt_iff ms own ancestors (ms.get i)
  constructor
  · rintro ⟨j, -, hover, hj | ⟨hstatic, hj | ⟨howner, hlt⟩⟩⟩
    · obtain ⟨k, hk, hover'⟩ := hgather.mpr ⟨j, hover, Or.inl hj⟩
      exact ⟨k, hover', Or.inl hk⟩
    · obtain ⟨k, hk, hover'⟩ := hgather.mpr ⟨j, hover, Or.inr ⟨hstatic, hj⟩⟩
      exact ⟨k, hover', Or.inl hk⟩
    · exact ⟨j, hover, Or.inr ⟨mem_declaredAt.mpr howner, hstatic, hlt⟩⟩
  · rintro ⟨j, hover, hj | ⟨hj, hstatic, hlt⟩⟩
    · obtain ⟨k, hover', hk⟩ := hgather.mp ⟨j, hj, hover⟩
      refine ⟨k, ?_, hover', hk.imp_right fun hk => ⟨hk.1, Or.inl hk.2⟩⟩
      -- the owner of `i` is farther away than all that was gathered
      rintro rfl
      rcases hk with hk | hk
      · exact hi (List.mem_cons.mpr (Or.inl hk))
      · exact hi (List.mem_cons_of_mem _ hk.2)
    · exact ⟨j, hlt.ne, hover, Or.inr ⟨hstatic, Or.inr ⟨mem_declaredAt.mp hj, hlt⟩⟩⟩

/-- With one more ancestor behind the others, what it declares itself comes in. -/
theorem passedOn_concat {own : String} {ancestors : List String} {a : String} {i : Fin ms.length}
    (ha : a ∉ own :: ancestors) :
    PassedOn ms own (ancestors ++ [a]) i ↔ PassedOn ms own ancestors i ∨
      (ms.get i).owner.full = a ∧ (ms.get i).static = false ∧
      ((ms.get i).name = "" ∨ ¬ ∃ j, (ms.get j).Overrides (ms.get i) ∧
        (j ∈ gatherAt ms own ancestors ∨ j ∈ declaredAt ms a ∧ (ms.get j).static = false ∧
          j < i)) := by
  constructor
  · rintro ⟨hstatic, closer, farther, hsplit, hfree⟩
    rcases List.eq_nil_or_concat farther with rfl | ⟨farther, b, rfl⟩
    · obtain ⟨rfl, howner⟩ := List.append_inj' hsplit rfl
      obtain rfl : a = (ms.get i).owner.full := by simpa using howner
      rw [overridden_iff ha] at hfree
      exact Or.inr ⟨rfl, hstatic, hfree⟩
    · rw [List.concat_eq_append, ← List.cons_append, ← List.append_assoc] at hsplit
      obtain ⟨rfl, -⟩ := List.append_inj' hsplit rfl
      exact Or.inl ⟨hstatic, closer, farther, rfl, hfree⟩
  · rintro (⟨hstatic, closer, farther, rfl, hfree⟩ | ⟨rfl, hstatic, hfree⟩)
    · exact ⟨hstatic, closer, farther ++ [a], by simp, hfree⟩
    · rw [← overridden_iff ha] at hfree
      exact ⟨hstatic, ancestors, [], rfl, hfree⟩

/-- The gathered members are those that the class declares and those that are passed on to it. -/
theorem mem_gatherAt {own : String} {ancestors : List String} (h : (own :: ancestors).Nodup)
    {i : Fin ms.length} :
    i ∈ gatherAt ms own ancestors ↔ (ms.get i).owner.full = own ∨ PassedOn ms own ancestors i := by
  induction ancestors using List.reverseRecOn with
  | nil => simp [gatherAt, mem_declaredAt, PassedOn]
  | append_singleton ancestors a ih =>
    rw [← List.cons_append, List.nodup_append] at h
    have ha : a ∉ own :: ancestors := fun hmem => h.2.2 a hmem a (List.mem_singleton_self a) rfl
    rw [gatherAt_concat, mem_inheritAt (declaredAt_sorted a), passedOn_concat ha, ih h.1, or_assoc,
      mem_declaredAt]

/-! ## Listing -/

/-- The members of one owner are gathered in the order of collection. -/
theorem gatherAt_ordered {own : String} {ancestors : List String} (h : (own :: ancestors).Nodup) :
    (gatherAt ms own ancestors).Pairwise fun i j =>
      (ms.get i).owner.full = (ms.get j).owner.full → i < j := by
  induction ancestors using List.reverseRecOn with
  | nil =>
    refine (declaredAt_sorted own).imp ?_
    intro i j hlt _
    exact hlt
  | append_singleton ancestors a ih =>
    rw [← List.cons_append, List.nodup_append] at h
    obtain ⟨l, hl, hsub⟩ := inheritAt_eq_append (gatherAt ms own ancestors) (declaredAt ms a)
    rw [gatherAt_concat, hl, List.pairwise_append]
    refine ⟨ih h.1, ?_, ?_⟩
    · refine ((declaredAt_sorted a).sublist hsub).imp ?_
      intro i j hlt _
      exact hlt
    · -- the last ancestor is the owner of nothing that was gathered before
      intro i hi j hj hij
      rw [mem_declaredAt.mp (hsub.subset hj)] at hij
      have hmem : a ∈ own :: ancestors := by
        rw [← hij]
        rcases (mem_gatherAt h.1).mp hi with hown | ⟨-, closer, farther, rfl, -⟩
        · exact List.mem_cons.mpr (Or.inl hown)
        · simp
      exact absurd rfl (h.2.2 a hmem a (List.mem_singleton_self a))

variable (ms)

/-- The member at `i` is listed before the one at `j`: by name, then by owner, then in the order of
collection. -/
def Precedes (i j : Fin ms.length) : Prop :=
  (ms.get i).name < (ms.get j).name ∨ (ms.get i).name = (ms.get j).name ∧
    ((ms.get i).owner.full < (ms.get j).owner.full ∨
      (ms.get i).owner.full = (ms.get j).owner.full ∧ i < j)

/-- The positions of the members that a class shows. -/
def listedAt (own : String) (ancestors : List String) : List (Fin ms.length) :=
  ((gatherAt ms own ancestors).filter fun i => !(ms.get i).hidden).mergeSort fun i j =>
    (ms.get i).listedBefore (ms.get j)

variable {ms}

theorem map_listedAt (own : String) (ancestors : List String) :
    (listedAt ms own ancestors).map ms.get = listed (gather ms own ancestors) := by
  rw [listedAt, listed, ← map_gatherAt, List.filter_map]
  exact List.map_mergeSort fun _ _ _ _ => rfl

theorem mem_listedAt {own : String} {ancestors : List String} (h : (own :: ancestors).Nodup)
    {i : Fin ms.length} : i ∈ listedAt ms own ancestors ↔
      (ms.get i).hidden = false ∧ ((ms.get i).owner.full = own ∨ PassedOn ms own ancestors i) := by
  rw [listedAt, List.mem_mergeSort, List.mem_filter, mem_gatherAt h, Bool.not_eq_true', and_comm]

theorem listedAt_ordered (ms : List (Member α)) {own : String} {ancestors : List String}
    (h : (own :: ancestors).Nodup) :
    (listedAt ms own ancestors).Pairwise (Precedes ms) := by
  have htied : ((gatherAt ms own ancestors).filter fun i => !(ms.get i).hidden).Pairwise fun i j =>
      (ms.get i).listedBefore (ms.get j) → (ms.get j).listedBefore (ms.get i) → i < j := by
    refine ((gatherAt_ordered h).filter _).imp ?_
    intro i j hij hle hge
    exact hij (tied_iff.mp ⟨hle, hge⟩).2
  have htrans : ∀ i j k : Fin ms.length, (ms.get i).listedBefore (ms.get j) = true →
      (ms.get j).listedBefore (ms.get k) = true → (ms.get i).listedBefore (ms.get k) = true :=
    fun i j k => listedBefore_trans (ms.get i) (ms.get j) (ms.get k)
  have htotal : ∀ i j : Fin ms.length,
      ((ms.get i).listedBefore (ms.get j) || (ms.get j).listedBefore (ms.get i)) = true :=
    fun i j => listedBefore_total (ms.get i) (ms.get j)
  refine (pairwise_mergeSort_tied htrans htotal htied).imp ?_
  rintro i j ⟨hle, hlt⟩
  rcases listedBefore_iff.mp hle with hname | ⟨hname, howner⟩
  · exact Or.inl hname
  · refine Or.inr ⟨hname, ?_⟩
    rcases lt_or_eq_of_le howner with howner | howner
    · exact Or.inl howner
    · exact Or.inr ⟨howner, hlt (tied_iff.mpr ⟨hname, howner⟩).2⟩

theorem Precedes.irrefl (i : Fin ms.length) : ¬ Precedes ms i i := by
  rintro (h | ⟨-, h | ⟨-, h⟩⟩)
  · exact lt_irrefl _ h
  · exact lt_irrefl _ h
  · exact lt_irrefl _ h

/-- A class with the given ancestors shows these members of `ms`: those that it declares itself or
that are passed on to it, if they are not hidden. Each of them occurs once, unchanged, and in the
order of listing. -/
def Shows (ms : List (Member α)) (own : String) (ancestors : List String)
    (shown : List (Member α)) : Prop :=
  ∃ positions : List (Fin ms.length), shown = positions.map ms.get ∧ positions.Nodup ∧
    (∀ i, i ∈ positions ↔
      (ms.get i).hidden = false ∧ ((ms.get i).owner.full = own ∨ PassedOn ms own ancestors i)) ∧
    positions.Pairwise (Precedes ms)

theorem shows_gather (ms : List (Member α)) {own : String} {ancestors : List String}
    (h : (own :: ancestors).Nodup) : Shows ms own ancestors (listed (gather ms own ancestors)) := by
  have hordered := listedAt_ordered ms h
  refine ⟨listedAt ms own ancestors, (map_listedAt own ancestors).symm, ?_,
    fun i => mem_listedAt h, hordered⟩
  refine hordered.imp ?_
  rintro i _ hlt rfl
  exact Precedes.irrefl i hlt

/-- What a class shows comes from itself or from one of its ancestors. -/
theorem owner_of_mem_listed {own : String} {ancestors : List String} (h : (own :: ancestors).Nodup)
    {m : Member α} (hm : m ∈ listed (gather ms own ancestors)) :
    m.owner.full ∈ own :: ancestors := by
  rw [← map_listedAt] at hm
  obtain ⟨i, hi, rfl⟩ := List.mem_map.mp hm
  obtain ⟨-, howner | ⟨-, closer, farther, hsplit, -⟩⟩ := (mem_listedAt h).mp hi
  · exact List.mem_cons.mpr (Or.inl howner)
  · rw [hsplit]
    exact List.mem_cons_of_mem _ (List.mem_append_right _ List.mem_cons_self)

end Positions

end Member

namespace Hierarchy

/-- What a listed class shows is gathered along its ancestors. -/
theorem members_listed {rules : Rules} {catalog : Catalog} {listed : List ClassEntry}
    (h : (resolve rules catalog).value.outcome = .ok listed) {c : ClassEntry} (hc : c ∈ listed) :
    ∃ l, Trail (parentIn (definitionOf rules catalog.classes)) c l ∧
      ((c :: l).map (·.name.full)).Nodup ∧
      ∀ k : MemberKind, c.members.ofKind k =
        Member.listed
          (Member.gather (catalog.members.ofKind k) c.name.full (l.map (·.name.full))) := by
  obtain ⟨d, hd, -, l, ht, rfl⟩ := exists_of_mem_listed h hc
  have hnames : ((d :: l).map (·.name.full)).Nodup :=
    (arranges_arenaOf rules catalog.classes).trail_nodup hd ht
  refine ⟨l, ht.of_parentName rfl, hnames, fun k => ?_⟩
  simp only [settled, Members.ofKind_listed, Members.ofKind_gather]

/-- Whatever is collected, every listed class shows exactly its own members and those that its
ancestors pass on to it, kind by kind. -/
theorem resolve_shows {rules : Rules} {catalog : Catalog} {listed : List ClassEntry}
    (h : (resolve rules catalog).value.outcome = .ok listed) {c : ClassEntry} (hc : c ∈ listed) :
    ∃ ancestors, Trail (parentIn (definitionOf rules catalog.classes)) c ancestors ∧
      ∀ k : MemberKind,
      Member.Shows (catalog.members.ofKind k) c.name.full (ancestors.map (·.name.full))
        (c.members.ofKind k) := by
  obtain ⟨d, hd, -, l, ht, rfl⟩ := exists_of_mem_listed h hc
  refine ⟨l, ht.of_parentName rfl, fun k => ?_⟩
  have hmembers :
      (settled rules (arenaOf rules catalog.classes) catalog.members d l).members.ofKind k =
      Member.listed
        (Member.gather (catalog.members.ofKind k) d.name.full (l.map (·.name.full))) := by
    rw [settled, Members.ofKind_listed, Members.ofKind_gather]
  have hnames := (arranges_arenaOf rules catalog.classes).trail_nodup hd ht
  have hshows := Member.shows_gather (catalog.members.ofKind k) hnames
  rw [← hmembers] at hshows
  exact hshows

/-- A class with two excluded ancestors, and methods that are static, hidden, dotted or without a
name. -/
def overriding : Catalog where
  classes :=
    [{ name := ⟨"C", "C"⟩, parentName := some "B" },
      { name := ⟨"B", "B"⟩, parentName := some "A", excluded := true },
      { name := ⟨"A", "A"⟩, excluded := true }]
  members := { methods :=
    [{ name := "", owner := ⟨"A", "A"⟩, detail := {} },
      { name := ".r", owner := ⟨"A", "A"⟩, detail := {} },
      { name := "r", owner := ⟨"B", "B"⟩, static := true, detail := {} },
      { name := "r", owner := ⟨"C", "C"⟩, hidden := true, detail := {} }] }

/-- The listed class: its hidden method overrides a dotted one, and the static method is not passed
on. -/
def overridingListed : ClassEntry where
  name := ⟨"C", "C"⟩
  parentName := some "B"
  superClasses := [⟨"A", "A"⟩, ⟨"B", "B"⟩]
  members := { methods := [{ name := "", owner := ⟨"A", "A"⟩, detail := {} }] }

theorem overridingListed_shows :
    (resolve ⟨none, true⟩ overriding).value.outcome = .ok [overridingListed] ∧
      ∃ ancestors,
        Trail (parentIn (definitionOf ⟨none, true⟩ overriding.classes)) overridingListed ancestors ∧
        ∀ k : MemberKind, Member.Shows (overriding.members.ofKind k) "C"
          (ancestors.map (·.name.full))
          (overridingListed.members.ofKind k) := by
  have h : (resolve ⟨none, true⟩ overriding).value.outcome = .ok [overridingListed] := by
    cbv
  exact ⟨h, resolve_shows h (List.mem_singleton_self _)⟩

end Hierarchy

end ClassReference
