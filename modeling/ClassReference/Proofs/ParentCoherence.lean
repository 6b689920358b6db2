import ClassReference.Proofs.InheritedMembers

/-!
# Proofs: what reaches a class has reached its parent

Each class is resolved by a walk of its own over what its ancestors declare, not from what its
parent shows. So it is not evident that the two agree. They do, except for static members of the
parent: such a member takes part in the walk of the parent, where it overrides what comes from
farther up, and is left out of the walk of the class (`resolve_coherent`). What it keeps from the
parent it does not keep from the class (`staticBetween_passed`).
-/

namespace ClassReference

namespace Member

variable {α : Type} {ms : List (Member α)}

/-- The member comes from elsewhere, and a static member of the class with the given full name
overrides it. -/
def maskedBy (ms : List (Member α)) (full : String) (m : Member α) : Bool :=
  m.owner.full != full && m.overriddenBy (ms.filter fun o => o.static && o.owner.full == full)

theorem maskedBy_iff {full : String} {m : Member α} :
    m.maskedBy ms full = true ↔ m.owner.full ≠ full ∧ m.name ≠ "" ∧
      ∃ j : Fin ms.length, (ms.get j).static = true ∧ (ms.get j).owner.full = full ∧
        (ms.get j).Overrides m := by
  have hpositions : (∃ o ∈ ms.filter fun o => o.static && o.owner.full == full, o.Overrides m) ↔
      ∃ j : Fin ms.length, (ms.get j).static = true ∧ (ms.get j).owner.full = full ∧
      (ms.get j).Overrides m := by
    constructor
    · rintro ⟨o, ho, hover⟩
      obtain ⟨hmem, hflags⟩ := List.mem_filter.mp ho
      obtain ⟨j, rfl⟩ := List.get_of_mem hmem
      simp only [Bool.and_eq_true, beq_iff_eq] at hflags
      exact ⟨j, hflags.1, hflags.2, hover⟩
    · rintro ⟨j, hstatic, howner, hover⟩
      exact ⟨ms.get j, List.mem_filter.mpr
        ⟨List.get_mem ms j, by simp only [hstatic, howner, beq_self_eq_true,
        Bool.and_self]⟩, hover⟩
  rw [maskedBy, Bool.and_eq_true, bne_iff_ne, overriddenBy_iff, hpositions]

/-- What the parent passes on farther down than its own members has been passed on to the parent,
unless the parent masks it. -/
theorem PassedOn.parent {own parent : String} {ancestors : List String} {i : Fin ms.length}
    (h : PassedOn ms own (parent :: ancestors) i) (howner : (ms.get i).owner.full ≠ parent)
    (hmask : (ms.get i).maskedBy ms parent = false) : PassedOn ms parent ancestors i := by
  obtain ⟨hstatic, closer, farther, hsplit, hfree⟩ := h
  cases closer with
  | nil => exact absurd (List.cons.inj hsplit).1.symm howner
  | cons b closer =>
    obtain ⟨rfl, hrest⟩ := List.cons.inj hsplit
    refine ⟨hstatic, closer, farther, hrest, ?_⟩
    rcases hfree with hname | hfree
    · exact Or.inl hname
    by_cases hname : (ms.get i).name = ""
    · exact Or.inl hname
    refine Or.inr ?_
    rintro ⟨j, hne, hover, hj | ⟨hjs, hj | hj⟩⟩
    · -- a member of the parent itself: it masks `i` if it is static, and overrides it in the class
      -- if it is not
      cases hjs : (ms.get j).static with
      | true =>
        have hmasked := maskedBy_iff.mpr ⟨howner, hname, j, hjs, hj, hover⟩
        rw [hmask] at hmasked
        cases hmasked
      | false => exact hfree ⟨j, hne, hover, Or.inr ⟨hjs, Or.inl (hj ▸ List.mem_cons_self)⟩⟩
    · exact hfree ⟨j, hne, hover, Or.inr ⟨hjs, Or.inl (List.mem_cons_of_mem _ hj)⟩⟩
    · exact hfree ⟨j, hne, hover, Or.inr ⟨hjs, Or.inr hj⟩⟩

theorem not_passedOn_of_maskedBy {own : String} {ancestors : List String} {i : Fin ms.length}
    (hmask : (ms.get i).maskedBy ms own = true) : ¬ PassedOn ms own ancestors i := by
  obtain ⟨howner, hname, j, -, hj, hover⟩ := maskedBy_iff.mp hmask
  have hne : j ≠ i := by
    rintro rfl
    exact howner hj
  rintro ⟨-, closer, farther, -, hfree⟩
  rcases hfree with hfree | hfree
  · exact hname hfree
  · exact hfree ⟨j, hne, hover, Or.inl hj⟩

theorem Precedes.asymm {i j : Fin ms.length} (hij : Precedes ms i j) : ¬ Precedes ms j i := by
  intro hji
  rcases hij with hij | ⟨hname, hij⟩
  · rcases hji with hji | ⟨hname, -⟩
    · exact lt_asymm hij hji
    · exact hij.ne hname.symm
  · rcases hji with hji | ⟨-, hji⟩
    · exact hji.ne hname.symm
    · rcases hij with hij | ⟨howner, hij⟩
      · rcases hji with hji | ⟨howner, -⟩
        · exact lt_asymm hij hji
        · exact hij.ne howner.symm
      · rcases hji with hji | ⟨-, hji⟩
        · exact hji.ne howner.symm
        · exact lt_asymm hij hji

instance : Std.Antisymm (Precedes ms) where
  antisymm _ _ hij hji := absurd hji hij.asymm

/-- The positions of what a class shows and does not declare itself are among those of what its
parent shows, except for what the parent masks. -/
theorem listedAt_sublist (ms : List (Member α)) {own parent : String} {ancestors : List String}
    (h : (own :: parent :: ancestors).Nodup) :
    ((listedAt ms own (parent :: ancestors)).filter fun i =>
        (ms.get i).owner.full != own && !(ms.get i).maskedBy ms parent).Sublist
          (listedAt ms parent ancestors) := by
  have hnodup := (List.nodup_cons.mp h).2
  have hordered := (listedAt_ordered ms h).filter fun i =>
    (ms.get i).owner.full != own && !(ms.get i).maskedBy ms parent
  have hdistinct : ((listedAt ms own (parent :: ancestors)).filter fun i =>
      (ms.get i).owner.full != own && !(ms.get i).maskedBy ms parent).Nodup := by
    refine hordered.imp ?_
    rintro i _ hlt rfl
    exact Precedes.irrefl i hlt
  have hsub : ((listedAt ms own (parent :: ancestors)).filter fun i =>
      (ms.get i).owner.full != own && !(ms.get i).maskedBy ms parent) ⊆
        listedAt ms parent ancestors := by
    intro i hi
    obtain ⟨hi, hflags⟩ := List.mem_filter.mp hi
    rw [Bool.and_eq_true, bne_iff_ne, Bool.not_eq_true'] at hflags
    obtain ⟨hhidden, howner | hpassed⟩ := (mem_listedAt h).mp hi
    · exact absurd howner hflags.1
    · refine (mem_listedAt hnodup).mpr ⟨hhidden, ?_⟩
      by_cases howner : (ms.get i).owner.full = parent
      · exact Or.inl howner
      · exact Or.inr (hpassed.parent howner hflags.2)
  exact List.sublist_of_subperm_of_pairwise (List.subperm_of_subset hdistinct hsub) hordered
    (listedAt_ordered ms hnodup)

/-- A class never shows what it masks itself. -/
theorem not_mem_listed_of_maskedBy {own : String} {ancestors : List String}
    (h : (own :: ancestors).Nodup) {m : Member α} (hmask : m.maskedBy ms own = true) :
    m ∉ listed (gather ms own ancestors) := by
  intro hm
  rw [← map_listedAt] at hm
  obtain ⟨i, hi, rfl⟩ := List.mem_map.mp hm
  obtain ⟨-, howner | hpassed⟩ := (mem_listedAt h).mp hi
  · exact (maskedBy_iff.mp hmask).1 howner
  · exact not_passedOn_of_maskedBy hmask hpassed

theorem listed_gather_sublist (ms : List (Member α)) {own parent : String} {ancestors : List String}
    (h : (own :: parent :: ancestors).Nodup) :
    ((listed (gather ms own (parent :: ancestors))).filter fun m =>
        m.owner.full != own && !m.maskedBy ms parent).Sublist (listed
          (gather ms parent ancestors)) := by
  rw [← map_listedAt, ← map_listedAt, List.filter_map]
  exact (listedAt_sublist ms h).map ms.get

end Member

namespace Hierarchy

section Coherence

variable {rules : Rules} {catalog : Catalog} {listed : List ClassEntry}

/-- The ancestors of a listed class are its parent, if that is listed, and the ancestors of the
parent. -/
theorem trail_of_parent (h : (resolve rules catalog).value.outcome = .ok listed) {b c : ClassEntry}
    (hb : b ∈ listed) (hparent : c.parentName = some b.name.full) {l l' : List ClassEntry}
    (hl : Trail (parentIn (definitionOf rules catalog.classes)) c l)
    (hl' : Trail (parentIn (definitionOf rules catalog.classes)) b l') :
    l.map (·.name.full) = b.name.full :: l'.map (·.name.full) := by
  obtain ⟨d, hd, -, _, ht, rfl⟩ := exists_of_mem_listed h hb
  have hdef : parentIn (definitionOf rules catalog.classes) c = some d := by
    rw [parentIn, hparent, Option.bind_some]
    exact ((arranges_arenaOf rules catalog.classes).find_iff _ d).mpr ⟨hd, rfl⟩
  have hstep := hl.unique (Trail.step hdef (hl'.of_parentName rfl))
  rw [hstep]
  rfl

/-- For every listed class whose parent is listed: of what it shows and does not declare itself, all
that the parent does not mask is shown by the parent too, as often and in the same order, and
nothing else is. -/
theorem resolve_coherent (h : (resolve rules catalog).value.outcome = .ok listed) {tree : Package}
    {b c : ClassEntry} (hc : c ∈ listed) (hparent : (Model.mk listed tree).parent c = .ok (some b))
    (k : MemberKind) :
    ((c.members.ofKind k).filter fun m => m.owner.full != c.name.full &&
        !m.maskedBy (catalog.members.ofKind k) b.name.full).Sublist (b.members.ofKind k) ∧
    ∀ m ∈ c.members.ofKind k, m.owner.full ≠ c.name.full →
      (m ∈ b.members.ofKind k ↔ m.maskedBy (catalog.members.ofKind k) b.name.full = false) := by
  have hget : c.parentName.bind (Model.mk listed tree).get? = some b := by
    rw [parent_listed h hc tree] at hparent
    exact Except.ok.inj hparent
  obtain ⟨full, hfull, hfind⟩ := Option.bind_eq_some_iff.mp hget
  have hb : b ∈ listed := List.mem_of_find?_eq_some hfind
  have hname : b.name.full = full := by simpa using List.find?_some hfind
  obtain ⟨l, hl, hnodup, hmembers⟩ := members_listed h hc
  obtain ⟨l', hl', hnodup', hmembers'⟩ := members_listed h hb
  have hancestors := trail_of_parent h hb (hname ▸ hfull) hl hl'
  rw [List.map_cons] at hnodup hnodup'
  rw [hancestors] at hnodup
  rw [hmembers k, hmembers' k, hancestors]
  have hsub := Member.listed_gather_sublist (catalog.members.ofKind k) hnodup
  refine ⟨hsub, fun m hm howner => ⟨fun hmb => ?_, fun hmask => ?_⟩⟩
  · rw [← Bool.not_eq_true]
    intro hmask
    exact Member.not_mem_listed_of_maskedBy hnodup' hmask hmb
  · refine hsub.subset (List.mem_filter.mpr ⟨hm, ?_⟩)
    rw [Bool.and_eq_true, bne_iff_ne, hmask]
    exact ⟨howner, rfl⟩

/-- A method at the root, and one with the same name in the middle that is static. -/
def staticBetween : Catalog where
  classes :=
    [{ name := ⟨"A", "A"⟩ },
      { name := ⟨"B", "B"⟩, parentName := some "A" },
      { name := ⟨"C", "C"⟩, parentName := some "B" }]
  members := { methods :=
    [{ name := "run", owner := ⟨"A", "A"⟩, detail := {} },
      { name := "run", owner := ⟨"B", "B"⟩, static := true, detail := {} }] }

/-- The class in the middle shows its own method. -/
def staticBetweenParent : ClassEntry where
  name := ⟨"B", "B"⟩
  parentName := some "A"
  subClasses := [⟨"C", "C"⟩]
  superClasses := [⟨"A", "A"⟩]
  parentIndex := some 0
  members := { methods :=
    [{ name := "run", owner := ⟨"B", "B"⟩, static := true, detail := {} }] }

/-- The class below it shows the method of the root. -/
def staticBetweenChild : ClassEntry where
  name := ⟨"C", "C"⟩
  parentName := some "B"
  superClasses := [⟨"A", "A"⟩, ⟨"B", "B"⟩]
  parentIndex := some 1
  members := { methods :=
    [{ name := "run", owner := ⟨"A", "A"⟩, detail := {} }] }

/-- What is listed of the three classes. -/
def staticBetweenListed : List ClassEntry :=
  [{ name := ⟨"A", "A"⟩
     subClasses := [⟨"B", "B"⟩]
     members := { methods := [{ name := "run", owner := ⟨"A", "A"⟩, detail := {} }] } },
    staticBetweenParent, staticBetweenChild]

theorem resolve_staticBetween :
    (resolve {} staticBetween).value.outcome = .ok staticBetweenListed := by
  have harena : arenaOf {} staticBetween.classes = staticBetween.classes := by cbv
  rw [resolve_outcome, settleAll, harena]
  cbv

theorem staticBetween_coherent :
    (resolve {} staticBetween).value.outcome = .ok staticBetweenListed ∧
    staticBetweenChild ∈ staticBetweenListed ∧
    (Model.mk staticBetweenListed {}).parent staticBetweenChild = .ok (some staticBetweenParent) ∧
    ((staticBetweenChild.members.ofKind .method).filter fun m =>
      m.owner.full != staticBetweenChild.name.full &&
        !m.maskedBy (staticBetween.members.ofKind .method) staticBetweenParent.name.full).Sublist
      (staticBetweenParent.members.ofKind .method) ∧
    ∀ m ∈ staticBetweenChild.members.ofKind .method, m.owner.full ≠ staticBetweenChild.name.full →
      (m ∈ staticBetweenParent.members.ofKind .method ↔
        m.maskedBy (staticBetween.members.ofKind .method) staticBetweenParent.name.full =
          false) := by
  have hc : staticBetweenChild ∈ staticBetweenListed := by
    simp [staticBetweenListed]
  have hparent : (Model.mk staticBetweenListed {}).parent staticBetweenChild =
      .ok (some staticBetweenParent) := rfl
  exact ⟨resolve_staticBetween, hc, hparent,
    resolve_coherent resolve_staticBetween hc hparent .method⟩

/-- A method of the root reaches the class past its parent, which overrides it and does not show
it. -/
theorem staticBetween_passed :
    (resolve {} staticBetween).value.outcome = .ok staticBetweenListed ∧
    staticBetweenChild ∈ staticBetweenListed ∧
    (Model.mk staticBetweenListed {}).parent staticBetweenChild = .ok (some staticBetweenParent) ∧
    ∃ m ∈ staticBetweenChild.members.methods, m.owner.full ≠ staticBetweenChild.name.full ∧
      m ∉ staticBetweenParent.members.methods := by
  refine ⟨resolve_staticBetween, by simp [staticBetweenListed], rfl, ?_⟩
  exact ⟨{ name := "run", owner := ⟨"A", "A"⟩, detail := {} }, by decide, by decide, by decide⟩

end Coherence

end Hierarchy

end ClassReference
