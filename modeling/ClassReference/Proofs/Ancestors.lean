import ClassReference.Proofs.ParentWalk
import Mathlib.Data.List.Forall2

/-!
# Proofs: the ancestors of a class in any list

In a list of classes, several classes may have one name, and each of them may have any class as its
parent, itself included. If there is a class at every position that is given for a parent, the
search for the ancestors of a class ends. It succeeds exactly if the parents lead to a class without
one, and lists the classes on the way. Otherwise the way comes back to a position, and the names up
to there are reported (`ancestors_found`).
-/

namespace ClassReference.Hierarchy

open Relation

section Search

variable {α : Type} {parentOf : α → Option α} {nameOf : α → Option String} {start : α}

/-- What a search for the ancestors of the class at `start` comes to. `parentOf` and `nameOf` give
the parent and the name of the class at a position. -/
structure FindsAncestors (parentOf : α → Option α) (nameOf : α → Option String) (start : α)
    (found : Except Cycle (List α)) : Prop where
  /-- The search ends without a bound on its steps, and this is what it comes to. -/
  ends : ∃ r, Climbs parentOf start [] (parentOf start) r ∧
    found = r.mapError fun visited => ⟨visited.filterMap nameOf⟩
  /-- There is a class at every position on the way. -/
  named : ∀ p, ReflTransGen (fun x y => parentOf x = some y) start p → (nameOf p).isSome
  /-- The search succeeds exactly if the way leads to a class without a parent. -/
  succeeds_iff : (∃ l, found = .ok l) ↔
    ∃ p, ReflTransGen (fun x y => parentOf x = some y) start p ∧ parentOf p = none
  /-- Then the positions on the way are found, from the parent on. -/
  ok_iff : ∀ l, found = .ok l ↔ Trail parentOf start l
  /-- No position is found twice, and the start is not among them. -/
  distinct : ∀ l, found = .ok l → l.Nodup ∧ start ∉ l
  /-- Otherwise the names on the way are reported, up to and including the first position that was
  visited before. -/
  error_iff : ∀ c, found = .error c ↔ ∃ visited, Loop parentOf start visited ∧
    List.Forall₂ (fun p name => nameOf p = some name) visited c.chain

/-- Where there is a class at every position, as many names are listed as positions. -/
theorem forall₂_names_iff {positions : List α} {names : List String}
    (h : ∀ p ∈ positions, (nameOf p).isSome) :
    List.Forall₂ (fun p name => nameOf p = some name) positions names ↔
      positions.filterMap nameOf = names := by
  induction positions generalizing names with
  | nil => simp [eq_comm]
  | cons p positions ih =>
    obtain ⟨hp, hrest⟩ := List.forall_mem_cons.mp h
    obtain ⟨name, hname⟩ := Option.isSome_iff_exists.mp hp
    rw [List.filterMap_cons_some hname, List.forall₂_cons_left_iff]
    constructor
    · rintro ⟨name', names', hname', hnames, rfl⟩
      rw [(ih hrest).mp hnames, Option.some.inj (hname.symm.trans hname')]
    · rintro rfl
      exact ⟨name, _, hname, (ih hrest).mpr rfl, rfl⟩

/-- If there is a class at every position on the way, the result of the walk is what the search has
to find. -/
theorem Climbs.findsAncestors {r : Except (List α) (List α)}
    (h : Climbs parentOf start [] (parentOf start) r)
    (hnamed : ∀ p, ReflTransGen (fun x y => parentOf x = some y) start p → (nameOf p).isSome) :
    FindsAncestors parentOf nameOf start
      (r.mapError fun visited => ⟨visited.filterMap nameOf⟩) := by
  have hok : ∀ l, (r.mapError fun visited => (⟨visited.filterMap nameOf⟩ : Cycle)) = .ok l ↔
      Trail parentOf start l := by
    intro l
    rw [← h.ok_iff l]
    cases r <;> simp [Except.mapError]
  refine ⟨⟨r, h, rfl⟩, hnamed, ?_, hok, ?_, ?_⟩
  · rw [← exists_trail_iff]
    exact exists_congr hok
  · intro l hl
    exact (List.nodup_cons.mp ((hok l).mp hl).nodup).symm
  · intro c
    constructor
    · intro hc
      cases r with
      | ok l => cases hc
      | error visited =>
        have hloop := (h.error_iff visited).mp rfl
        obtain rfl := Except.error.inj hc
        exact ⟨visited, hloop,
          (forall₂_names_iff fun p hp => hnamed p (hloop.reaches p hp)).mpr rfl⟩
    · rintro ⟨visited, hloop, hnames⟩
      rw [forall₂_names_iff fun p hp => hnamed p (hloop.reaches p hp)] at hnames
      rw [(h.error_iff visited).mpr hloop, Except.mapError, hnames]

end Search

/-! ## Positions that count from either end -/

section Listed

variable {list : List Listed} {p : Int}

/-- The position is in the list, if it is counted from the end where it is negative. -/
def InRange (list : List Listed) (p : Int) : Prop :=
  -(list.length : Int) ≤ p ∧ p < list.length

/-- The parent of the class at a position. -/
def listedParent (list : List Listed) (p : Int) : Option Int :=
  (listedAt list p).bind (·.parent)

/-- The name of the class at a position. -/
def listedName (list : List Listed) (p : Int) : Option String :=
  (listedAt list p).map (·.name)

/-- All positions in a list. -/
def positionsIn (list : List Listed) : List Int :=
  (List.range (2 * list.length)).map fun (k : Nat) => (k : Int) - list.length

theorem mem_positionsIn : p ∈ positionsIn list ↔ InRange list p := by
  simp only [positionsIn, InRange, List.mem_map, List.mem_range]
  constructor
  · rintro ⟨k, hk, rfl⟩
    omega
  · intro h
    exact ⟨(p + list.length).toNat, by omega, by omega⟩

theorem InRange.exists_listedAt (h : InRange list p) : ∃ e ∈ list, listedAt list p = some e := by
  obtain ⟨hlow, hhigh⟩ := h
  unfold listedAt
  by_cases hneg : p < 0
  · have hlt : (p + list.length).toNat < list.length := by omega
    refine ⟨list[(p + list.length).toNat], List.getElem_mem hlt, ?_⟩
    rw [if_pos hneg, if_neg (by omega), List.getElem?_eq_getElem hlt]
  · have hlt : p.toNat < list.length := by omega
    refine ⟨list[p.toNat], List.getElem_mem hlt, ?_⟩
    rw [if_neg hneg, if_neg hneg, List.getElem?_eq_getElem hlt]

theorem InRange.isSome_listedName (h : InRange list p) : (listedName list p).isSome := by
  obtain ⟨e, -, he⟩ := h.exists_listedAt
  simp [listedName, he]

theorem InRange.listedParent (hparents : ∀ e ∈ list, ∀ p, e.parent = some p → InRange list p)
    {q : Int} (h : InRange list p) (hq : listedParent list p = some q) : InRange list q := by
  obtain ⟨e, hmem, he⟩ := h.exists_listedAt
  rw [Hierarchy.listedParent, he] at hq
  exact hparents e hmem q hq

/-- Where there is a class at every position on the way, the search fails only because of a
cycle. -/
theorem listedAncestors_eq {i : Int} {r : Except (List Int) (List Int)}
    (hr : climb (listedParent list) i (2 * list.length) [] (listedParent list i) = r)
    (hnamed : ∀ l, r = .ok l → ∀ p ∈ l, (listedName list p).isSome) :
    listedAncestors list i =
      (r.mapError fun visited =>
        (⟨visited.filterMap (listedName list)⟩ : Cycle)).mapError .cycle := by
  unfold listedParent at hr
  unfold listedAncestors
  simp only [hr]
  cases r with
  | error visited => rfl
  | ok l =>
    have hnone : (l.find? fun p => (listedAt list p).isNone) = none := by
      rw [List.find?_eq_none]
      intro p hp
      have hname := hnamed l rfl p hp
      rw [listedName, Option.isSome_map, Option.isSome_iff_ne_none] at hname
      simpa using hname
    simp only [hnone]
    rfl

theorem findsAncestors_listed (hparents : ∀ e ∈ list, ∀ p, e.parent = some p → InRange list p)
    {i : Int} (hi : InRange list i) : ∃ found, listedAncestors list i = found.mapError .cycle ∧
      FindsAncestors (listedParent list) (listedName list) i found := by
  have hclosed : ∀ x ∈ positionsIn list, ∀ y, listedParent list x = some y →
      y ∈ positionsIn list := by
    intro x hx y hy
    exact mem_positionsIn.mpr ((mem_positionsIn.mp hx).listedParent hparents hy)
  have hnamed : ∀ p, ReflTransGen (fun x y => listedParent list x = some y) i p →
      (listedName list p).isSome := by
    intro p hp
    exact (mem_positionsIn.mp
      (mem_of_reaches hclosed (mem_positionsIn.mpr hi) hp)).isSome_listedName
  have hwalk : Climbs (listedParent list) i [] (listedParent list i)
      (climb (listedParent list) i (2 * list.length) [] (listedParent list i)) :=
    climbs_start hclosed (mem_positionsIn.mpr hi) (by simp [positionsIn])
  refine ⟨_, listedAncestors_eq rfl ?_, hwalk.findsAncestors hnamed⟩
  intro l hl p hp
  exact hnamed p (((hwalk.ok_iff l).mp hl).reaches p hp)

end Listed

/-! ## Positions of classes to be resolved -/

/-- The name of the class at a position. -/
def nameAt (arena : List ClassEntry) (i : Nat) : Option String :=
  arena[i]?.map (·.name.full)

theorem findsAncestors_arena {arena : List ClassEntry}
    (hparents : ∀ e ∈ arena, ∀ p, e.parentIndex = some p → p < arena.length) {i : Nat}
    (hi : i < arena.length) :
    FindsAncestors (parentAt arena) (nameAt arena) i (ancestors arena i) := by
  have hclosed : ∀ x ∈ List.range arena.length, ∀ y, parentAt arena x = some y →
      y ∈ List.range arena.length := by
    intro x _ y hy
    obtain ⟨e, he, hp⟩ := Option.bind_eq_some_iff.mp hy
    exact List.mem_range.mpr (hparents e (List.mem_of_getElem? he) y hp)
  have hnamed : ∀ p, ReflTransGen (fun x y => parentAt arena x = some y) i p →
      (nameAt arena p).isSome := by
    intro p hp
    have hlt := List.mem_range.mp (mem_of_reaches hclosed (List.mem_range.mpr hi) hp)
    simp [nameAt, hlt]
  exact (climbs_start hclosed (List.mem_range.mpr hi) (by simp)).findsAncestors hnamed

/-- In any list of classes whose parents are in it, the search for the ancestors of a class ends. It
finds the way along the parents, or reports that this way comes back. Positions may count from
either end of the list; classes that are to be resolved are searched by positions from its start. -/
theorem ancestors_found :
    (∀ list : List Listed, (∀ e ∈ list, ∀ p, e.parent = some p → InRange list p) →
      ∀ i, InRange list i →
      ∃ found, listedAncestors list i = found.mapError .cycle ∧
        FindsAncestors (listedParent list) (listedName list) i found) ∧
    ∀ arena : List ClassEntry, (∀ e ∈ arena, ∀ p, e.parentIndex = some p → p < arena.length) →
      ∀ i < arena.length,
      FindsAncestors (parentAt arena) (nameAt arena) i (ancestors arena i) := by
  constructor
  · intro list hparents i hi
    exact findsAncestors_listed hparents hi
  · intro arena hparents i hi
    exact findsAncestors_arena hparents hi

/-- Two classes of one name. The parents of the first run into a cycle that the second is part of;
its position is given from the end. -/
def runsIntoNamesake : List Listed :=
  [⟨"A", some 1⟩, ⟨"B", some (-1)⟩, ⟨"A", some 1⟩]

/-- Two classes of one name, one of which is an ancestor of the other. -/
def belowNamesake : List ClassEntry :=
  [{ name := ⟨"A", "A"⟩, parentIndex := some 2 }, { name := ⟨"A", "A"⟩ },
    { name := ⟨"B", "B"⟩, parentIndex := some 1 }]

theorem namesakes_found :
    (listedAncestors runsIntoNamesake 0 = .error (.cycle ⟨["A", "B", "A", "B"]⟩) ∧
      ∃ visited, Loop (listedParent runsIntoNamesake) 0 visited ∧
        List.Forall₂ (fun p name => listedName runsIntoNamesake p = some name) visited
          ["A", "B", "A", "B"]) ∧
    ancestors belowNamesake 0 = .ok [2, 1] ∧ Trail (parentAt belowNamesake) 0 [2, 1] := by
  have hcycle : listedAncestors runsIntoNamesake 0 = .error (.cycle ⟨["A", "B", "A", "B"]⟩) := rfl
  have hchain : ancestors belowNamesake 0 = .ok [2, 1] := rfl
  obtain ⟨found, heq, hfound⟩ :=
    ancestors_found.1 runsIntoNamesake (by simp [runsIntoNamesake, InRange]) 0
    (by simp [runsIntoNamesake, InRange])
  have hbelow :=
    ancestors_found.2 belowNamesake (by simp [belowNamesake]) 0 (by simp [belowNamesake])
  refine ⟨⟨hcycle, ?_⟩, hchain, (hbelow.ok_iff _).mp hchain⟩
  rw [hcycle] at heq
  cases found with
  | ok l => cases heq
  | error c =>
    cases heq
    exact (hfound.error_iff _).mp rfl

end ClassReference.Hierarchy
