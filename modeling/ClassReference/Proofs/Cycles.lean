import ClassReference.Proofs.Settling
import Mathlib

/-!
# Proofs: cyclic inheritance

Resolution fails exactly if, among the selected classes, following the parents of some class comes
back to a class that was visited before. It then reports the walk from the first class in the order
of names whose parents do not end.
-/

namespace ClassReference.Hierarchy

open Relation

/-- The name of the parent of a class, by its name. Both are among the classes that `defs` gives. -/
def parentNameIn (defs : String → Option ClassEntry) (full : String) : Option String :=
  (defs full).bind fun e => e.parentName.filter fun p => (defs p).isSome

/-- Following the parents of some class visits a class twice. -/
def Cyclic (defs : String → Option ClassEntry) : Prop :=
  ∃ x y, ReflTransGen (fun a b => parentNameIn defs a = some b) x y ∧
    TransGen (fun a b => parentNameIn defs a = some b) y y

section Names

variable {defs : String → Option ClassEntry} {arena : List ClassEntry}

/-- Names lead from class to parent as definitions do. -/
theorem Arranges.parentNameIn_eq (h : Arranges defs arena) {e : ClassEntry} (he : e ∈ arena) :
    parentNameIn defs e.name.full = (parentIn defs e).map (·.name.full) := by
  unfold parentNameIn parentIn
  rw [(h.find_iff e.name.full e).mpr ⟨he, rfl⟩, Option.bind_some]
  cases hp : e.parentName with
  | none => rfl
  | some full =>
    cases hd : defs full with
    | none => simp [Option.filter, hd]
    | some p => simp [Option.filter, hd, ((h.find_iff full p).mp hd).2]

/-- A name with a parent is that of a class. -/
theorem Arranges.exists_of_parentNameIn (h : Arranges defs arena) {x y : String}
    (hxy : parentNameIn defs x = some y) : ∃ e ∈ arena, e.name.full = x := by
  obtain ⟨e, hd, -⟩ := Option.bind_eq_some_iff.mp hxy
  exact ⟨e, (h.find_iff x e).mp hd⟩

theorem Arranges.trail_names (h : Arranges defs arena) {e : ClassEntry} {l : List ClassEntry}
    (he : e ∈ arena) (ht : Trail (parentIn defs) e l) :
    Trail (parentNameIn defs) e.name.full (l.map (·.name.full)) :=
  ht.map (fun _ _ _ hy => h.mem_of_parentIn hy) (fun _ hx => h.parentNameIn_eq hx) he

theorem Arranges.loop_names (h : Arranges defs arena) {e : ClassEntry} {v : List ClassEntry}
    (he : e ∈ arena) (hv : Loop (parentIn defs) e v) :
    Loop (parentNameIn defs) e.name.full (v.map (·.name.full)) :=
  hv.map (fun _ hx _ hy hxy => h.eq_of_name hx hy hxy) (fun _ hx => h.parentNameIn_eq hx)
    (h.mem_of_loop he hv)

/-- If the parents of every class end, no class is visited twice. -/
theorem Arranges.not_cyclic (h : Arranges defs arena)
    (htrails : ∀ e ∈ arena, ∃ l, Trail (parentIn defs) e l) : ¬ Cyclic defs := by
  rintro ⟨-, y, -, hyy⟩
  obtain ⟨z, hyz, -⟩ := TransGen.head'_iff.mp hyy
  obtain ⟨e, he, rfl⟩ := h.exists_of_parentNameIn hyz
  obtain ⟨l, ht⟩ := htrails e he
  exact (h.trail_names he ht).not_revisited ReflTransGen.refl hyy

/-- The first class whose parents do not end has the least such name. -/
theorem Arranges.isLeast_endless (h : Arranges defs arena) {before after : List ClassEntry}
    {d : ClassEntry} (harena : arena = before ++ d :: after)
    (hbefore : ∀ b ∈ before, ∃ l, Trail (parentIn defs) b l) {v : List ClassEntry}
    (hv : Loop (parentIn defs) d v) : IsLeast {x | Endless (parentNameIn defs) x} d.name.full := by
  have hd : d ∈ arena := by rw [harena]; simp
  constructor
  · exact endless_iff.mpr fun ⟨_, ht⟩ => (h.loop_names hd hv).not_trail ht
  · intro y hy
    obtain ⟨z, hyz⟩ := Option.ne_none_iff_exists'.mp (hy y ReflTransGen.refl)
    obtain ⟨e, he, rfl⟩ := h.exists_of_parentNameIn hyz
    have hsorted := h.sorted
    rw [harena] at he hsorted
    rcases List.mem_append.mp he with he | he
    · -- the parents of the classes before `d` end
      obtain ⟨l, ht⟩ := hbefore e he
      have hea : e ∈ arena := by rw [harena]; exact List.mem_append_left _ he
      exact absurd ⟨_, h.trail_names hea ht⟩ (endless_iff.mp hy)
    · rcases List.mem_cons.mp he with rfl | he
      · exact le_rfl
      · exact (List.rel_of_pairwise_cons (List.pairwise_append.mp hsorted).2.1 he).le

end Names

/-- The links of the arena lead to classes, and no walk along them is cut off by the bound on its
steps. -/
theorem Arranges.walks_complete {defs : String → Option ClassEntry} {arena : List ClassEntry}
    (h : Arranges defs arena) (ms : Members) :
    (∀ i j, parentAt (link arena ms) i = some j → j < arena.length) ∧
    ∀ i steps, i < arena.length → arena.length ≤ steps →
      climb (parentAt (link arena ms)) i steps [] (parentAt (link arena ms) i) =
        climb (parentAt (link arena ms)) i arena.length [] (parentAt (link arena ms) i) := by
  refine ⟨fun i j hij => h.parentIndex_lt hij, fun i steps hi hsteps => ?_⟩
  have hclosed : ∀ x ∈ List.range arena.length, ∀ y, parentAt (link arena ms) x = some y →
      y ∈ List.range arena.length := fun x _ y hxy => List.mem_range.mpr (h.parentIndex_lt hxy)
  exact climb_steps hclosed (List.mem_range.mpr hi) (by simpa using hsteps) (by simp)

/-- Resolution reports a cycle exactly if there is one, and lists classes otherwise. What it reports
is the walk from the least name whose parents do not end: its names are different up to the last,
which equals exactly one before it. No walk leaves the arena or runs out of steps. -/
theorem resolve_reports_cycles (rules : Rules) (catalog : Catalog) :
    ((∃ c, (resolve rules catalog).value.outcome = .error c) ↔
      Cyclic (definitionOf rules catalog.classes)) ∧
    ((∃ listed, (resolve rules catalog).value.outcome = .ok listed) ↔
      ¬ Cyclic (definitionOf rules catalog.classes)) ∧
    (∀ c, (resolve rules catalog).value.outcome = .error c →
      ∃ first between last, c.chain = first :: between ++ [last] ∧
        IsLeast {x | Endless (parentNameIn (definitionOf rules catalog.classes)) x} first ∧
        c.chain.IsChain (fun x y => parentNameIn (definitionOf rules catalog.classes) x = some y) ∧
        (first :: between).Nodup ∧ (first :: between).count last = 1) ∧
    (∀ i j, parentAt (link (arenaOf rules catalog.classes) catalog.members) i = some j →
      j < (arenaOf rules catalog.classes).length) ∧
    ∀ i steps, i < (arenaOf rules catalog.classes).length →
      (arenaOf rules catalog.classes).length ≤ steps →
      climb (parentAt (link (arenaOf rules catalog.classes) catalog.members)) i steps []
          (parentAt (link (arenaOf rules catalog.classes) catalog.members) i) =
        climb (parentAt (link (arenaOf rules catalog.classes) catalog.members)) i
          (arenaOf rules catalog.classes).length []
          (parentAt (link (arenaOf rules catalog.classes) catalog.members) i) := by
  have h := arranges_arenaOf rules catalog.classes
  rw [← and_assoc, ← and_assoc]
  refine ⟨?_, h.walks_complete catalog.members⟩
  rcases resolve_cases rules catalog with
    ⟨out, hok, hall⟩ | ⟨before, d, after, v, harena, hbefore, hv, herr⟩
  · have hnot : ¬ Cyclic (definitionOf rules catalog.classes) := by
      refine h.not_cyclic fun e he => ?_
      obtain ⟨i, hi, rfl⟩ := List.getElem_of_mem he
      obtain ⟨l, ht, -⟩ := hall.get hi (hall.length_eq ▸ hi)
      exact ⟨l, ht⟩
    simp [hok, hnot]
  · have hd : d ∈ arenaOf rules catalog.classes := by rw [harena]; simp
    have hloop := h.loop_names hd hv
    obtain ⟨b, hab, hbb⟩ := hloop.revisited
    have hcyc : Cyclic (definitionOf rules catalog.classes) := ⟨_, b, hab, hbb⟩
    obtain ⟨chain, p, hchain, hc, hnd, hp⟩ := hloop
    refine ⟨⟨by simp [herr, hcyc], by simp [herr, hcyc]⟩, ?_⟩
    intro c hcerr
    rw [herr] at hcerr
    obtain rfl := Except.error.inj hcerr
    exact ⟨d.name.full, chain, p, hchain, h.isLeast_endless harena hbefore hv, hc, hnd,
      List.count_eq_one_of_mem hnd hp⟩

/-- A cycle of two classes, and a class outside it whose parents run into it. -/
def cycleWithTail : List ClassEntry :=
  [{ name := ⟨"C", "C"⟩, parentName := some "B" },
    { name := ⟨"A", "A"⟩, parentName := some "B" },
    { name := ⟨"B", "B"⟩, parentName := some "C" }]

theorem cycleWithTail_reported :
    (resolve {} { classes := cycleWithTail }).value.outcome = .error ⟨["A", "B", "C", "B"]⟩ ∧
      Cyclic (definitionOf {} cycleWithTail) ∧
      IsLeast {x | Endless (parentNameIn (definitionOf {} cycleWithTail)) x} "A" := by
  have h : (resolve {} { classes := cycleWithTail }).value.outcome =
    .error ⟨["A", "B", "C", "B"]⟩ := by
    cbv
  obtain ⟨hcyclic, -, hchain, -⟩ := resolve_reports_cycles {} { classes := cycleWithTail }
  obtain ⟨first, between, last, heq, hleast, -⟩ := hchain _ h
  obtain ⟨rfl, -⟩ := List.cons.inj heq
  exact ⟨h, hcyclic.mp ⟨_, h⟩, hleast⟩

end ClassReference.Hierarchy
