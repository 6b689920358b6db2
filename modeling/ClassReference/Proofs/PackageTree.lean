import ClassReference.Package
import ClassReference.Proofs.MemberLists

/-!
# Proofs: the tree of packages

Classes are placed in the tree one after the other, and packages are made as they are needed; then
the tree is sorted. A class that is placed adds to the package that its path leads to, and changes
the classes of no other one (`classesAt_place`). Sorting a package moves its children about, but as
they have different names it does not change what a path leads to (`descend_sorted`). So every class
is found where its package name says (`isTreeOf_ofClasses`).
-/

namespace ClassReference.Package

/-! ## Packages of a tree -/

/-- Following the names from child to child, one comes from one package to another. -/
inductive Leads : List String → Package → Package → Prop where
  | nil (p : Package) : Leads [] p p
  | cons {path : List String} {p q r : Package} (hq : q ∈ p.packages) (h : Leads path q r) :
      Leads (q.name :: path) p r

mutual

/-- The classes of a package and of all packages below it. -/
def allClasses : Package → List ClassName
  | ⟨_, _, packages, classes⟩ => classes ++ allClassesIn packages

/-- The classes of some packages and of all packages below them. -/
def allClassesIn : List Package → List ClassName
  | [] => []
  | p :: ps => allClasses p ++ allClassesIn ps

end

/-- The package and all packages below it have a property. -/
inductive Everywhere (P : Package → Prop) : Package → Prop where
  | intro {p : Package} (top : P p) (children : ∀ q ∈ p.packages, Everywhere P q) : Everywhere P p

/-- The tree holds the classes where their package names say. -/
structure IsTreeOf (root : Package) (classes : List ClassEntry) : Prop where
  /-- Every class occurs in the tree as often as it is given. -/
  all : root.allClasses.Perm (classes.map (·.name))
  /-- Its package name leads to the package that it is in, and that package is found by this
  name. -/
  found : ∀ e ∈ classes, ∃ p, Leads (pathOf e.packageName) root p ∧
    root.find e.packageName = some p ∧ e.name ∈ p.classes
  /-- A package holds the classes whose package names lead to it, equal names in the order in which
  they are given. -/
  classes : ∀ path p, Leads path root p → p.classes.Pairwise (fun a b => a.full ≤ b.full) ∧
    ∀ full, p.classes.filter (·.full == full) =
      ((classes.filter (pathOf ·.packageName == path)).map (·.name)).filter (·.full == full)
  /-- The children of a package have different names and are in the order of their names. -/
  packages : ∀ path p, Leads path root p → (p.packages.map (·.name)).Pairwise (· < ·)
  /-- Below the root, no package is empty. -/
  occupied : ∀ path p, Leads path root p → path ≠ [] → p.allClasses ≠ []

theorem allClassesIn_eq (ps : List Package) : allClassesIn ps = ps.flatMap allClasses := by
  induction ps with
  | nil => rw [allClassesIn, List.flatMap_nil]
  | cons p ps ih => rw [allClassesIn, ih, List.flatMap_cons]

theorem allClasses_eq (p : Package) :
    p.allClasses = p.classes ++ p.packages.flatMap allClasses := by
  rcases p with ⟨name, fullName, packages, classes⟩
  rw [allClasses, allClassesIn_eq]

section Everywhere

variable {P Q : Package → Prop} {root p : Package} {path : List String}

theorem Everywhere.top (h : Everywhere P p) : P p := by
  cases h with
  | intro top _ => exact top

theorem Everywhere.children (h : Everywhere P p) : ∀ q ∈ p.packages, Everywhere P q := by
  cases h with
  | intro _ children => exact children

theorem Everywhere.further (h : Everywhere P root) (hp : Leads path root p) : Everywhere P p := by
  induction hp with
  | nil p => exact h
  | cons hq _ ih => exact ih (h.children _ hq)

theorem Everywhere.of_leads (h : Everywhere P root) (hp : Leads path root p) : P p :=
  (h.further hp).top

theorem Everywhere.imp (h : Everywhere P root) (hPQ : ∀ p, P p → Q p) : Everywhere Q root := by
  induction h with
  | intro top _ ih => exact ⟨hPQ _ top, ih⟩

end Everywhere

/-! ## Different names -/

/-- The children of a package have different names. -/
def Distinct (p : Package) : Prop :=
  (p.packages.map (·.name)).Nodup

theorem child?_eq_some_iff {p q : Package} (h : p.Distinct) {name : String} :
    p.child? name = some q ↔ q ∈ p.packages ∧ q.name = name := by
  constructor
  · intro hq
    exact ⟨List.mem_of_find?_eq_some hq, by simpa using List.find?_some hq⟩
  · rintro ⟨hq, rfl⟩
    obtain ⟨r, hr⟩ : ∃ r, p.child? q.name = some r := by
      rw [← Option.isSome_iff_exists, child?, List.find?_isSome]
      exact ⟨q, hq, by simp⟩
    have hname : r.name = q.name := by simpa using List.find?_some hr
    rw [hr, List.inj_on_of_nodup_map h (List.mem_of_find?_eq_some hr) hq hname]

/-- If children have different names, following names is the same as looking them up. -/
theorem leads_iff {root p : Package} (h : Everywhere Distinct root) {path : List String} :
    Leads path root p ↔ descend path root = some p := by
  induction path generalizing root with
  | nil =>
    rw [descend, Option.some.injEq]
    constructor
    · intro hp
      cases hp
      rfl
    · rintro rfl
      exact .nil _
  | cons name path ih =>
    rw [descend, Option.bind_eq_some_iff]
    constructor
    · intro hp
      cases hp with
      | cons hq hp =>
        exact ⟨_, (child?_eq_some_iff h.top).mpr ⟨hq, rfl⟩, (ih (h.children _ hq)).mp hp⟩
    · rintro ⟨q, hq, hp⟩
      obtain ⟨hmem, rfl⟩ := (child?_eq_some_iff h.top).mp hq
      exact .cons hmem ((ih (h.children q hmem)).mpr hp)

/-! ## Placing a class -/

theorem mem_modifyNamed {name : String} {f : Package → Package} {fresh q : Package}
    {ps : List Package} (h : q ∈ modifyNamed name f fresh ps) :
    q ∈ ps ∨ ∃ p ∈ fresh :: ps, q = f p := by
  induction ps with
  | nil => exact Or.inr ⟨fresh, List.mem_cons_self, List.mem_singleton.mp h⟩
  | cons p ps ih =>
    rw [modifyNamed] at h
    split at h
    · rcases List.mem_cons.mp h with rfl | h
      · exact Or.inr ⟨p, by simp, rfl⟩
      · exact Or.inl (List.mem_cons_of_mem _ h)
    · rcases List.mem_cons.mp h with rfl | h
      · exact Or.inl List.mem_cons_self
      · rcases ih h with h | ⟨p', hp', rfl⟩
        · exact Or.inl (List.mem_cons_of_mem _ h)
        · refine Or.inr ⟨p', ?_, rfl⟩
          rcases List.mem_cons.mp hp' with rfl | hp'
          · exact List.mem_cons_self
          · exact List.mem_cons_of_mem _ (List.mem_cons_of_mem _ hp')

section Place

variable {f : Package → Package} {name : String}

theorem find?_modifyNamed (hf : ∀ p, (f p).name = p.name) (fresh : Package)
    (hfresh : fresh.name = name) (ps : List Package) (name' : String) :
    (modifyNamed name f fresh ps).find? (·.name == name') =
      if name' = name then some (f ((ps.find? (·.name == name)).getD fresh))
        else ps.find? (·.name == name') := by
  induction ps with
  | nil =>
    by_cases hn : name' = name
    · simp [modifyNamed, hf, hfresh, hn]
    · simp [modifyNamed, hf, hfresh, hn, Ne.symm hn]
  | cons p ps ih =>
    rw [modifyNamed]
    by_cases hp : p.name = name
    · by_cases hn : name' = name
      · simp [hp, hf, hn]
      · simp [hp, hf, hn, Ne.symm hn]
    · by_cases hn : name' = name
      · subst hn
        simp [hp, ih]
      · simp only [if_neg hp, List.find?_cons, ih, if_neg hn]

theorem map_name_modifyNamed (hf : ∀ p, (f p).name = p.name) (fresh : Package)
    (hfresh : fresh.name = name) (ps : List Package) :
    (modifyNamed name f fresh ps).map (·.name) =
      ps.map (·.name) ++ if name ∈ ps.map (·.name) then [] else [name] := by
  induction ps with
  | nil => simp [modifyNamed, hf, hfresh]
  | cons p ps ih =>
    rw [modifyNamed]
    by_cases hp : p.name = name
    · simp [hp, hf]
    · simp [hp, ih, Ne.symm hp]

theorem name_modifyAt (hf : ∀ p, (f p).name = p.name) (path : List String) (p : Package) :
    (modifyAt f path p).name = p.name := by
  cases path with
  | nil => exact hf p
  | cons name path => rfl

theorem child?_modifyChild (hf : ∀ p, (f p).name = p.name) (p : Package) (name' : String) :
    (modifyChild name f p).child? name' =
      if name' = name then some (f ((p.child? name).getD (p.newChild name))) else p.child? name' :=
  find?_modifyNamed hf (p.newChild name) rfl p.packages name'

theorem names_modifyChild (hf : ∀ p, (f p).name = p.name) (p : Package) :
    (modifyChild name f p).packages.map (·.name) =
      p.packages.map (·.name) ++ if name ∈ p.packages.map (·.name) then [] else [name] :=
  map_name_modifyNamed hf (p.newChild name) rfl p.packages

end Place

/-- The classes of the package that the path leads to; none if it leads nowhere. -/
def classesAt (path : List String) (root : Package) : List ClassName :=
  ((descend path root).map (·.classes)).getD []

theorem classesAt_cons (name : String) (path : List String) (root : Package) :
    classesAt (name :: path) root = ((root.child? name).map (classesAt path)).getD [] := by
  unfold classesAt
  rw [descend]
  cases root.child? name <;> rfl

theorem classesAt_eq_nil (root : Package) (hclasses : root.classes = [])
    (hpackages : root.packages = []) (path : List String) : classesAt path root = [] := by
  cases path with
  | nil => exact hclasses
  | cons name path => simp [classesAt_cons, child?, hpackages]

/-- A class that is placed is put behind the classes of its package, and no other package has more
or fewer classes than before. -/
theorem classesAt_place (root : Package) (path path' : List String) (c : ClassName) :
    classesAt path' (root.place path c) = classesAt path' root ++ if path' = path then [c]
      else [] := by
  unfold place
  induction path generalizing root path' with
  | nil =>
    cases path' with
    | nil => rfl
    | cons name' path' => simp [classesAt_cons, modifyAt, child?, addClass]
  | cons name path ih =>
    have hname := name_modifyAt (f := addClass c) (fun _ => rfl) path
    cases path' with
    | nil => simp [classesAt, descend, modifyAt, modifyChild]
    | cons name' path' =>
      rw [classesAt_cons, classesAt_cons, modifyAt, child?_modifyChild hname]
      by_cases hn : name' = name
      · subst hn
        rw [if_pos rfl, Option.map_some, Option.getD_some, ih]
        cases root.child? name' with
        | some q => simp
        | none => simp [classesAt_eq_nil (root.newChild name') rfl rfl]
      · simp [hn]

theorem allClasses_place (root : Package) (path : List String) (c : ClassName) :
    (root.place path c).allClasses.Perm (c :: root.allClasses) := by
  unfold place
  induction path generalizing root with
  | nil =>
    rw [allClasses_eq, allClasses_eq root]
    simp only [modifyAt, addClass, List.append_assoc, List.singleton_append]
    exact List.perm_middle
  | cons name path ih =>
    have hnamed : ∀ (fresh : Package) (ps : List Package), fresh.allClasses = [] →
        ((modifyNamed name (modifyAt (addClass c) path) fresh ps).flatMap allClasses).Perm
          (c :: ps.flatMap allClasses) := by
      intro fresh ps hfresh
      induction ps with
      | nil =>
        have hone := ih fresh
        rw [hfresh] at hone
        simpa [modifyNamed] using hone
      | cons p ps ihps =>
        rw [modifyNamed]
        split
        · rw [List.flatMap_cons, List.flatMap_cons]
          exact (ih p).append_right _
        · rw [List.flatMap_cons, List.flatMap_cons]
          exact (ihps.append_left _).trans List.perm_middle
    have hfresh : (root.newChild name).allClasses = [] := by
      rw [allClasses_eq]
      rfl
    rw [allClasses_eq, allClasses_eq root]
    exact ((hnamed _ root.packages hfresh).append_left _).trans List.perm_middle

/-- The children of a package have different names, and none of them is empty. -/
def Grown (p : Package) : Prop :=
  p.Distinct ∧ ∀ q ∈ p.packages, q.allClasses ≠ []

theorem everywhere_grown_place {root : Package} (h : Everywhere Grown root) (path : List String)
    (c : ClassName) : Everywhere Grown (root.place path c) := by
  unfold place
  induction path generalizing root with
  | nil => exact ⟨h.top, h.children⟩
  | cons name path ih =>
    obtain ⟨⟨hdistinct, hoccupied⟩, hchildren⟩ := h
    have hfresh : Everywhere Grown (root.newChild name) :=
      ⟨⟨List.nodup_nil, by simp [newChild]⟩, by simp [newChild]⟩
    have hname := name_modifyAt (f := addClass c) (fun _ => rfl) path
    have hadded : ∀ p, (modifyAt (addClass c) path p).allClasses ≠ [] := by
      intro p hnil
      have hperm := allClasses_place p path c
      rw [place, hnil] at hperm
      exact absurd hperm.symm.eq_nil (List.cons_ne_nil _ _)
    have hchild : ∀ q ∈ (modifyAt (addClass c) (name :: path) root).packages,
        q ∈ root.packages ∨ ∃ p, Everywhere Grown p ∧ q = modifyAt (addClass c) path p := by
      intro q hq
      rcases mem_modifyNamed hq with hq | ⟨p, hp, rfl⟩
      · exact Or.inl hq
      · rcases List.mem_cons.mp hp with rfl | hp
        · exact Or.inr ⟨_, hfresh, rfl⟩
        · exact Or.inr ⟨p, hchildren p hp, rfl⟩
    refine ⟨⟨?_, ?_⟩, ?_⟩
    · unfold Distinct at hdistinct ⊢
      rw [modifyAt, names_modifyChild hname]
      split
      · simpa using hdistinct
      · rename_i hnew
        exact hdistinct.append (List.nodup_singleton _) (by simpa using hnew)
    · intro q hq
      rcases hchild q hq with hq | ⟨p, -, rfl⟩
      · exact hoccupied q hq
      · exact hadded p
    · intro q hq
      rcases hchild q hq with hq | ⟨p, hp, rfl⟩
      · exact hchildren q hq
      · exact ih hp

/-- The tree that the classes are placed in, before it is sorted. -/
def grow (classes : List ClassEntry) : Package :=
  classes.foldl (fun root e => root.place (pathOf e.packageName) e.name) {}

/-- Of the classes that were placed, a package holds those whose path leads to it, in their
order. -/
theorem classesAt_grow (classes : List ClassEntry) (path : List String) :
    classesAt path (grow classes) = (classes.filter (pathOf ·.packageName == path)).map
      (·.name) := by
  have hfold : ∀ root : Package,
      classesAt path (classes.foldl (fun root e => root.place (pathOf e.packageName) e.name) root) =
        classesAt path root ++ (classes.filter (pathOf ·.packageName == path)).map (·.name) := by
    induction classes with
    | nil => simp
    | cons e classes ih =>
      intro root
      rw [List.foldl_cons, ih, classesAt_place]
      by_cases he : path = pathOf e.packageName
      · simp [he]
      · simp [he, Ne.symm he]
  rw [grow, hfold, classesAt_eq_nil {} rfl rfl, List.nil_append]

theorem allClasses_grow (classes : List ClassEntry) :
    (grow classes).allClasses.Perm (classes.map (·.name)) := by
  have hfold : ∀ root : Package,
      (classes.foldl (fun root e => root.place (pathOf e.packageName) e.name) root).allClasses.Perm
        (classes.map (·.name) ++ root.allClasses) := by
    induction classes with
    | nil => exact fun root => .refl _
    | cons e classes ih =>
      intro root
      exact (ih _).trans (((allClasses_place root _ e.name).append_left _).trans List.perm_middle)
  have hempty : ({} : Package).allClasses = [] := by rw [allClasses_eq]; rfl
  have hgrown := hfold {}
  rwa [hempty, List.append_nil] at hgrown

/-- What holds of the empty tree and is kept when a class is placed holds of the tree that all
classes are placed in. -/
theorem grow_induction {P : Package → Prop} (classes : List ClassEntry) (hempty : P {})
    (hplace : ∀ (root : Package) (path : List String) (c : ClassName), P root →
      P (root.place path c)) :
    P (grow classes) := by
  have hfold : ∀ root : Package, P root → P
      (classes.foldl (fun root e => root.place (pathOf e.packageName) e.name) root) := by
    induction classes with
    | nil => exact fun root h => h
    | cons e classes ih => exact fun root h => ih _ (hplace root _ e.name h)
  exact hfold {} hempty

theorem everywhere_grown_grow (classes : List ClassEntry) : Everywhere Grown (grow classes) :=
  grow_induction classes ⟨⟨List.nodup_nil, by simp⟩, by simp⟩ fun _ path c h =>
    everywhere_grown_place h path c

/-! ## Sorting -/

theorem sortedAll_eq_map (ps : List Package) : sortedAll ps = ps.map sorted := by
  induction ps with
  | nil => rw [sortedAll, List.map_nil]
  | cons p ps ih => rw [sortedAll, ih, List.map_cons]

theorem packages_sorted_perm (p : Package) : p.sorted.packages.Perm (p.packages.map sorted) := by
  rcases p with ⟨name, fullName, packages, classes⟩
  rw [sorted, sortedAll_eq_map]
  exact List.mergeSort_perm _ _

theorem name_sorted (p : Package) : p.sorted.name = p.name := by
  rcases p with ⟨name, fullName, packages, classes⟩
  rw [sorted]

theorem classes_sorted (p : Package) :
    p.sorted.classes = p.classes.mergeSort fun a b => decide (a.full ≤ b.full) := by
  rcases p with ⟨name, fullName, packages, classes⟩
  rw [sorted]

theorem names_sorted_perm (p : Package) :
    (p.sorted.packages.map (·.name)).Perm (p.packages.map (·.name)) := by
  have hperm := p.packages_sorted_perm.map (·.name)
  rwa [List.map_map, show (fun q : Package => q.name) ∘ sorted =
    (·.name) from funext name_sorted] at hperm

/-- The children of a sorted package are in the order of their names, which are different if they
were. -/
theorem names_sorted (p : Package) (h : p.Distinct) :
    (p.sorted.packages.map (·.name)).Pairwise (· < ·) := by
  have hsorted : (p.sorted.packages.map (·.name)).Pairwise (· ≤ ·) := by
    rcases p with ⟨name, fullName, packages, classes⟩
    rw [sorted, List.pairwise_map]
    refine (List.pairwise_mergeSort ?_ ?_ (sortedAll packages)).imp fun hab => by simpa using hab
    · intro a b c hab hbc
      simp only [decide_eq_true_eq] at *
      exact hab.trans hbc
    · intro a b
      simpa using le_total a.name b.name
  have hnodup : (p.sorted.packages.map (·.name)).Nodup := p.names_sorted_perm.nodup_iff.mpr h
  exact (hsorted.and hnodup).imp fun hab => lt_of_le_of_ne hab.1 hab.2

theorem child?_sorted {p : Package} (h : p.Distinct) (name : String) :
    p.sorted.child? name = (p.child? name).map sorted := by
  have hdistinct : p.sorted.Distinct := p.names_sorted_perm.nodup_iff.mpr h
  refine Option.ext fun q => ?_
  rw [child?_eq_some_iff hdistinct, Option.map_eq_some_iff, p.packages_sorted_perm.mem_iff,
    List.mem_map]
  constructor
  · rintro ⟨⟨r, hr, rfl⟩, rfl⟩
    exact ⟨r, (child?_eq_some_iff h).mpr ⟨hr, (name_sorted r).symm⟩, rfl⟩
  · rintro ⟨r, hr, rfl⟩
    obtain ⟨hmem, rfl⟩ := (child?_eq_some_iff h).mp hr
    exact ⟨⟨r, hmem, rfl⟩, name_sorted r⟩

/-- In a sorted tree, a path leads to the same package as before, which is sorted now. -/
theorem descend_sorted {root : Package} (h : Everywhere Distinct root) (path : List String) :
    descend path root.sorted = (descend path root).map sorted := by
  induction path generalizing root with
  | nil => rfl
  | cons name path ih =>
    rw [descend, descend, child?_sorted h.top]
    cases hq : root.child? name with
    | none => rfl
    | some q =>
      rw [Option.map_some, Option.bind_some, Option.bind_some]
      exact ih (h.children q ((child?_eq_some_iff h.top).mp hq).1)

mutual

theorem allClasses_sorted_perm : (p : Package) → p.sorted.allClasses.Perm p.allClasses
  | ⟨name, fullName, packages, classes⟩ => by
    have hpackages := allClassesIn_sortedAll_perm packages
    rw [allClassesIn_eq] at hpackages
    have hmoved :=
      (List.mergeSort_perm (sortedAll packages) fun a b => decide (a.name ≤ b.name)).flatMap_right
      allClasses
    rw [allClasses_eq, sorted, allClasses]
    exact (List.mergeSort_perm _ _).append (hmoved.trans hpackages)

theorem allClassesIn_sortedAll_perm :
    (ps : List Package) → (allClassesIn (sortedAll ps)).Perm (allClassesIn ps)
  | [] => by rw [sortedAll]
  | p :: ps => by
    rw [sortedAll, allClassesIn, allClassesIn]
    exact (allClasses_sorted_perm p).append (allClassesIn_sortedAll_perm ps)

end

theorem fullName_le_trans (a b c : ClassName) (hab : decide (a.full ≤ b.full) = true)
    (hbc : decide (b.full ≤ c.full) = true) : decide (a.full ≤ c.full) = true := by
  rw [decide_eq_true_eq] at *
  exact hab.trans hbc

theorem fullName_le_total (a b : ClassName) :
    (decide (a.full ≤ b.full) || decide (b.full ≤ a.full)) = true := by
  simpa using le_total a.full b.full

/-- Sorting leaves classes of the same name in their order. -/
theorem filter_classes_sorted (p : Package) (full : String) :
    p.sorted.classes.filter (·.full == full) = p.classes.filter (·.full == full) := by
  have hsame : (fun c : ClassName => decide (full ≤ c.full) && decide (c.full ≤ full)) = fun c =>
      c.full == full := by
    funext c
    rw [Bool.eq_iff_iff]
    simp only [Bool.and_eq_true, decide_eq_true_eq, beq_iff_eq]
    exact ⟨fun h => le_antisymm h.2 h.1, fun h => ⟨h.ge, h.le⟩⟩
  have htied := filter_mergeSort_tied fullName_le_trans fullName_le_total p.classes ⟨full, full⟩
  rw [hsame] at htied
  rw [classes_sorted, htied]

/-! ## The tree -/

/-- What holds of the packages of a sorted tree. -/
structure Settled (p : Package) : Prop where
  classes : p.classes.Pairwise fun a b => a.full ≤ b.full
  packages : (p.packages.map (·.name)).Pairwise (· < ·)
  occupied : ∀ q ∈ p.packages, q.allClasses ≠ []

theorem Grown.settled {p : Package} (h : p.Grown) : p.sorted.Settled where
  classes := by
    rw [classes_sorted]
    exact (List.pairwise_mergeSort fullName_le_trans fullName_le_total p.classes).imp
      fun hab => by simpa using hab
  packages := p.names_sorted h.1
  occupied q hq := by
    obtain ⟨r, hr, rfl⟩ := List.mem_map.mp (p.packages_sorted_perm.mem_iff.mp hq)
    intro hnil
    have hperm := allClasses_sorted_perm r
    rw [hnil] at hperm
    exact h.2 r hr hperm.symm.eq_nil

theorem everywhere_settled_sorted {root : Package} (h : Everywhere Grown root) :
    Everywhere Settled root.sorted := by
  induction h with
  | @intro p top _ ih =>
    refine ⟨top.settled, ?_⟩
    intro q hq
    obtain ⟨r, hr, rfl⟩ := List.mem_map.mp (p.packages_sorted_perm.mem_iff.mp hq)
    exact ih r hr

theorem Leads.occupied {path : List String} {root p : Package} (hp : Leads path root p)
    (h : Everywhere Settled root) (hpath : path ≠ []) : p.allClasses ≠ [] := by
  induction hp with
  | nil p => exact absurd rfl hpath
  | @cons path p q r hq hr ih =>
    cases hr with
    | nil q => exact h.top.occupied q hq
    | cons hq' hr' => exact ih (h.children q hq) (List.cons_ne_nil _ _)

section OfClasses

variable (classes : List ClassEntry)

theorem everywhere_settled_ofClasses : Everywhere Settled (ofClasses classes) :=
  everywhere_settled_sorted (everywhere_grown_grow classes)

theorem leads_ofClasses_iff {path : List String} {p : Package} :
    Leads path (ofClasses classes) p ↔ descend path (ofClasses classes) = some p :=
  leads_iff ((everywhere_settled_ofClasses classes).imp fun _ h => h.packages.imp fun hab => hab.ne)

theorem descend_ofClasses (path : List String) :
    descend path (ofClasses classes) = (descend path (grow classes)).map sorted :=
  descend_sorted ((everywhere_grown_grow classes).imp fun _ h => h.1) path

/-- The classes of a package are those whose package names lead to it. -/
theorem filter_classes_of_leads {path : List String} {p : Package}
    (hp : Leads path (ofClasses classes) p) (full : String) :
    p.classes.filter (·.full == full) =
      ((classes.filter (pathOf ·.packageName == path)).map (·.name)).filter (·.full == full) := by
  have hdescend := (leads_ofClasses_iff classes).mp hp
  rw [descend_ofClasses, Option.map_eq_some_iff] at hdescend
  obtain ⟨g, hg, rfl⟩ := hdescend
  rw [filter_classes_sorted, ← classesAt_grow, classesAt, hg]
  rfl

/-- A class is in the package that is found by its package name. -/
theorem exists_find_ofClasses {e : ClassEntry} (he : e ∈ classes) :
    ∃ p, (ofClasses classes).find e.packageName = some p ∧ e.name ∈ p.classes := by
  have hmem : e.name ∈ classesAt (pathOf e.packageName) (grow classes) := by
    rw [classesAt_grow]
    exact List.mem_map_of_mem (List.mem_filter.mpr ⟨he, by simp⟩)
  rw [find, descend_ofClasses]
  cases hg : descend (pathOf e.packageName) (grow classes) with
  | none => simp [classesAt, hg] at hmem
  | some g =>
    refine ⟨g.sorted, rfl, ?_⟩
    rw [classes_sorted, List.mem_mergeSort]
    simpa [classesAt, hg] using hmem

/-- Every list of classes is arranged in a tree of packages, whatever the names of the packages
are. -/
theorem isTreeOf_ofClasses : (ofClasses classes).IsTreeOf classes where
  all := (allClasses_sorted_perm _).trans (allClasses_grow classes)
  found e he := by
    obtain ⟨p, hfind, hmem⟩ := exists_find_ofClasses classes he
    exact ⟨p, (leads_ofClasses_iff classes).mpr hfind, hfind, hmem⟩
  classes path p hp :=
    ⟨((everywhere_settled_ofClasses classes).of_leads hp).classes,
      filter_classes_of_leads classes hp⟩
  packages path p hp := ((everywhere_settled_ofClasses classes).of_leads hp).packages
  occupied path p hp hpath := hp.occupied (everywhere_settled_ofClasses classes) hpath

end OfClasses

end ClassReference.Package
