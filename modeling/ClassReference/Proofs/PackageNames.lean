import ClassReference.Proofs.PackageTree
import ClassReference.Proofs.TextParts

/-!
# Proofs: the full names of packages

A package is named when it is made: its full name is that of its parent, a dot and its own name, and
only its own name if that of its parent is empty. The root has an empty name, but so has a package
that is made for a dot at the beginning of a package name. The full name of a package therefore
leaves out the empty names at the beginning of the way to it (`fullName_of_leads`), and finding it
by this name leads elsewhere. Where no package name begins with a dot, every package is found by its
full name (`fullNames_ofClasses`).
-/

namespace ClassReference.Package

open Text

/-! ## Dotted names -/

/-- Names with dots between them. -/
def dotted (path : List String) : String :=
  ".".intercalate path

theorem toList_dotted (path : List String) :
    (dotted path).toList = ['.'].intercalate (path.map String.toList) :=
  String.toList_intercalate

theorem not_mem_of_mem_pathOf {packageName name : String} (h : name ∈ pathOf packageName) :
    '.' ∉ name.toList := by
  unfold pathOf at h
  split at h
  · exact absurd h List.not_mem_nil
  · obtain ⟨segment, hsegment, rfl⟩ := List.mem_map.mp h
    rw [String.toList_ofList]
    exact not_mem_of_mem_segments hsegment

theorem dotted_pathOf (packageName : String) : dotted (pathOf packageName) = packageName := by
  unfold pathOf
  split
  · rename_i hempty
    rw [hempty]
    exact String.intercalate_nil
  · have hmap : (segments '.' packageName.toList).map (String.toList ∘ String.ofList) =
        segments '.' packageName.toList := by
      simp
    rw [← String.toList_inj, toList_dotted, List.map_map, hmap, segments_eq_splitOn,
      List.intercalate_splitOn]

/-- Names without dots are found again in the dotted name, unless there is only an empty one. -/
theorem pathOf_dotted {path : List String} (hdots : ∀ name ∈ path, '.' ∉ name.toList)
    (hpath : path ≠ [""]) : pathOf (dotted path) = path := by
  by_cases hnil : path = []
  · rw [hnil]
    rfl
  have hsegments : segments '.' (dotted path).toList = path.map String.toList := by
    rw [segments_eq_splitOn, toList_dotted]
    refine List.splitOn_intercalate '.' ?_ (by simpa using hnil)
    intro segment hsegment
    obtain ⟨name, hname, rfl⟩ := List.mem_map.mp hsegment
    exact hdots name hname
  have hne : dotted path ≠ "" := by
    intro hempty
    rw [hempty] at hsegments
    refine hpath (List.map_injective_iff.mpr (fun _ _ => String.toList_inj.mp) ?_)
    rw [← hsegments]
    rfl
  rw [pathOf, if_neg hne, hsegments, List.map_map]
  simp

/-- The way to a package begins with an empty name if the package name begins with a dot. -/
theorem head?_pathOf (packageName : String) :
    (pathOf packageName).head? = some "" ↔ packageName.toList.head? = some '.' := by
  have hdotted := dotted_pathOf packageName
  cases hpath : pathOf packageName with
  | nil =>
    rw [hpath] at hdotted
    rw [← hdotted]
    simp [dotted]
  | cons name path =>
    have hdots : '.' ∉ name.toList :=
      not_mem_of_mem_pathOf (by rw [hpath]; exact List.mem_cons_self)
    rw [hpath] at hdotted
    rw [List.head?_cons, Option.some.injEq]
    cases path with
    | nil =>
      -- a single name is the package name, which is not empty
      replace hdotted : name = packageName := hdotted.symm ▸ String.intercalate_singleton.symm
      subst hdotted
      constructor
      · rintro rfl
        cases hpath
      · intro hhead
        exact absurd (List.mem_of_mem_head? hhead) hdots
    | cons next path =>
      have hlist : packageName.toList = name.toList ++ '.' :: (dotted (next :: path)).toList := by
        rw [← hdotted, dotted, String.intercalate_cons_cons]
        simp [dotted]
      rw [hlist]
      cases hname : name.toList with
      | nil =>
        rw [String.toList_eq_nil_iff] at hname
        simp [hname]
      | cons c cs =>
        have hc : c ≠ '.' := by
          rintro rfl
          exact hdots (by rw [hname]; exact List.mem_cons_self)
        have hne : name ≠ "" := by
          rintro rfl
          cases hname
        simp [hc, hne]

/-! ## How packages are named -/

/-- The children of a package have the full names that they were given when they were made. -/
def NamesChildren (p : Package) : Prop :=
  ∀ q ∈ p.packages, q.fullName = (p.newChild q.name).fullName

theorem fullName_modifyAt {f : Package → Package} (hf : ∀ p, (f p).fullName = p.fullName)
    (path : List String) (p : Package) : (modifyAt f path p).fullName = p.fullName := by
  cases path with
  | nil => exact hf p
  | cons name path => rfl

theorem everywhere_namesChildren_place {root : Package} (h : Everywhere NamesChildren root)
    (path : List String) (c : ClassName) : Everywhere NamesChildren (root.place path c) := by
  unfold place
  induction path generalizing root with
  | nil => exact ⟨h.top, h.children⟩
  | cons name path ih =>
    have hname := name_modifyAt (f := addClass c) (fun _ => rfl) path
    have hfull := fullName_modifyAt (f := addClass c) (fun _ => rfl) path
    have hfresh : Everywhere NamesChildren (root.newChild name) :=
      ⟨by simp [NamesChildren, newChild], by simp [newChild]⟩
    refine ⟨fun q hq => ?_, fun q hq => ?_⟩
    · show q.fullName = (root.newChild q.name).fullName
      rcases mem_modifyNamed hq with hq | ⟨p, hp, rfl⟩
      · exact h.top q hq
      · rw [hname, hfull]
        rcases List.mem_cons.mp hp with rfl | hp
        · rfl
        · exact h.top p hp
    · rcases mem_modifyNamed hq with hq | ⟨p, hp, rfl⟩
      · exact h.children q hq
      · rcases List.mem_cons.mp hp with rfl | hp
        · exact ih hfresh
        · exact ih (h.children p hp)

theorem fullName_sorted (p : Package) : p.sorted.fullName = p.fullName := by
  rcases p with ⟨name, fullName, packages, classes⟩
  rw [sorted]

theorem everywhere_namesChildren_sorted {root : Package} (h : Everywhere NamesChildren root) :
    Everywhere NamesChildren root.sorted := by
  induction h with
  | @intro p top _ ih =>
    have hchild : ∀ q ∈ p.sorted.packages, ∃ r ∈ p.packages, r.sorted = q :=
      fun q hq => List.mem_map.mp (p.packages_sorted_perm.mem_iff.mp hq)
    refine ⟨fun q hq => ?_, fun q hq => ?_⟩
    · obtain ⟨r, hr, rfl⟩ := hchild q hq
      rw [fullName_sorted, name_sorted, top r hr]
      simp only [newChild, fullName_sorted]
    · obtain ⟨r, hr, rfl⟩ := hchild q hq
      exact ih r hr

theorem everywhere_namesChildren_ofClasses (classes : List ClassEntry) :
    Everywhere NamesChildren (ofClasses classes) :=
  everywhere_namesChildren_sorted (grow_induction classes ⟨by simp [NamesChildren], by simp⟩
    fun _ path c h => everywhere_namesChildren_place h path c)

theorem fullName_ofClasses (classes : List ClassEntry) : (ofClasses classes).fullName = "" := by
  have hgrow : (grow classes).fullName = "" := by
    refine grow_induction (P := fun root => root.fullName = "") classes rfl ?_
    intro root path c h
    rw [place, fullName_modifyAt (f := addClass c) (fun _ => rfl), h]
  exact (fullName_sorted _).trans hgrow

/-- Below a package with a name, a full name is made up of this name and the names on the way. -/
theorem fullName_of_leads_of_ne {root p : Package} {path : List String}
    (h : Everywhere NamesChildren root) (hp : Leads path root p) (hroot : root.fullName ≠ "") :
    p.fullName = dotted (root.fullName :: path) := by
  induction hp with
  | nil p => exact String.intercalate_singleton.symm
  | @cons path root q p hq hp ih =>
    have hqfull : q.fullName = root.fullName ++ "." ++ q.name := by
      rw [h.top q hq, newChild, if_neg hroot]
    have hne : q.fullName ≠ "" := by
      rw [hqfull]
      simp
    rw [ih (h.children q hq) hne, hqfull, dotted, String.intercalate_cons_append, dotted,
      String.intercalate_cons_cons]

/-- Below a package without a name, a full name is made up of the names on the way from the first
one that is not empty. -/
theorem fullName_of_leads {root p : Package} {path : List String}
    (h : Everywhere NamesChildren root) (hp : Leads path root p) (hroot : root.fullName = "") :
    p.fullName = dotted (path.dropWhile (· == "")) := by
  induction hp with
  | nil p => exact hroot
  | @cons path root q p hq hp ih =>
    have hqfull : q.fullName = q.name := by
      rw [h.top q hq, newChild, if_pos hroot]
    by_cases hempty : q.name = ""
    · rw [ih (h.children q hq) (hqfull.trans hempty), hempty]
      rfl
    · rw [fullName_of_leads_of_ne (h.children q hq) hp (by rwa [hqfull]), hqfull,
        List.dropWhile_cons_of_neg (by simpa)]

/-! ## Ways through the tree -/

theorem Leads.append {path rest : List String} {root p q : Package} (hp : Leads path root p)
    (hq : Leads rest p q) : Leads (path ++ rest) root q := by
  induction hp with
  | nil p => exact hq
  | cons hmem _ ih => exact .cons hmem (ih hq)

theorem exists_leads_of_mem_allClasses {P : Package → Prop} {p : Package} (h : Everywhere P p)
    {c : ClassName} (hc : c ∈ p.allClasses) : ∃ rest q, Leads rest p q ∧ c ∈ q.classes := by
  induction h with
  | @intro p _ _ ih =>
    rw [allClasses_eq, List.mem_append] at hc
    rcases hc with hc | hc
    · exact ⟨[], p, .nil p, hc⟩
    · obtain ⟨q, hq, hc⟩ := List.mem_flatMap.mp hc
      obtain ⟨rest, r, hr, hc⟩ := ih q hq hc
      exact ⟨_, r, .cons hq hr, hc⟩

section OfClasses

variable {classes : List ClassEntry} {path path' : List String} {p p' : Package}

theorem exists_class_of_mem {c : ClassName} (hp : Leads path (ofClasses classes) p)
    (hc : c ∈ p.classes) : ∃ e ∈ classes, e.name = c ∧ pathOf e.packageName = path := by
  have hmem : c ∈ p.classes.filter (·.full == c.full) := List.mem_filter.mpr ⟨hc, by simp⟩
  rw [filter_classes_of_leads classes hp] at hmem
  obtain ⟨e, he, rfl⟩ := List.mem_map.mp (List.mem_filter.mp hmem).1
  obtain ⟨he, hpath⟩ := List.mem_filter.mp he
  exact ⟨e, he, rfl, by simpa using hpath⟩

/-- A package below the root is on the way to a class. -/
theorem exists_class_below (hp : Leads path (ofClasses classes) p) (hpath : path ≠ []) :
    ∃ rest q c, Leads rest p q ∧ c ∈ q.classes := by
  have hsettled := everywhere_settled_ofClasses classes
  obtain ⟨c, hc⟩ := List.exists_mem_of_ne_nil _ (hp.occupied hsettled hpath)
  obtain ⟨rest, q, hq, hc⟩ := exists_leads_of_mem_allClasses (hsettled.further hp) hc
  exact ⟨rest, q, c, hq, hc⟩

/-- A package below the root is on the way to the package of a class. -/
theorem exists_prefix_of_leads (hp : Leads path (ofClasses classes) p) (hpath : path ≠ []) :
    ∃ e ∈ classes, ∃ rest, pathOf e.packageName = path ++ rest := by
  obtain ⟨rest, q, c, hq, hc⟩ := exists_class_below hp hpath
  obtain ⟨e, he, -, hway⟩ := exists_class_of_mem (hp.append hq) hc
  exact ⟨e, he, rest, hway⟩

theorem Leads.no_dots (hp : Leads path (ofClasses classes) p) :
    ∀ name ∈ path, '.' ∉ name.toList := by
  intro name hname
  obtain ⟨e, -, rest, hway⟩ := exists_prefix_of_leads hp (List.ne_nil_of_mem hname)
  have hmem : name ∈ pathOf e.packageName := by
    rw [hway]
    exact List.mem_append_left _ hname
  exact not_mem_of_mem_pathOf hmem

theorem fullName_of_leads_ofClasses (hp : Leads path (ofClasses classes) p) :
    p.fullName = dotted (path.dropWhile (· == "")) :=
  fullName_of_leads (everywhere_namesChildren_ofClasses classes) hp (fullName_ofClasses classes)

theorem dropWhile_ne_singleton (path : List String) : path.dropWhile (· == "") ≠ [""] := by
  intro h
  have hhead := List.head?_dropWhile_not (· == "") path
  simp [h] at hhead

theorem dropWhile_eq_self_iff {path : List String} :
    path.dropWhile (· == "") = path ↔ path.head? ≠ some "" := by
  rw [List.dropWhile_eq_self_iff]
  cases path with
  | nil => simp
  | cons name path => simp

theorem pathOf_fullName (hp : Leads path (ofClasses classes) p) :
    pathOf p.fullName = path.dropWhile (· == "") := by
  rw [fullName_of_leads_ofClasses hp]
  refine pathOf_dotted ?_ (dropWhile_ne_singleton path)
  intro name hname
  exact hp.no_dots name ((List.dropWhile_suffix _).subset hname)

/-- By its full name, one finds the package to which the rest of the way to it leads from the
root. -/
theorem find_fullName_iff (hp : Leads path (ofClasses classes) p) :
    (ofClasses classes).find p.fullName = some p' ↔
      Leads (path.dropWhile (· == "")) (ofClasses classes) p' := by
  rw [find, pathOf_fullName hp, leads_ofClasses_iff]

theorem fullName_eq_iff (hp : Leads path (ofClasses classes) p)
    (hp' : Leads path' (ofClasses classes) p') :
    p.fullName = p'.fullName ↔ path.dropWhile (· == "") = path'.dropWhile (· == "") := by
  constructor
  · intro h
    rw [← pathOf_fullName hp, ← pathOf_fullName hp', h]
  · intro h
    rw [fullName_of_leads_ofClasses hp, fullName_of_leads_ofClasses hp', h]

/-- If the packages of classes are part of their names, no package is in two places of the tree:
each one below the root holds a class or leads to one, and the name of the class says where the
package is. -/
theorem Leads.unique (hpackage : ∀ e ∈ classes, e.packageName = ClassName.packageOf e.name.full)
    (hp : Leads path (ofClasses classes) p) (hp' : Leads path' (ofClasses classes) p) :
    path = path' := by
  by_cases hroot : path = [] ∧ path' = []
  · rw [hroot.1, hroot.2]
  obtain ⟨rest, q, c, hq, hc⟩ : ∃ rest q c, Leads rest p q ∧ c ∈ q.classes := by
    by_cases hpath : path = []
    · exact exists_class_below hp' fun h => hroot ⟨hpath, h⟩
    · exact exists_class_below hp hpath
  have hplace : ∀ {way}, Leads way (ofClasses classes) p →
      pathOf (ClassName.packageOf c.full) = way ++ rest := by
    intro way hway
    obtain ⟨e, he, rfl, hpath⟩ := exists_class_of_mem (hway.append hq) hc
    rw [← hpackage e he, hpath]
  exact List.append_cancel_right ((hplace hp).symm.trans (hplace hp'))

/-- Every package is found by its full name, this is made up of the names on the way to it, and no
other package has it. -/
structure NamedByPath (root : Package) : Prop where
  found : ∀ path p, Leads path root p → root.find p.fullName = some p
  joined : ∀ path p, Leads path root p → p.fullName = dotted path
  distinct : ∀ path p path' p', Leads path root p → Leads path' root p' → p.fullName = p'.fullName →
    path = path'

theorem head?_ne_of_leads (hdots : ∀ e ∈ classes, e.packageName.toList.head? ≠ some '.')
    (hp : Leads path (ofClasses classes) p) : path.head? ≠ some "" := by
  intro hhead
  obtain ⟨e, he, rest, hway⟩ :=
    exists_prefix_of_leads hp (List.ne_nil_of_mem (List.mem_of_mem_head? hhead))
  refine hdots e he ((head?_pathOf e.packageName).mp ?_)
  rw [hway]
  exact List.mem_head?_append_of_mem_head? hhead

theorem namedByPath_ofClasses (hdots : ∀ e ∈ classes, e.packageName.toList.head? ≠ some '.') :
    NamedByPath (ofClasses classes) := by
  have hway : ∀ {path p}, Leads path (ofClasses classes) p → path.dropWhile (· == "") = path :=
    fun hp => dropWhile_eq_self_iff.mpr (head?_ne_of_leads hdots hp)
  refine ⟨fun path p hp => ?_, fun path p hp => ?_, fun path p path' p' hp hp' h => ?_⟩
  · rw [find_fullName_iff hp, hway hp]
    exact hp
  · rw [fullName_of_leads_ofClasses hp, hway hp]
  · rwa [fullName_eq_iff hp hp', hway hp, hway hp'] at h

/-- The full name of a package is made up of the names on the way to it without the empty ones at
the beginning. Where package names are part of class names, a package is found by its full name
exactly if there is no such empty name. So all packages are, unless the package name of some class
begins with a dot. -/
theorem fullNames_ofClasses (classes : List ClassEntry)
    (hpackage : ∀ e ∈ classes, e.packageName = ClassName.packageOf e.name.full) :
    (∀ path p, Leads path (ofClasses classes) p → p.fullName = dotted (path.dropWhile (· == "")) ∧
      ((ofClasses classes).find p.fullName = some p ↔ path.head? ≠ some "")) ∧
    (∀ path p path' p', Leads path (ofClasses classes) p → Leads path' (ofClasses classes) p' →
      (p.fullName = p'.fullName ↔ path.dropWhile (· == "") = path'.dropWhile (· == ""))) ∧
    (NamedByPath (ofClasses classes) ↔ ∀ e ∈ classes, e.packageName.toList.head? ≠ some '.') := by
  have hfound : ∀ {path p}, Leads path (ofClasses classes) p →
      ((ofClasses classes).find p.fullName = some p ↔ path.head? ≠ some "") := by
    intro path p hp
    rw [find_fullName_iff hp, ← dropWhile_eq_self_iff]
    constructor
    · intro hp'
      exact hp'.unique hpackage hp
    · intro hway
      rwa [hway]
  refine ⟨fun path p hp => ⟨fullName_of_leads_ofClasses hp, hfound hp⟩,
    fun path p path' p' hp hp' => fullName_eq_iff hp hp', fun hnamed e he hhead =>
    ?_, namedByPath_ofClasses⟩
  obtain ⟨p, hfind, -⟩ := exists_find_ofClasses classes he
  have hp := (leads_ofClasses_iff classes).mpr hfind
  exact (hfound hp).mp (hnamed.found _ p hp) ((head?_pathOf e.packageName).mpr hhead)

end OfClasses

/-! ## Dots in class names -/

/-- A class with this full name, and nothing else said about it. -/
def classNamed (full : String) : ClassEntry :=
  { name := .ofFull full, packageName := ClassName.packageOf full }

theorem packageName_of_classNamed (names : List String) :
    ∀ e ∈ names.map classNamed, e.packageName = ClassName.packageOf e.name.full := by
  intro e he
  obtain ⟨full, -, rfl⟩ := List.mem_map.mp he
  rfl

/-- Classes with two dots in a row and a dot at the end. -/
def doubledDots : List ClassEntry :=
  ["a..b.A", "a.B."].map classNamed

theorem doubledDots_named :
    (∀ e ∈ doubledDots, e.packageName = ClassName.packageOf e.name.full) ∧
    NamedByPath (ofClasses doubledDots) := by
  have hpackage := packageName_of_classNamed ["a..b.A", "a.B."]
  refine ⟨hpackage, (fullNames_ofClasses doubledDots hpackage).2.2.mpr ?_⟩
  simp only [doubledDots, List.map_cons, List.map_nil, List.forall_mem_cons]
  exact ⟨by decide, by decide, by simp⟩

/-- A class whose name begins with a dot, in a package `p` below the package that is made for this
dot, and a class in a package `p` of its own. -/
def dottedStart : List ClassEntry :=
  [".p.A", "p.B"].map classNamed

/-- Both packages have the full name `p`, by which only one of them is found. -/
theorem dottedStart_misnamed :
    ∃ p q, Leads ["", "p"] (ofClasses dottedStart) p ∧ Leads ["p"] (ofClasses dottedStart) q ∧
      p ≠ q ∧
      p.fullName = "p" ∧ q.fullName = "p" ∧ dotted ["", "p"] = ".p" ∧
      (ofClasses dottedStart).find "p" = some q ∧ (ofClasses dottedStart).find ".p" = some p ∧
      ¬ NamedByPath (ofClasses dottedStart) := by
  have hpackage := packageName_of_classNamed [".p.A", "p.B"]
  obtain ⟨p, hp, -⟩ :=
    exists_find_ofClasses dottedStart (e := classNamed ".p.A") (by simp [dottedStart])
  obtain ⟨q, hq, -⟩ :=
    exists_find_ofClasses dottedStart (e := classNamed "p.B") (by simp [dottedStart])
  rw [show (classNamed ".p.A").packageName = ".p" by decide] at hp
  rw [show (classNamed "p.B").packageName = "p" by decide] at hq
  have hleadsP : Leads ["", "p"] (ofClasses dottedStart) p :=
    (leads_ofClasses_iff dottedStart).mpr hp
  have hleadsQ : Leads ["p"] (ofClasses dottedStart) q := (leads_ofClasses_iff dottedStart).mpr hq
  have hne : p ≠ q := by
    rintro rfl
    exact absurd (hleadsP.unique hpackage hleadsQ) (by decide)
  have hfullP : p.fullName = "p" := fullName_of_leads_ofClasses hleadsP
  have hfullQ : q.fullName = "p" := fullName_of_leads_ofClasses hleadsQ
  refine ⟨p, q, hleadsP, hleadsQ, hne, hfullP, hfullQ, rfl, hq, hp, fun hnamed => ?_⟩
  exact absurd (hnamed.distinct _ _ _ _ hleadsP hleadsQ (hfullP.trans hfullQ.symm)) (by decide)

end ClassReference.Package
