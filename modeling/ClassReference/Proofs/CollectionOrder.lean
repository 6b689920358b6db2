import ClassReference.Proofs.Building

/-!
# Proofs: the order of collection

Building a model depends on the order in which entities were collected only as far as they compete
with each other: class definitions of the same name, and members of the same kind, owner and simple
name. Catalogues that differ in no more than the order of other entities (`Catalog.Rearranged`) give
the same model or the same cycle.
-/

namespace ClassReference

/-- Two lists hold the same elements, and elements with the same key stand in the same order in
both. -/
structure Rearranged {α κ : Type} [BEq κ] (key : α → κ) (l l' : List α) : Prop where
  /-- The elements are the same. -/
  perm : l.Perm l'
  /-- Those with the same key stand in the same order. -/
  filter_eq : ∀ k, l.filter (key · == k) = l'.filter (key · == k)

/-- Two catalogues differ only in the order of entities that do not compete with each other. -/
structure Catalog.Rearranged (c c' : Catalog) : Prop where
  /-- Definitions of the same class stand in the same order. -/
  classes : ClassReference.Rearranged (fun e : ClassEntry => e.name.full) c.classes c'.classes
  /-- Members of the same kind, owner and simple name stand in the same order. -/
  members : ∀ k, ClassReference.Rearranged (fun m : Member k.Detail => (m.owner.full, m.simpleName))
    (c.members.ofKind k) (c'.members.ofKind k)

/-! ## Members -/

namespace Member

variable {α : Type}

theorem overriddenBy_filter (m : Member α) (present : List (Member α)) :
    m.overriddenBy (present.filter (·.simpleName == m.simpleName)) = m.overriddenBy present := by
  have hsame : ∀ o : Member α,
      (o.simpleName == m.simpleName && (o.name != "" && o.simpleName == m.simpleName)) =
      (o.name != "" && o.simpleName == m.simpleName) := by
    intro o
    cases o.simpleName == m.simpleName <;> simp
  simp only [overriddenBy, List.any_filter, hsame]

/-- Members with one simple name are inherited independently of all others. -/
theorem filter_inherit (present declared : List (Member α)) (s : String) :
    (inherit present declared).filter (·.simpleName == s) =
      inherit (present.filter (·.simpleName == s)) (declared.filter (·.simpleName == s)) := by
  induction declared generalizing present with
  | nil => rfl
  | cons m declared ih =>
    have hcons : ∀ acc : List (Member α), inherit acc (m :: declared) =
        inherit (if m.static || m.overriddenBy acc then acc else acc ++ [m]) declared :=
        fun _ => rfl
    rw [hcons, ih]
    by_cases hm : m.simpleName = s
    · subst hm
      have hskip := overriddenBy_filter m present
      rw [List.filter_cons_of_pos (by simp)]
      unfold inherit
      rw [List.foldl_cons, hskip]
      split
      · rfl
      · rw [List.filter_append, List.filter_cons_of_pos (by simp), List.filter_nil]
    · have hdrop : ∀ l, (m :: l).filter (·.simpleName == s) = l.filter (·.simpleName == s) :=
        fun _ => List.filter_cons_of_neg (by simpa using hm)
      rw [hdrop]
      split
      · rfl
      · rw [List.filter_append, hdrop, List.filter_nil, List.append_nil]

theorem filter_gather (ms : List (Member α)) (own : String) (ancestors : List String) (s : String) :
    (gather ms own ancestors).filter (·.simpleName == s) =
      gather (ms.filter (·.simpleName == s)) own ancestors := by
  have hcomm : ∀ a, (ms.filter (·.owner.full == a)).filter (·.simpleName == s) =
      (ms.filter (·.simpleName == s)).filter (·.owner.full == a) := by
    intro a
    rw [List.filter_filter, List.filter_filter]
    simp only [Bool.and_comm]
  have hfold : ∀ acc : List (Member α),
      (ancestors.foldl (fun acc a => inherit acc (ms.filter (·.owner.full == a))) acc).filter
          (·.simpleName == s) =
        ancestors.foldl
          (fun acc a => inherit acc ((ms.filter (·.simpleName == s)).filter (·.owner.full == a)))
          (acc.filter (·.simpleName == s)) := by
    induction ancestors with
    | nil => intro acc; rfl
    | cons a ancestors ih =>
      intro acc
      rw [List.foldl_cons, ih, filter_inherit, hcomm, List.foldl_cons]
  rw [gather, hfold, hcomm, gather]

variable {ms ms' : List (Member α)}

/-- The gathered members of one simple name are the same if those of each owner are collected in the
same order. -/
theorem filter_gather_congr
    (h : ∀ a s, ms.filter (fun m => m.owner.full == a && m.simpleName == s) =
      ms'.filter fun m => m.owner.full == a && m.simpleName == s)
    (own : String) (ancestors : List String) (s : String) :
    (gather ms own ancestors).filter (·.simpleName == s) =
      (gather ms' own ancestors).filter (·.simpleName == s) := by
  have howner : ∀ a, (ms.filter (·.simpleName == s)).filter (·.owner.full == a) =
      (ms'.filter (·.simpleName == s)).filter (·.owner.full == a) := by
    intro a
    rw [List.filter_filter, List.filter_filter]
    exact h a s
  rw [filter_gather, filter_gather]
  unfold gather
  simp only [howner]

/-- The listed members are the same if members of the same owner and simple name are collected in
the same order. -/
theorem listed_gather_congr
    (h : ∀ a s, ms.filter (fun m => m.owner.full == a && m.simpleName == s) =
      ms'.filter fun m => m.owner.full == a && m.simpleName == s)
    (own : String) (ancestors : List String) :
    listed (gather ms own ancestors) = listed (gather ms' own ancestors) := by
  unfold listed
  refine mergeSort_congr_tied listedBefore_trans listedBefore_total ?_
  intro m
  -- members that are tied with `m` have the name of `m`, and so its simple name
  have htied : ∀ l : List (Member α),
      (l.filter (!·.hidden)).filter (fun x => m.listedBefore x && x.listedBefore m) =
        (l.filter (·.simpleName == m.simpleName)).filter fun x =>
          (m.listedBefore x && x.listedBefore m) && !x.hidden := by
    intro l
    rw [List.filter_filter, List.filter_filter]
    refine List.filter_congr ?_
    intro x _
    by_cases hx : m.listedBefore x = true ∧ x.listedBefore m = true
    · have hname := (tied_iff.mp hx).1
      have hsimple : x.simpleName = m.simpleName := by unfold simpleName; rw [hname]
      simp [hsimple]
    · have hx' : (m.listedBefore x && x.listedBefore m) = false := by
        rw [← Bool.not_eq_true, Bool.and_eq_true]
        exact hx
      simp [hx']
  rw [htied, htied, filter_gather_congr h]

end Member

namespace Hierarchy

/-! ## Classes -/

/-- An arena is determined by the classes that it arranges. -/
theorem Arranges.unique {defs : String → Option ClassEntry} {arena arena' : List ClassEntry}
    (h : Arranges defs arena) (h' : Arranges defs arena') : arena = arena' := by
  have hperm : arena.Perm arena' := by
    rw [List.perm_ext_iff_of_nodup h.nodup h'.nodup]
    intro e
    constructor
    · intro he
      exact ((h'.find_iff e.name.full e).mp ((h.find_iff e.name.full e).mpr ⟨he, rfl⟩)).1
    · intro he
      exact ((h.find_iff e.name.full e).mp ((h'.find_iff e.name.full e).mpr ⟨he, rfl⟩)).1
  refine hperm.eq_of_pairwise ?_ h.sorted h'.sorted
  intro a b _ _ hab hba
  exact absurd (hab.trans hba) (lt_irrefl _)

/-- Which definition of a name is selected depends on the order of its definitions only. -/
theorem definitionOf_congr {rules : Rules} {classes classes' : List ClassEntry}
    (h : ∀ full, classes.filter (·.name.full == full) = classes'.filter (·.name.full == full)) :
    definitionOf rules classes = definitionOf rules classes' := by
  have hfind : ∀ (l : List ClassEntry) (full : String) (p : ClassEntry → Bool),
      l.find? (fun e => e.name.full == full && p e) = (l.filter (·.name.full == full)).find? p := by
    intro l full p
    rw [List.find?_filter]
    refine congrArg (l.find? ·) (funext fun e => ?_)
    by_cases he : e.name.full = full <;> simp [he]
  funext full
  have hany : ∀ l : List ClassEntry, l.find? (·.name.full == full) =
      l.find? fun e => e.name.full == full && true := by simp
  unfold definitionOf
  rw [hany classes, hany classes', hfind, hfind, hfind, hfind, h full]

theorem arenaOf_congr {rules : Rules} {classes classes' : List ClassEntry}
    (h : ∀ full, classes.filter (·.name.full == full) = classes'.filter (·.name.full == full)) :
    arenaOf rules classes = arenaOf rules classes' := by
  have harena' := arranges_arenaOf rules classes'
  rw [← definitionOf_congr h] at harena'
  exact (arranges_arenaOf rules classes).unique harena'

/-! ## Settling -/

section Settling

variable {rules : Rules} {arena : List ClassEntry} {ms ms' : Members}

/-- The walk along the parents does not look at members. -/
theorem ancestors_link_congr (ms ms' : Members) (i : Nat) :
    ancestors (link arena ms) i = ancestors (link arena ms') i := by
  have hparent : parentAt (link arena ms) = parentAt (link arena ms') := by
    funext j
    rw [parentAt_link, parentAt_link]
  have hlen : (link arena ms).length = (link arena ms').length := by simp [link]
  have hnames : namesAt (link arena ms) = namesAt (link arena ms') := by
    funext positions
    rw [namesAt_link, namesAt_link]
  unfold ancestors
  rw [hparent, hlen, hnames]

/-- The same classes are settled, or the same cycle is met, if each class has the same members in
the end. -/
theorem settleFrom_congr (h : ∀ d l, settled rules arena ms d l = settled rules arena ms' d l)
    (i : Nat) (es : List ClassEntry) :
    (settleFrom rules (link arena ms) i (es.map (linkEntry arena ms))).2 =
      (settleFrom rules (link arena ms') i (es.map (linkEntry arena ms'))).2 ∧
    ((settleFrom rules (link arena ms) i (es.map (linkEntry arena ms))).2 = none →
      (settleFrom rules (link arena ms) i (es.map (linkEntry arena ms))).1 =
        (settleFrom rules (link arena ms') i (es.map (linkEntry arena ms'))).1) := by
  induction es generalizing i with
  | nil => exact ⟨rfl, fun _ => rfl⟩
  | cons e es ih =>
    have hentry : settleEntry rules (link arena ms) i (linkEntry arena ms e) =
        settleEntry rules (link arena ms') i (linkEntry arena ms' e) := by
      rw [settleEntry_link, settleEntry_link, ancestors_link_congr ms ms' i]
      simp only [h]
    simp only [List.map_cons, settleFrom, hentry]
    cases settleEntry rules (link arena ms') i (linkEntry arena ms' e) with
    | error cycle => exact ⟨rfl, fun hnone => by cases hnone⟩
    | ok s =>
      obtain ⟨hcycle, hout⟩ := ih (i + 1)
      exact ⟨hcycle, fun hnone => congrArg (s :: ·) (hout hnone)⟩

end Settling

/-- Resolution results in the same classes or the same cycle, whatever the order of entities that do
not compete. -/
theorem resolve_outcome_congr (rules : Rules) {c c' : Catalog} (h : c.Rearranged c') :
    (resolve rules c).value.outcome = (resolve rules c').value.outcome := by
  have harena : arenaOf rules c.classes = arenaOf rules c'.classes :=
    arenaOf_congr h.classes.filter_eq
  have hsettled : ∀ d l, settled rules (arenaOf rules c'.classes) c.members d l =
      settled rules (arenaOf rules c'.classes) c'.members d l := by
    intro d l
    have hmembers : (c.members.gather d.name.full (l.map (·.name.full))).listed =
        (c'.members.gather d.name.full (l.map (·.name.full))).listed := by
      refine Members.ext_ofKind fun k => ?_
      rw [Members.ofKind_listed, Members.ofKind_listed, Members.ofKind_gather,
        Members.ofKind_gather]
      exact Member.listed_gather_congr (fun a s => (h.members k).filter_eq (a, s)) _ _
    unfold settled
    rw [hmembers]
  have hall : (settleAll rules c).2 = (settleAll rules c').2 ∧
      ((settleAll rules c).2 = none → (settleAll rules c).1 = (settleAll rules c').1) := by
    unfold settleAll
    rw [harena]
    exact settleFrom_congr hsettled 0 (arenaOf rules c'.classes)
  rw [resolve_outcome, resolve_outcome]
  rcases hs : settleAll rules c with ⟨out, cycle⟩
  rcases hs' : settleAll rules c' with ⟨out', cycle'⟩
  rw [hs, hs'] at hall
  obtain ⟨rfl, hout⟩ := hall
  cases cycle with
  | some cycle => rfl
  | none =>
    obtain rfl : out = out' := hout rfl
    rfl

end Hierarchy

/-! ## Files -/

section Files

variable {α β κ : Type} {files files' : List β}

/-- The order of contributions does not matter if no two of them have something in them. -/
theorem flatMap_eq_of_perm {g : β → List α} (h : files.Perm files')
    (halone : files.Pairwise fun a b => g a = [] ∨ g b = []) :
    files.flatMap g = files'.flatMap g := by
  induction h with
  | nil => rfl
  | cons x _ ih => rw [List.flatMap_cons, List.flatMap_cons, ih halone.tail]
  | swap x y l =>
    simp only [List.flatMap_cons]
    rcases List.rel_of_pairwise_cons halone List.mem_cons_self with hy | hx
    · simp [hy]
    · simp [hx]
  | trans h1 _ ih1 ih2 =>
    exact (ih1 halone).trans (ih2 ((h1.pairwise_iff fun hab => hab.symm).mp halone))

/-- Contributions without common keys may come in any order. -/
theorem Rearranged.append_flatMap [BEq κ] [LawfulBEq κ] {key : α → κ} {g : β → List α}
    (first : List α) (h : files.Perm files')
    (hapart : files.Pairwise fun a b => ∀ x ∈ g a, ∀ y ∈ g b, key x ≠ key y) :
    Rearranged key (first ++ files.flatMap g) (first ++ files'.flatMap g) where
  perm := (h.flatMap_right g).append_left first
  filter_eq k := by
    rw [List.filter_append, List.filter_append, List.filter_flatMap, List.filter_flatMap]
    refine congrArg (first.filter (key · == k) ++ ·) (flatMap_eq_of_perm h (hapart.imp ?_))
    intro a b hab
    by_contra hboth
    rw [not_or] at hboth
    -- an element on either side with the key `k`
    obtain ⟨x, hx⟩ := List.exists_mem_of_ne_nil _ hboth.1
    obtain ⟨y, hy⟩ := List.exists_mem_of_ne_nil _ hboth.2
    rw [List.mem_filter, beq_iff_eq] at hx hy
    exact hab x hx.1 y hy.1 (hx.2.trans hy.2.symm)

end Files

/-- No entity of one catalogue competes with one of the other. -/
structure Catalog.Apart (c c' : Catalog) : Prop where
  /-- No class is defined in both. -/
  classes : ∀ d ∈ c.classes, ∀ e ∈ c'.classes, d.name.full ≠ e.name.full
  /-- No two members have the same kind, owner and simple name. -/
  members : ∀ k, ∀ m ∈ c.members.ofKind k, ∀ n ∈ c'.members.ofKind k,
    (m.owner.full, m.simpleName) ≠ (n.owner.full, n.simpleName)

theorem Members.ofKind_append (a b : Members) (k : MemberKind) :
    (a ++ b).ofKind k = a.ofKind k ++ b.ofKind k := by
  cases k <;> rfl

namespace Session

/-- The entities that a file contributes. The file is given by its comments and its name. -/
def contribution (s : Session) (file : List Comment × String) : Catalog :=
  (s.classifier.catalog file.1 file.2).value

/-- Collects the entities of files in order. -/
def addFiles (s : Session) (files : List (List Comment × String)) : Session :=
  files.foldl (fun s file => (s.addComments file.1 file.2).value.1) s

theorem addFiles_cons (s : Session) (file : List Comment × String)
    (files : List (List Comment × String)) :
    s.addFiles (file :: files) = (s.add (s.contribution file)).addFiles files := rfl

theorem rules_addFiles (s : Session) (files : List (List Comment × String)) :
    (s.addFiles files).rules = s.rules := by
  induction files generalizing s with
  | nil => rfl
  | cons file files ih => rw [addFiles_cons, ih]; rfl

theorem classes_addFiles (s : Session) (files : List (List Comment × String)) :
    (s.addFiles files).catalog.classes =
      s.catalog.classes ++ files.flatMap fun file => (s.contribution file).classes := by
  induction files generalizing s with
  | nil => simp [addFiles]
  | cons file files ih =>
    rw [addFiles_cons, ih, List.flatMap_cons, ← List.append_assoc]
    rfl

theorem members_addFiles (s : Session) (files : List (List Comment × String)) (k : MemberKind) :
    (s.addFiles files).catalog.members.ofKind k =
      s.catalog.members.ofKind k ++ files.flatMap fun file =>
        (s.contribution file).members.ofKind k := by
  induction files generalizing s with
  | nil => simp [addFiles]
  | cons file files ih =>
    rw [addFiles_cons, ih, List.flatMap_cons, ← List.append_assoc, ← Members.ofKind_append]
    rfl

theorem addFiles_rearranged (s : Session) {files files' : List (List Comment × String)}
    (h : files.Perm files')
    (hapart : files.Pairwise fun f g => (s.contribution f).Apart (s.contribution g)) :
    (s.addFiles files).catalog.Rearranged (s.addFiles files').catalog where
  classes := by
    rw [classes_addFiles, classes_addFiles]
    exact ClassReference.Rearranged.append_flatMap _ h (hapart.imp fun hfg => hfg.classes)
  members k := by
    rw [members_addFiles, members_addFiles]
    exact ClassReference.Rearranged.append_flatMap _ h (hapart.imp fun hfg => hfg.members k)

/-! ## The model -/

/-- A build has the same result if definitions of the same class, and members of the same kind,
owner and simple name, were collected in the same order. So files may be added in any order if no
two of them contribute such entities. -/
theorem build_independent_of_order :
    (∀ s s' : Session, s.rules = s'.rules → s.catalog.Rearranged s'.catalog →
      s.build.value.2 = s'.build.value.2) ∧
    ∀ (s : Session) (files files' : List (List Comment × String)), files.Perm files' →
      (files.Pairwise fun f g => (s.contribution f).Apart (s.contribution g)) →
      (s.addFiles files).build.value.2 = (s.addFiles files').build.value.2 := by
  have hcatalog : ∀ s s' : Session, s.rules = s'.rules → s.catalog.Rearranged s'.catalog →
      s.build.value.2 = s'.build.value.2 := by
    intro s s' hrules h
    rw [build_result, build_result, hrules, Hierarchy.resolve_outcome_congr s'.rules h]
  refine ⟨hcatalog, fun s files files' h hapart => ?_⟩
  refine hcatalog _ _ ?_ (s.addFiles_rearranged h hapart)
  rw [rules_addFiles, rules_addFiles]

/-- A session with a class that is defined twice, and its parent between the definitions. -/
def definedTwice : Session where
  catalog := { classes :=
    [{ name := ⟨"A", "A"⟩, parentName := some "B" }, { name := ⟨"B", "B"⟩ },
      { name := ⟨"A", "A"⟩ }] }

/-- The same session with the parent in front. -/
def definedTwiceRearranged : Session where
  catalog := { classes :=
    [{ name := ⟨"B", "B"⟩ }, { name := ⟨"A", "A"⟩, parentName := some "B" },
      { name := ⟨"A", "A"⟩ }] }

/-- A file with a class and a config option. -/
def parentFile : List Comment × String :=
  ([{ body := "@class A" }, { body := "@cfg x" }], "a")

/-- A file with a class that overrides the option. -/
def childFile : List Comment × String :=
  ([{ body := "@class B\n@extends A" }, { body := "@cfg x" }], "b")

theorem build_definedTwice_and_swapped_files :
    definedTwice.catalog.Rearranged definedTwiceRearranged.catalog ∧
    definedTwice.build.value.2 = definedTwiceRearranged.build.value.2 ∧
    (({} : Session).contribution parentFile).Apart (({} : Session).contribution childFile) ∧
    (({} : Session).addFiles [parentFile, childFile]).build.value.2 =
      (({} : Session).addFiles [childFile, parentFile]).build.value.2 := by
  have hrearranged : definedTwice.catalog.Rearranged definedTwiceRearranged.catalog := by
    refine ⟨⟨by decide +kernel, fun full => ?_⟩, fun k => ⟨?_, fun _ => ?_⟩⟩
    · by_cases hA : "A" = full
      · subst hA
        decide +kernel
      · simp [definedTwice, definedTwiceRearranged, List.filter_cons, hA]
    · cases k <;> exact List.Perm.nil
    · cases k <;> rfl
  have hapart :
      (({} : Session).contribution parentFile).Apart (({} : Session).contribution childFile) :=
    ⟨by decide +kernel, fun k => by cases k <;> decide +kernel⟩
  refine ⟨hrearranged, build_independent_of_order.1 _ _ rfl hrearranged, hapart, ?_⟩
  exact build_independent_of_order.2 {} [parentFile, childFile] [childFile, parentFile]
    (List.Perm.swap _ _ _) (List.pairwise_pair.mpr hapart)

end Session

end ClassReference
