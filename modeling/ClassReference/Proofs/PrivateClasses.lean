import ClassReference.Proofs.Definitions
import ClassReference.Proofs.InheritedMembers
import ClassReference.Proofs.PackageTree

/-!
# Proofs: private classes stay private

A class that is only defined as private is not documented: the model neither lists it nor refers to
it from a package or from the subclasses of another class. If excluded classes do not pass on
members, the ancestors of a class and the owners of what it shows are documented classes too
(`private_withheld`). So in that case nothing is left of it.
-/

namespace ClassReference

/-! ## Packages -/

namespace Package

/-- The packages of a tree: the root, and the children of each package of the tree. -/
inductive Within (root : Package) : Package → Prop where
  | root : Within root root
  | child {p q : Package} (hp : Within root p) (hq : q ∈ p.packages) : Within root q

/-- All classes of the package and of the packages in it, all the way down, satisfy `P`. -/
inductive Only (P : ClassName → Prop) : Package → Prop where
  | intro {p : Package} (classes : ∀ c ∈ p.classes, P c) (packages : ∀ q ∈ p.packages, Only P q) :
      Only P p

variable {P : ClassName → Prop}

theorem Only.of_within {root p : Package} (h : Only P root) (hp : root.Within p) : Only P p := by
  induction hp with
  | root => exact h
  | child _ hq ih =>
    obtain ⟨-, hpackages⟩ := ih
    exact hpackages _ hq

theorem Only.place {root : Package} (h : Only P root) {c : ClassName} (hc : P c)
    (path : List String) : Only P (root.place path c) := by
  unfold Package.place
  induction path generalizing root with
  | nil =>
    obtain ⟨hclasses, hpackages⟩ := h
    refine ⟨?_, hpackages⟩
    intro d hd
    rcases List.mem_append.mp hd with hd | hd
    · exact hclasses d hd
    · exact List.mem_singleton.mp hd ▸ hc
  | cons name path ih =>
    obtain ⟨hclasses, hpackages⟩ := h
    refine ⟨hclasses, ?_⟩
    intro q hq
    rcases mem_modifyNamed hq with hq | ⟨p, hp, rfl⟩
    · exact hpackages q hq
    · rcases List.mem_cons.mp hp with rfl | hp
      · -- a package that is made on the way is empty
        exact ih ⟨by simp [newChild], by simp [newChild]⟩
      · exact ih (hpackages p hp)

theorem Only.sorted {p : Package} (h : Only P p) : Only P p.sorted := by
  induction h with
  | @intro p hclasses _ ih =>
    rcases p with ⟨name, fullName, packages, classes⟩
    rw [Package.sorted, sortedAll_eq_map]
    refine ⟨?_, ?_⟩
    · intro c hc
      exact hclasses c (List.mem_mergeSort.mp hc)
    · intro q hq
      obtain ⟨p', hp', rfl⟩ := List.mem_map.mp (List.mem_mergeSort.mp hq)
      exact ih p' hp'

theorem Only.place_all (es : List ClassEntry) {root : Package} (h : Only P root)
    (hes : ∀ e ∈ es, P e.name) :
    Only P (es.foldl
      (fun (root : Package) e => root.place (pathOf e.packageName) e.name) root) := by
  induction es generalizing root with
  | nil => exact h
  | cons e es ih =>
    have hplaced := h.place (hes e List.mem_cons_self) (pathOf e.packageName)
    exact ih hplaced fun d hd => hes d (List.mem_cons_of_mem _ hd)

/-- A tree of packages holds no other classes than those it is made of. -/
theorem only_ofClasses (classes : List ClassEntry) :
    Only (fun s => ∃ e ∈ classes, e.name = s) (ofClasses classes) := by
  have hempty : Only (fun s => ∃ e ∈ classes, e.name = s) {} := ⟨by simp, by simp⟩
  exact (hempty.place_all classes fun e he => ⟨e, he, rfl⟩).sorted

end Package

/-! ## References -/

namespace Hierarchy

section References

variable {rules : Rules} {catalog : Catalog} {listed : List ClassEntry}

/-- The subclasses of a listed class are listed. -/
theorem exists_of_subClass (h : (resolve rules catalog).value.outcome = .ok listed) {c : ClassEntry}
    (hc : c ∈ listed) {s : ClassName} (hs : s ∈ c.subClasses) : ∃ e ∈ listed, e.name = s := by
  rw [subClasses_listed h hc, childrenOf_arena h] at hs
  obtain ⟨e, he, hname⟩ := List.mem_map.mp hs
  exact ⟨e, (List.mem_filter.mp he).1, hname⟩

/-- The ancestors of a listed class have a definition, and if excluded classes do not pass on
members they are listed. -/
theorem exists_of_superClass (h : (resolve rules catalog).value.outcome = .ok listed)
    (hrules : rules.inheritFromExcluded = false) {c : ClassEntry} (hc : c ∈ listed) {s : ClassName}
    (hs : s ∈ c.superClasses) : ∃ e ∈ listed, e.name.full = s.full := by
  have harena := arranges_arenaOf rules catalog.classes
  obtain ⟨d, -, -, l, ht, rfl⟩ := exists_of_mem_listed h hc
  obtain ⟨a, ha, rfl⟩ := List.mem_map.mp (List.mem_reverse.mp hs)
  have hdef : definitionOf rules catalog.classes a.name.full = some a :=
    (harena.find_iff _ a).mpr ⟨harena.mem_of_trail ht a ha, rfl⟩
  have hpublic : a.excluded = false := by
    by_contra hx
    rw [inheritFromExcluded_of_definitionOf hdef (by simpa using hx)] at hrules
    cases hrules
  have hfind : (listed.find? (·.name.full == a.name.full)).isSome = true := by
    rw [← Option.isSome_map, find?_listed h, ← definitionOf_public rules, hdef, Option.isSome_map]
    simp [Option.filter, hpublic]
  simpa [List.find?_isSome] using hfind

/-- A listed class shows its own members and members of its ancestors. -/
theorem owner_of_mem_ofKind (h : (resolve rules catalog).value.outcome = .ok listed)
    {c : ClassEntry} (hc : c ∈ listed) {k : MemberKind} {m : Member k.Detail}
    (hm : m ∈ c.members.ofKind k) :
    m.owner.full = c.name.full ∨ ∃ s ∈ c.superClasses, s.full = m.owner.full := by
  obtain ⟨l, hl, hnodup, hmembers⟩ := members_listed h hc
  obtain ⟨l', hl', hsuper, -⟩ := superClasses_listed h hc
  obtain rfl := hl.unique hl'
  rw [hmembers k] at hm
  rcases List.mem_cons.mp (Member.owner_of_mem_listed hnodup hm) with howner | howner
  · exact Or.inl howner
  · obtain ⟨a, ha, hname⟩ := List.mem_map.mp howner
    refine Or.inr ⟨a.name, ?_, hname⟩
    rw [hsuper]
    exact List.mem_reverse.mpr (List.mem_map_of_mem ha)

end References

end Hierarchy

namespace Model

/-- The class with the given full name is not documented: it is not listed, and no package and no
class refers to it as one below. -/
structure Omits (m : Model) (full : String) : Prop where
  classes : ∀ c ∈ m.classes, c.name.full ≠ full
  subClasses : ∀ c ∈ m.classes, ∀ s ∈ c.subClasses, s.full ≠ full
  packages : ∀ p, m.tree.Within p → ∀ s ∈ p.classes, s.full ≠ full

/-- The class with the given full name has left no trace in the classes that come after it: it is
not among their ancestors, they show no member of it, and they do not become components by it. -/
structure Conceals (m : Model) (rules : Hierarchy.Rules) (full : String) : Prop where
  superClasses : ∀ c ∈ m.classes, ∀ s ∈ c.superClasses, s.full ≠ full
  members : ∀ c ∈ m.classes, ∀ k : MemberKind, ∀ x ∈ c.members.ofKind k, x.owner.full ≠ full
  component : rules.componentClass = some full → ∀ c ∈ m.classes, c.component = false

variable {rules : Hierarchy.Rules} {catalog : Catalog} {m : Model} {full : String}

/-- What is not listed is omitted everywhere. -/
theorem omits_of_not_listed (h : (Hierarchy.resolve rules catalog).value.outcome = .ok m.classes)
    (htree : m.tree = Package.ofClasses m.classes) (hfull : ∀ c ∈ m.classes, c.name.full ≠ full) :
    m.Omits full where
  classes := hfull
  subClasses c hc s hs := by
    obtain ⟨e, he, rfl⟩ := Hierarchy.exists_of_subClass h hc hs
    exact hfull e he
  packages p hp s hs := by
    rw [htree] at hp
    obtain ⟨hclasses, -⟩ := (Package.only_ofClasses m.classes).of_within hp
    obtain ⟨e, he, rfl⟩ := hclasses s hs
    exact hfull e he

theorem conceals_of_not_listed (h : (Hierarchy.resolve rules catalog).value.outcome = .ok m.classes)
    (hrules : rules.inheritFromExcluded = false) (hfull : ∀ c ∈ m.classes, c.name.full ≠ full) :
    m.Conceals rules full := by
  have hsuper : ∀ c ∈ m.classes, ∀ s ∈ c.superClasses, s.full ≠ full := by
    intro c hc s hs hname
    obtain ⟨e, he, hn⟩ := Hierarchy.exists_of_superClass h hrules hc hs
    exact hfull e he (hn.trans hname)
  refine ⟨hsuper, ?_, ?_⟩
  · intro c hc k x hx hname
    rcases Hierarchy.owner_of_mem_ofKind h hc hx with howner | ⟨s, hs, howner⟩
    · exact hfull c hc (howner.symm.trans hname)
    · exact hsuper c hc s hs (howner.trans hname)
  · intro hcomponent c hc
    rw [← Bool.not_eq_true, Hierarchy.component_listed h hc]
    rintro ⟨s, hs, hname⟩
    rw [hcomponent] at hname
    exact hsuper c hc s hs (Option.some.inj hname).symm

end Model

/-! ## Private comments -/

/-- A private comment that documents no class contributes nothing, and is no context for the
comments behind it. -/
theorem Classifier.classify_private (cl : Classifier) {c : Comment}
    (hmember : ∀ full, ¬ c.Defines full) (hprivate : c.IsPrivate) (ctx : Context) :
    (cl.classify c ctx).value.entities = [] ∧ (cl.classify c ctx).value.context = ctx := by
  have hhead : c.block.declared.head? = none := by
    cases hd : c.block.declared.head? with
    | none => rfl
    | some title => exact absurd (by rw [Comment.Defines, hd]; rfl) (hmember title.name)
  obtain ⟨kind, es, hvalue, -⟩ := cl.memberComment_cases c.block c ctx
  rw [cl.classify_member hhead, hvalue, if_pos ((c.isPrivate_iff).mp hprivate)]
  exact ⟨rfl, rfl⟩

/-- Without such a comment, the others are classified as they are with it, and no more settings are
used. -/
theorem Classifier.classifyAll_private (cl : Classifier) {c : Comment}
    (hmember : ∀ full, ¬ c.Defines full) (hprivate : c.IsPrivate) (before after : List Comment)
    (ctx : Context) :
    (cl.classifyAll (before ++ after) ctx).value.flatMap (·.entities) =
        (cl.classifyAll (before ++ c :: after) ctx).value.flatMap (·.entities) ∧
      (cl.classifyAll (before ++ after) ctx).steps.Sublist
        (cl.classifyAll (before ++ c :: after) ctx).steps := by
  induction before generalizing ctx with
  | nil =>
    obtain ⟨hentities, hcontext⟩ := cl.classify_private hmember hprivate ctx
    rw [List.nil_append, List.nil_append, value_classifyAll_cons, steps_classifyAll_cons, hcontext,
      List.flatMap_cons, hentities]
    exact ⟨rfl, List.sublist_append_right _ _⟩
  | cons b before ih =>
    obtain ⟨hentities, hsteps⟩ := ih (cl.classify b ctx).value.context
    simp only [List.cons_append, value_classifyAll_cons, steps_classifyAll_cons, List.flatMap_cons]
    exact ⟨congrArg (_ ++ ·) hentities, hsteps.append_left _⟩

namespace Collection

theorem contribution_without_private (c : Collection) {a : Addition} {before after : List Comment}
    {x : Comment} (hfile : a.file.1 = before ++ x :: after) (hmember : ∀ full, ¬ x.Defines full)
    (hprivate : x.IsPrivate) {found : Catalog} (h : c.contribution a = .ok found) :
    c.contribution (.comments (before ++ after) a.file.2) = .ok found := by
  obtain ⟨hsteps, rfl⟩ := contribution_eq_ok.mp h
  rw [hfile] at hsteps ⊢
  obtain ⟨hentities, hsub⟩ := c.session.classifier.classifyAll_private hmember hprivate before after
    { fileName := a.file.2 }
  exact contribution_eq_ok.mpr
    ⟨fun s hs => hsteps s (hsub.subset hs), congrArg Catalog.ofEntities hentities⟩

theorem answer_add (config : Config) (history : List Call) (a : Addition) (w : World) :
    answer config history (.add a) w = .collected ((start config).contribution a) := by
  rw [answer_eq]
  simp only [next, contribution_nextAll]
  cases (start config).contribution a <;> rfl

/-- Private classes never leak. Whatever was collected before, a class that is only defined as
private is omitted from every model that is built and, if excluded classes do not pass on members,
concealed in it. A private comment that documents no class contributes nothing: without it, an
addition contributes the same. -/
theorem private_withheld (config : Config) (history : List Call) (w : World) :
    (∀ model full, answer config history .build w = .built (.ok model) →
      KeptPrivate config history full →
      model.Omits full ∧
      (config.hierarchy.rules.inheritFromExcluded = false →
        model.Conceals config.hierarchy.rules full)) ∧
    ∀ a before c after found, a.file.1 = before ++ c :: after → (∀ full, ¬ c.Defines full) →
      c.IsPrivate →
      answer config history (.add a) w = .collected (.ok found) →
      answer config history (.add (.comments (before ++ after) a.file.2)) w =
        .collected (.ok found) := by
  constructor
  · intro model full h hprivate
    obtain ⟨hlisted, htree⟩ := listed_of_answer h
    have hfull : ∀ c ∈ model.classes, c.name.full ≠ full := by
      intro c hc hname
      exact (listed_iff_not_keptPrivate h full).mp ⟨c, hc, hname⟩ hprivate
    exact ⟨Model.omits_of_not_listed hlisted htree hfull, fun hrules =>
      Model.conceals_of_not_listed hlisted hrules hfull⟩
  · intro a before c after found hfile hmember hprivate h
    rw [answer_add] at h ⊢
    exact congrArg Answer.collected
      (contribution_without_private _ hfile hmember hprivate (Answer.collected.inj h))

/-- A private class with a config option, a class below it, and a method that is ignored. -/
def privateBase : Addition :=
  .comments [{ body := "@class Base\n@private\n@cfg {Number} size" },
    { body := "@class Leaf\n@extends Base" },
    { body := "@method run\n@ignore" }] "a"

/-- What is collected of them. -/
def privateBaseCatalog : Catalog where
  classes := [{ name := ⟨"Base", "Base"⟩, definedIn := "a", excluded := true },
    { name := ⟨"Leaf", "Leaf"⟩, definedIn := "a", parentName := some "Base" }]
  members := { cfgs := [{ name := "size", owner := ⟨"Base", "Base"⟩,
                          detail := { type := some "Number" } }] }

/-- The class below stands alone. -/
def privateBaseLeaf : ClassEntry where
  name := ⟨"Leaf", "Leaf"⟩
  definedIn := "a"
  parentName := some "Base"

theorem contribution_privateBase :
    (start {}).contribution privateBase = .ok privateBaseCatalog := by
  decide +kernel

theorem privateBase_withheld :
    answer {} [.add privateBase] .build noFiles =
      .built (.ok ⟨[privateBaseLeaf], Package.ofClasses [privateBaseLeaf]⟩) ∧
    KeptPrivate {} [.add privateBase] "Base" ∧
    (Model.mk [privateBaseLeaf] (Package.ofClasses [privateBaseLeaf])).Omits "Base" ∧
    (Model.mk [privateBaseLeaf] (Package.ofClasses [privateBaseLeaf])).Conceals {} "Base" ∧
    answer {} [.add privateBase] (.add (.comments (privateBase.file.1.take 2) "a")) noFiles =
      .collected (.ok privateBaseCatalog) := by
  have hbuild : answer {} [.add privateBase] .build noFiles =
      .built (.ok ⟨[privateBaseLeaf], Package.ofClasses [privateBaseLeaf]⟩) := by
    have hlisted : (Hierarchy.resolve {} privateBaseCatalog).value.outcome =
        .ok [privateBaseLeaf] := by cbv
    rw [answer_build, held_singleton contribution_privateBase]
    change Answer.built ((Hierarchy.resolve {} privateBaseCatalog).value.outcome.map _) = _
    rw [hlisted]
    rfl
  have hprivate : KeptPrivate {} [.add privateBase] "Base" := by
    rw [keptPrivate_iff, held_singleton contribution_privateBase]
    decide
  obtain ⟨hmodel, hcomment⟩ := private_withheld {} [.add privateBase] noFiles
  obtain ⟨homits, hconceals⟩ := hmodel _ _ hbuild hprivate
  refine ⟨hbuild, hprivate, homits, hconceals rfl, ?_⟩
  have hadded : answer {} [.add privateBase] (.add privateBase) noFiles =
      .collected (.ok privateBaseCatalog) := by
    rw [answer_add, contribution_privateBase]
  refine hcomment privateBase (privateBase.file.1.take 2) { body := "@method run\n@ignore" }
    [] _ rfl ?_ ?_ hadded
  · have hnone : ({ body := "@method run\n@ignore" } : Comment).block.declared.head? = none := by
      decide +kernel
    intro full
    rw [Comment.Defines, hnone]
    simp
  · rw [Comment.isPrivate_iff]
    decide +kernel

end Collection

end ClassReference
