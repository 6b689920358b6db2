import ClassReference.Page.ClassPage
import ClassReference.Proofs.PrivateClasses

/-!
# Proofs: where the links of a class page lead

A class page leads to the pages of other classes from four places: its ancestors, its subclasses,
its parent, and the classes that declare its members. Ancestors are looked up in the model before a
link is made of them; owners of members are not. So a page leads to a page that does not exist
exactly if it shows a member of a class that is kept private (`dangling_links`), which only happens
if excluded classes pass on members.
-/

namespace ClassReference

namespace Fragment

/-- The class to whose page a fragment leads. -/
def target? : Fragment → Option String
  | pageLink className _ => some className
  | text _ => none
  | anchor _ _ => none

/-- The classes to whose pages some fragments lead. -/
def targets (fs : List Fragment) : List String :=
  fs.filterMap target?

@[simp] theorem targets_nil : targets [] = [] := rfl

@[simp] theorem targets_text (s : String) (fs : List Fragment) :
    targets (text s :: fs) = targets fs := rfl

@[simp] theorem targets_pageLink (className label : String) (fs : List Fragment) :
    targets (pageLink className label :: fs) = className :: targets fs := rfl

@[simp] theorem targets_anchor (className memberName : String) (fs : List Fragment) :
    targets (anchor className memberName :: fs) = targets fs := rfl

@[simp] theorem targets_append (fs gs : List Fragment) :
    targets (fs ++ gs) = targets fs ++ targets gs :=
  List.filterMap_append

theorem mem_targets_flatMap {α : Type} {f : α → List Fragment} {l : List α} {t : String} :
    t ∈ targets (l.flatMap f) ↔ ∃ a ∈ l, t ∈ targets (f a) := by
  induction l with
  | nil => simp
  | cons a l ih => simp [ih]

/-- The pages that some fragments refer to. -/
def hrefs (extension : String) (fs : List Fragment) : List String :=
  (targets fs).map (pageName extension)

end Fragment

theorem pageName_injective (extension : String) : Function.Injective (pageName extension) := by
  intro a b h
  have hlist := congrArg String.toList h
  simp only [pageName, String.toList_append, List.append_assoc] at hlist
  exact String.toList_inj.mp (List.append_cancel_right hlist)

/-- The class pages of a model. -/
def Model.pages (m : Model) (extension : String) : List String :=
  m.classes.map fun c => pageName extension c.name.full

theorem Model.mem_pages_iff {m : Model} {extension full : String} :
    pageName extension full ∈ m.pages extension ↔ ∃ c ∈ m.classes, c.name.full = full := by
  rw [Model.pages, List.mem_map]
  exact exists_congr fun c => and_congr_right fun _ => (pageName_injective extension).eq_iff

namespace ClassPage

open Fragment

/-! ## Parts of the page -/

/-- Ancestors are looked up. -/
theorem mem_targets_ancestorList {model : Model} {e : ClassEntry} {t : String} :
    t ∈ targets (ancestorList model e) ↔
      (∃ s ∈ e.superClasses, s.full = t) ∧ (model.get? t).isSome = true := by
  have hitem : ∀ s : ClassName, t ∈ targets [text "  <li>",
      if (model.get? s.full).isSome then pageLink s.full s.short else text s.short,
      text "</li>\n"] ↔
        s.full = t ∧ (model.get? t).isSome = true := by
    intro s
    split
    · rename_i hlisted
      simp only [targets_text, targets_pageLink, targets_nil, List.mem_singleton]
      constructor
      · rintro rfl
        exact ⟨rfl, hlisted⟩
      · exact fun h => h.1.symm
    · rename_i hunlisted
      simp only [targets_text, targets_nil, List.not_mem_nil, false_iff]
      rintro ⟨rfl, hlisted⟩
      exact hunlisted hlisted
  unfold ancestorList
  split
  · rename_i hempty
    simp [List.isEmpty_iff.mp hempty]
  · rw [List.cons_append, targets_text, targets_append, List.mem_append, mem_targets_flatMap]
    simp only [hitem]
    simp only [targets_text, targets_nil, List.not_mem_nil, or_false]
    constructor
    · rintro ⟨s, hs, hname, hlisted⟩
      exact ⟨⟨s, hs, hname⟩, hlisted⟩
    · rintro ⟨⟨s, hs, hname⟩, hlisted⟩
      exact ⟨s, hs, hname, hlisted⟩

theorem targets_subclassLinks (cs : List ClassName) :
    targets (subclassLinks cs) = cs.map (·.full) := by
  fun_induction subclassLinks cs with
  | case1 => rfl
  | case2 c => rfl
  | case3 c cs _ ih => simp [ih]

theorem targets_subclassRow (e : ClassEntry) :
    targets (subclassRow e) = e.subClasses.map (·.full) := by
  unfold subclassRow
  split
  · rename_i hempty
    simp [List.isEmpty_iff.mp hempty]
  · simp [targets_subclassLinks]

theorem targets_parentRow (parent : Option ClassEntry) (e : ClassEntry) :
    targets (parentRow parent e) = parent.toList.map (·.name.full) := by
  unfold parentRow
  cases parent with
  | some p => rfl
  | none =>
    cases e.parentName with
    | none => rfl
    | some n => by_cases hn : n = "" <;> simp [hn]

/-- Of a table, only the cells of the owners lead to other pages. -/
theorem mem_targets_table {α : Type} {title column : String} {e : ClassEntry}
    {row : Member α → List Fragment} (hrow : ∀ m, targets (row m) = targets [ownerCell e m])
    {ms : List (Member α)} {t : String} :
    t ∈ targets (table title column row ms) ↔
      ∃ m ∈ ms, m.owner.full ≠ e.name.full ∧ m.owner.full = t := by
  have hcell : ∀ m : Member α, t ∈ targets [ownerCell e m] ↔
      m.owner.full ≠ e.name.full ∧ m.owner.full = t := by
    intro m
    unfold ownerCell
    split
    · rename_i hown
      simp [hown]
    · rename_i hinherited
      simp [hinherited, eq_comm]
  unfold table
  split
  · rename_i hempty
    simp [List.isEmpty_iff.mp hempty]
  · rw [List.cons_append, targets_text, targets_append, List.mem_append, mem_targets_flatMap]
    simp only [hrow, hcell, targets_text, targets_nil, List.not_mem_nil, or_false]

/-- Some member has an owner with a property if a member of one of the kinds has. -/
theorem exists_owner_iff (ms : Members) (P : ClassName → Prop) :
    (∃ k : MemberKind, ∃ m ∈ ms.ofKind k, P m.owner) ↔
      (∃ m ∈ ms.cfgs, P m.owner) ∨ (∃ m ∈ ms.properties, P m.owner) ∨
        (∃ m ∈ ms.methods, P m.owner) ∨
        ∃ m ∈ ms.events, P m.owner := by
  constructor
  · rintro ⟨k, m, hm, hP⟩
    cases k with
    | cfg => exact Or.inl ⟨m, hm, hP⟩
    | property => exact Or.inr (Or.inl ⟨m, hm, hP⟩)
    | method => exact Or.inr (Or.inr (Or.inl ⟨m, hm, hP⟩))
    | event => exact Or.inr (Or.inr (Or.inr ⟨m, hm, hP⟩))
  · rintro (⟨m, hm, hP⟩ | ⟨m, hm, hP⟩ | ⟨m, hm, hP⟩ | ⟨m, hm, hP⟩)
    · exact ⟨.cfg, m, hm, hP⟩
    · exact ⟨.property, m, hm, hP⟩
    · exact ⟨.method, m, hm, hP⟩
    · exact ⟨.event, m, hm, hP⟩

/-- The links of a page: those above the tables, and one to each other class that declares one of
its members. -/
theorem mem_targets_fragments {model : Model} {parent : Option ClassEntry} {e : ClassEntry}
    {t : String} :
    t ∈ targets (fragments model parent e) ↔
      t ∈ targets (ancestorList model e ++ subclassRow e ++ parentRow parent e) ∨
      ∃ k : MemberKind, ∃ m ∈ e.members.ofKind k, m.owner.full ≠ e.name.full ∧
        m.owner.full = t := by
  have hcells : ∀ {α : Type} (m : Member α) (s : String),
      targets (rowStart e m ++ [text s] ++ rowEnd e m) = targets [ownerCell e m] := by
    intro α m s
    simp only [rowStart, rowEnd, List.cons_append, List.nil_append, targets_text, targets_anchor]
    cases ownerCell e m <;> rfl
  have hcfgs : ∀ m, targets (cfgRow e m) = targets [ownerCell e m] := fun m => hcells m _
  have hproperties : ∀ m, targets (propertyRow e m) = targets [ownerCell e m] := fun m => hcells m _
  have hmethods : ∀ m, targets (methodRow e m) = targets [ownerCell e m] := fun m => hcells m _
  have hevents : ∀ m, targets (eventRow e m) = targets [ownerCell e m] := fun m => hcells m _
  rw [exists_owner_iff e.members fun owner => owner.full ≠ e.name.full ∧ owner.full = t]
  simp only [fragments, List.cons_append, List.append_assoc, targets_text, targets_append,
    targets_nil, List.mem_append, List.not_mem_nil, or_false]
  rw [mem_targets_table hcfgs, mem_targets_table hproperties, mem_targets_table hmethods,
    mem_targets_table hevents]
  simp only [or_assoc]

end ClassPage

namespace Collection

open Fragment ClassPage

section Links

variable {config : Config} {history : List Call} {w : World} {model : Model}

/-- The links above the tables lead to classes of the model. -/
theorem listed_of_upper_link (h : answer config history .build w = .built (.ok model))
    {c : ClassEntry} (hc : c ∈ model.classes) {parent : Option ClassEntry}
    (hparent : model.parent c = .ok parent) {t : String}
    (ht : t ∈ targets (ancestorList model c ++ subclassRow c ++ parentRow parent c)) :
    ∃ e ∈ model.classes, e.name.full = t := by
  obtain ⟨hlisted, -⟩ := listed_of_answer h
  rw [targets_append, targets_append, targets_subclassRow, targets_parentRow, List.mem_append,
    List.mem_append] at ht
  rcases ht with (ht | ht) | ht
  · obtain ⟨e, he⟩ := Option.isSome_iff_exists.mp (mem_targets_ancestorList.mp ht).2
    exact ⟨e, List.mem_of_find?_eq_some he, by simpa using List.find?_some he⟩
  · obtain ⟨s, hs, rfl⟩ := List.mem_map.mp ht
    obtain ⟨e, he, rfl⟩ := Hierarchy.exists_of_subClass hlisted hc hs
    exact ⟨e, he, rfl⟩
  · obtain ⟨p, hp, rfl⟩ := List.mem_map.mp ht
    have hget : c.parentName.bind model.get? = some p := by
      rw [Hierarchy.parent_listed hlisted hc model.tree] at hparent
      rw [← Option.mem_toList.mp hp]
      exact Except.ok.inj hparent
    obtain ⟨full, -, hfind⟩ := Option.bind_eq_some_iff.mp hget
    exact ⟨p, List.mem_of_find?_eq_some hfind, rfl⟩

/-- If excluded classes do not pass on members, the classes that declare the members of a listed
class are listed. -/
theorem listed_of_owner (h : answer config history .build w = .built (.ok model))
    (hrules : config.hierarchy.rules.inheritFromExcluded = false) {c : ClassEntry}
    (hc : c ∈ model.classes) {k : MemberKind} {m : Member k.Detail} (hm : m ∈ c.members.ofKind k) :
    ∃ e ∈ model.classes, e.name.full = m.owner.full := by
  obtain ⟨hlisted, -⟩ := listed_of_answer h
  rcases Hierarchy.owner_of_mem_ofKind hlisted hc hm with howner | ⟨s, hs, howner⟩
  · exact ⟨c, hc, howner.symm⟩
  · rw [← howner]
    exact Hierarchy.exists_of_superClass hlisted hrules hc hs

/-- For every class of every model that is built, its page can be written. The links above its
tables lead to class pages of the model, and what else it refers to are the pages of the classes
that declare its members. Exactly those of them do not exist whose class is kept private, and there
are none if excluded classes do not pass on members. -/
theorem dangling_links (h : answer config history .build w = .built (.ok model)) {c : ClassEntry}
    (hc : c ∈ model.classes) (extension : String) :
    ∃ parent, model.parent c = .ok parent ∧
      (∀ href ∈ hrefs extension (ancestorList model c ++ subclassRow c ++ parentRow parent c),
        href ∈ model.pages extension) ∧
      (∀ href, href ∈ hrefs extension (fragments model parent c) ∧ href ∉ model.pages extension ↔
        ∃ k : MemberKind, ∃ m ∈ c.members.ofKind k, KeptPrivate config history m.owner.full ∧
          href = pageName extension m.owner.full) ∧
      (config.hierarchy.rules.inheritFromExcluded = false →
        ∀ href ∈ hrefs extension (fragments model parent c), href ∈ model.pages extension) := by
  obtain ⟨hlisted, -⟩ := listed_of_answer h
  have hparent := Hierarchy.parent_listed hlisted hc model.tree
  refine ⟨_, hparent, ?_, ?_, ?_⟩
  · intro href hhref
    obtain ⟨t, ht, rfl⟩ := List.mem_map.mp hhref
    exact Model.mem_pages_iff.mpr (listed_of_upper_link h hc hparent ht)
  · intro href
    constructor
    · rintro ⟨hhref, hmissing⟩
      obtain ⟨t, ht, rfl⟩ := List.mem_map.mp hhref
      rw [Model.mem_pages_iff, listed_iff_not_keptPrivate h, not_not] at hmissing
      rcases mem_targets_fragments.mp ht with ht | ⟨k, m, hm, -, rfl⟩
      · exact absurd hmissing
          ((listed_iff_not_keptPrivate h t).mp (listed_of_upper_link h hc hparent ht))
      · exact ⟨k, m, hm, hmissing, rfl⟩
    · rintro ⟨k, m, hm, hprivate, rfl⟩
      -- the class of the page is listed, so it is not the private one
      have howner : m.owner.full ≠ c.name.full := by
        intro howner
        exact (listed_iff_not_keptPrivate h m.owner.full).mp ⟨c, hc, howner.symm⟩ hprivate
      refine ⟨List.mem_map_of_mem (mem_targets_fragments.mpr (Or.inr ⟨k, m, hm, howner, rfl⟩)), ?_⟩
      rw [Model.mem_pages_iff, listed_iff_not_keptPrivate h, not_not]
      exact hprivate
  · intro hrules href hhref
    obtain ⟨t, ht, rfl⟩ := List.mem_map.mp hhref
    rw [Model.mem_pages_iff]
    rcases mem_targets_fragments.mp ht with ht | ⟨k, m, hm, -, rfl⟩
    · exact listed_of_upper_link h hc hparent ht
    · exact listed_of_owner h hrules hc hm

end Links

/-- A private class with a config option, and a class below it. -/
def hiddenOwner : Addition :=
  .source ("/** @class Base\n * @private\n * @cfg {Number} size Its size\n */\n" ++
    "/** @class Leaf\n * @extends Base\n */\n") "a.js"

/-- The config option of the private class. -/
def hiddenOwnerSize : Cfg where
  name := "size"
  owner := ⟨"Base", "Base"⟩
  description := { long := "Its size" }
  detail := { type := some "Number" }

/-- What is collected of the two classes. -/
def hiddenOwnerCatalog : Catalog where
  classes := [{ name := ⟨"Base", "Base"⟩, definedIn := "a.js", excluded := true },
    { name := ⟨"Leaf", "Leaf"⟩, definedIn := "a.js", parentName := some "Base" }]
  members := { cfgs := [hiddenOwnerSize] }

/-- The class below shows the config option. -/
def hiddenOwnerLeaf : ClassEntry where
  name := ⟨"Leaf", "Leaf"⟩
  definedIn := "a.js"
  parentName := some "Base"
  superClasses := [⟨"Base", "Base"⟩]
  members := { cfgs := [hiddenOwnerSize] }

/-- The model of the two classes. -/
def hiddenOwnerModel : Model where
  classes := [hiddenOwnerLeaf]
  tree := Package.ofClasses [hiddenOwnerLeaf]

theorem held_hiddenOwner : held excludedInherit [.add hiddenOwner] = hiddenOwnerCatalog := by
  have hfound : (start excludedInherit).contribution hiddenOwner = .ok hiddenOwnerCatalog := by
    decide +kernel
  exact held_singleton hfound

theorem answer_hiddenOwner :
    answer excludedInherit [.add hiddenOwner] .build noFiles = .built (.ok hiddenOwnerModel) := by
  have hlisted :
      (Hierarchy.resolve excludedInherit.hierarchy.rules hiddenOwnerCatalog).value.outcome =
      .ok [hiddenOwnerLeaf] := by cbv
  rw [answer_build, held_hiddenOwner, hlisted]
  rfl

theorem hiddenOwner_dangling_links :
    answer excludedInherit [.add hiddenOwner] .build noFiles = .built (.ok hiddenOwnerModel) ∧
    hiddenOwnerLeaf ∈ hiddenOwnerModel.classes ∧
    KeptPrivate excludedInherit [.add hiddenOwner] hiddenOwnerSize.owner.full ∧
    ∃ parent, hiddenOwnerModel.parent hiddenOwnerLeaf = .ok parent ∧
      pageName "html" "Base" ∈ hrefs "html" (fragments hiddenOwnerModel parent hiddenOwnerLeaf) ∧
      pageName "html" "Base" ∉ hiddenOwnerModel.pages "html" := by
  have hc : hiddenOwnerLeaf ∈ hiddenOwnerModel.classes := List.mem_singleton_self _
  have hprivate : KeptPrivate excludedInherit [.add hiddenOwner] hiddenOwnerSize.owner.full := by
    rw [keptPrivate_iff, held_hiddenOwner]
    decide
  obtain ⟨parent, hparent, -, hdangling, -⟩ := dangling_links answer_hiddenOwner hc "html"
  refine ⟨answer_hiddenOwner, hc, hprivate, parent, hparent, ?_⟩
  exact (hdangling _).mpr ⟨.cfg, hiddenOwnerSize, List.mem_singleton_self _, hprivate, rfl⟩

/-- The page of the class below leads to a page that the model does not have. -/
theorem hiddenOwner_page_missing :
    answer excludedInherit [.add hiddenOwner] .build noFiles = .built (.ok hiddenOwnerModel) ∧
    hiddenOwnerLeaf ∈ hiddenOwnerModel.classes ∧
    hiddenOwnerModel.parent hiddenOwnerLeaf = .ok none ∧
    hrefs "html" (fragments hiddenOwnerModel none hiddenOwnerLeaf) = ["Base.html"] ∧
    hiddenOwnerModel.pages "html" = ["Leaf.html"] := by
  refine ⟨answer_hiddenOwner, List.mem_singleton_self _, rfl, ?_, ?_⟩
  · decide +kernel
  · decide +kernel

end Collection

end ClassReference
