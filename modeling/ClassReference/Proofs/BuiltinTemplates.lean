import ClassReference.Proofs.FileChanges
import ClassReference.Proofs.Utf8
import ClassReference.Site

/-!
# Proofs: the templates that come with the program

Where the built-in template set is in place, it is loaded as `TemplateSet.builtin`, and its
templates are recognized by their texts. So class pages and the tree page are rendered without
failing, and their texts are those of `ClassPage` and `TreePage` (`Renderer.value_renderClass`,
`Renderer.value_renderTree`).
-/

namespace ClassReference

/-! ## The set in its place -/

/-- What the built-in set has at a location, as seen from its directory. -/
def BuiltinSet.node? (l : Location) : Option Node :=
  (entries.find? (·.1 == l)).map (·.2)

/-- The names of the templates of the built-in set. -/
def BuiltinSet.templateNames : List String :=
  ["class.html.j2", partsName, "tree.html.j2"]

namespace FileTree

/-- The built-in set is in its place. -/
def HoldsBuiltin (t : FileTree) : Prop :=
  ∀ l n, BuiltinSet.node? l = some n → t.get? (builtinLocation ++ l) = some n

/-- Of entries that are put below a location one after the other, each is found at its place. -/
theorem get?_foldl_put {base : Location} (hbase : base ≠ []) {es : List (Location × Node)}
    (hes : (es.map (·.1)).Nodup) (t : FileTree) (l : Location) :
    (es.foldl (fun t e => t.put (base ++ e.1) e.2) t).get? (base ++ l) =
      ((es.find? (·.1 == l)).map (·.2)).or (t.get? (base ++ l)) := by
  induction es generalizing t with
  | nil => rfl
  | cons e es ih =>
    obtain ⟨hfresh, hes⟩ := List.nodup_cons.mp hes
    rw [List.foldl_cons, ih hes]
    by_cases he : e.1 = l
    · subst he
      have hnone : es.find? (·.1 == e.1) = none := by
        rw [List.find?_eq_none]
        intro x hx hkey
        exact hfresh (List.mem_map.mpr ⟨x, hx, by simpa using hkey⟩)
      rw [hnone, get?_put_self _ _ _ (by simp [hbase])]
      simp
    · rw [get?_put_of_ne _ _ (by simpa using Ne.symm he)]
      simp [he]

/-- The built-in set is in its place once it is installed. -/
theorem holdsBuiltin_install (t : FileTree) : (BuiltinSet.install t).HoldsBuiltin := by
  intro l n hn
  rw [BuiltinSet.install, get?_foldl_put (by decide) (by decide)]
  change (BuiltinSet.node? l).or _ = _
  rw [hn, Option.some_or]

/-- What is in the directory of the built-in set is found by its name. -/
theorem lookup_builtin {t : FileTree} {name : String} {n : Node}
    (h : t.get? (builtinLocation ++ [name]) = some n)
    (hname : name ≠ "." ∧ name ≠ ".." ∧ name.utf8ByteSize ≤ maxNameSize ∧
      fault? ⟨.builtin, [name]⟩ = none) :
    t.lookup ⟨.builtin, [name]⟩ = .ok n := by
  obtain ⟨hdot, hup, hsize, hfault⟩ := hname
  have hlocate : t.locate ⟨.builtin, [name]⟩ = .ok (builtinLocation ++ [name]) := by
    rw [locate, hfault]
    exact walk_plain hdot hup hsize
  exact lookup_eq_ok hlocate h

/-- The templates of the built-in set are in their places. -/
def HoldsTemplates (t : FileTree) : Prop :=
  ∀ name ∈ BuiltinSet.templateNames, ∀ n, BuiltinSet.node? [name] = some n →
    t.get? (builtinLocation ++ [name]) = some n

theorem HoldsBuiltin.templates {t : FileTree} (h : t.HoldsBuiltin) : t.HoldsTemplates :=
  fun name _ => h [name]

end FileTree

/-! ## The set as it is loaded -/

/-- The template set that comes with the program. -/
def TemplateSet.builtin : TemplateSet where
  directory := ⟨.builtin, []⟩
  classTemplate := "class.html.j2"
  classDirectory := "output"
  treeTemplate := "tree.html.j2"
  treeFile := "index.html"
  resources := [⟨"resources", "resources"⟩]

/-- Where the built-in set is in its place, it is what is loaded from there. -/
theorem TemplateSet.load_builtin {files : FileTree} (h : files.HoldsBuiltin) :
    TemplateSet.load files ⟨.builtin, []⟩ = .ok .builtin := by
  have hnode : BuiltinSet.node? [documentName] =
      some (.file (.document BuiltinSet.description BuiltinSet.descriptionText)) := rfl
  have hlookup := FileTree.lookup_builtin (h _ _ hnode) (by decide)
  have hpath : (⟨.builtin, []⟩ : Path) / Path.ofString documentName =
      ⟨.builtin, [documentName]⟩ := by decide
  have hdocument : files.loadDocument ⟨.builtin, [documentName]⟩ = .ok BuiltinSet.description := by
    rw [FileTree.loadDocument, FileTree.find?, hlookup]
    rfl
  have hload : files.loadWith ⟨.builtin, [documentName]⟩ (ofEntries ⟨.builtin, []⟩) =
      .ok (.ok .builtin) := by
    unfold FileTree.loadWith
    rw [hdocument]
    rfl
  simp only [load, hpath, hload]

/-! ## Pages -/

namespace BuiltinSet

theorem not_mem_toList_append {c : Char} {s t : String} :
    c ∉ (s ++ t).toList ↔ c ∉ s.toList ∧ c ∉ t.toList := by
  rw [String.toList_append, List.mem_append, not_or]

theorem not_mem_toList_ofList {c : Char} {l : List Char} (h : c ∉ l) :
    c ∉ (String.ofList l).toList := by
  rwa [String.toList_ofList]

/-- The built-in templates have line feeds for line ends, so they are read as they are written. -/
theorem templates_unified : ∀ s ∈ [classTemplate, parts, treeTemplate], '\r' ∉ s.toList := by
  unfold classTemplate parts treeTemplate
  -- the texts are looked at piece by piece: evaluated as a whole, they take too long
  refine List.forall_mem_cons.mpr
    ⟨?_, List.forall_mem_cons.mpr ⟨?_, List.forall_mem_singleton.mpr ?_⟩⟩
  all_goals
    simp only [not_mem_toList_append, -String.reduceAppend]
    repeat' apply And.intro
    all_goals exact not_mem_toList_ofList (by decide)

end BuiltinSet

namespace Template

theorem ofText_classTemplate : ofText BuiltinSet.classTemplate = .classPage := if_pos rfl

theorem ofText_treeTemplate : ofText BuiltinSet.treeTemplate = .treePage := by
  have hne : BuiltinSet.treeTemplate ≠ BuiltinSet.classTemplate := by decide +kernel
  rw [ofText, if_neg hne, if_pos rfl]

theorem ofText_parts : ofText BuiltinSet.parts = .parts := by
  have hclass : BuiltinSet.parts ≠ BuiltinSet.classTemplate := by decide +kernel
  have htree : BuiltinSet.parts ≠ BuiltinSet.treeTemplate := by decide +kernel
  rw [ofText, if_neg hclass, if_neg htree, if_pos rfl]

end Template

namespace Renderer

variable {r : Renderer} {files : FileTree} {model : Model}

/-- The templates that the renderer uses are the built-in ones. -/
structure UsesBuiltin (r : Renderer) (files : FileTree) : Prop where
  classTemplate : r.find files r.set.classTemplate = .ok .classPage
  parts : r.findParts files = .ok true
  treeTemplate : r.find files r.set.treeTemplate = .ok .treePage

/-- A template of the built-in set is found by its name and read as what its text is. -/
theorem find_builtin (h : files.HoldsTemplates) (hset : r.set = .builtin) (name : String)
    (htemplate : name ∈ BuiltinSet.templateNames) {s : String}
    (hs : s ∈ [BuiltinSet.classTemplate, BuiltinSet.parts, BuiltinSet.treeTemplate])
    (hnode : BuiltinSet.node? [name] = some (.file (.text s))) :
    r.find files name = .ok (Template.ofText s) := by
  have htext : (Content.text s).text? = some s := by
    rw [Content.text?_text, Text.unifyLineEnds_of_not_mem (BuiltinSet.templates_unified s hs),
      String.ofList_toList]
  have hnames : ∀ name ∈ BuiltinSet.templateNames, namesTo? name = some [name] := by decide
  have hfollowed : ∀ name ∈ BuiltinSet.templateNames, name ≠ "." ∧ name ≠ ".." ∧
      name.utf8ByteSize ≤ FileTree.maxNameSize ∧
      FileTree.fault? ⟨.builtin, [name]⟩ = none := by decide
  have hlookup := FileTree.lookup_builtin (h name htemplate _ hnode) (hfollowed name htemplate)
  unfold find
  rw [hnames name htemplate, hset]
  simp only [TemplateSet.builtin, List.nil_append, hlookup, htext]

/-- Where the built-in templates are in their places, a renderer for the built-in set uses them. -/
theorem usesBuiltin (h : files.HoldsTemplates) (hset : r.set = .builtin) : r.UsesBuiltin files := by
  have hfind := @find_builtin r files h hset
  refine ⟨?_, ?_, ?_⟩
  · rw [hset, ← Template.ofText_classTemplate]
    exact hfind _ (by decide) List.mem_cons_self rfl
  · rw [findParts, hfind BuiltinSet.partsName (by decide)
      (List.mem_cons_of_mem _ List.mem_cons_self) rfl, Template.ofText_parts]
    rfl
  · rw [hset, ← Template.ofText_treeTemplate]
    exact hfind _ (by decide)
      (List.mem_cons_of_mem _ (List.mem_cons_of_mem _ List.mem_cons_self)) rfl

/-- The page of a class is rendered with the built-in template as `ClassPage` has it. -/
theorem value_renderClass (htemplate : r.find files r.set.classTemplate = .ok .classPage)
    (hparts : r.findParts files = .ok true) {c : ClassEntry} {parent : Option ClassEntry}
    (hparent : model.parent c = .ok parent) :
    (r.renderClass files model c).value = .ok (ClassPage.render r.extension model parent c) := by
  have htext : r.classText files model parent c =
      .ok (ClassPage.render r.extension model parent c) := by
    rw [classText, htemplate, hparts]
    rfl
  unfold renderClass
  rw [hparent]
  simp only [htext]
  rfl

/-- The tree page is rendered with the built-in template as `TreePage` has it. -/
theorem value_renderTree (htemplate : r.find files r.set.treeTemplate = .ok .treePage) :
    (r.renderTree files model).value =
      .ok (TreePage.render
        { directory := r.set.classDirectory, extension := r.extension } model) := by
  have htext : r.treeText files model =
      .ok (TreePage.render
        { directory := r.set.classDirectory, extension := r.extension } model) := by
    rw [treeText, htemplate]
    rfl
  unfold renderTree
  simp only [htext]
  rfl

end Renderer

end ClassReference
