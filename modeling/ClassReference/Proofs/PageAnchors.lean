import ClassReference.Proofs.BuiltinTemplates
import ClassReference.Proofs.SolidNames
import Mathlib.Tactic.Tauto

/-!
# Proofs: links to members and their anchors

A link to a member is written as the class, a number sign and the member. It is read so, because no
name has a blank in it, and leads to an anchor on the page of the class. The page has this anchor
for each member that the class shows, own or inherited (`Collection.links_meet_anchors`). Models
that are built from files are among those that this is said of
(`CommandLine.exists_history_of_buildModel`).
-/

namespace ClassReference

open Text Fragment

/-! ## Anchors of a page -/

theorem Fragment.write_infix {extension : String} {f : Fragment} {fs : List Fragment} (h : f ∈ fs) :
    (f.write extension).toList <:+: (writeAll extension fs).toList := by
  obtain ⟨before, after, rfl⟩ := List.append_of_mem h
  rw [writeAll, String.toList_join, List.map_append, List.flatMap_append, List.map_cons,
    List.flatMap_cons, ← List.append_assoc]
  exact List.infix_append _ _ _

namespace ClassPage

variable {e : ClassEntry}

theorem anchor_mem_table {α : Type} (title column : String) (row : Member α → List Fragment)
    (hrow : ∀ m, rowStart e m ⊆ row m) {ms : List (Member α)} {m : Member α} (hm : m ∈ ms) :
    anchor e.name.full m.name ∈ table title column row ms := by
  have hne : ms.isEmpty = false := by
    cases ms with
    | nil => cases hm
    | cons => rfl
  have hanchor : anchor e.name.full m.name ∈ rowStart e m := by simp [rowStart]
  rw [table, hne, if_neg (by decide)]
  exact List.mem_append_left _
    (List.mem_cons_of_mem _ (List.mem_flatMap.mpr ⟨m, hm, hrow m hanchor⟩))

/-- The page of a class has an anchor for each member that it shows. -/
theorem anchor_mem_fragments (model : Model) (parent : Option ClassEntry) {k : MemberKind}
    {m : Member k.Detail} (hm : m ∈ e.members.ofKind k) :
    anchor e.name.full m.name ∈ fragments model parent e := by
  have hrow : ∀ {α : Type} (m : Member α) (s : String), rowStart e m ⊆
      rowStart e m ++ [text s] ++ rowEnd e m := by
    intro α m s
    simp
  simp only [fragments, List.mem_append, List.mem_cons]
  cases k with
  | cfg =>
    have htable := anchor_mem_table "Config Options" "Name" (cfgRow e) (fun m => hrow m _) hm
    tauto
  | property =>
    have htable :=
      anchor_mem_table "Public Properties" "Name" (propertyRow e) (fun m => hrow m _) hm
    tauto
  | method =>
    have htable := anchor_mem_table "Public Methods" "Method" (methodRow e) (fun m => hrow m _) hm
    tauto
  | event =>
    have htable := anchor_mem_table "Public Events" "Event" (eventRow e) (fun m => hrow m _) hm
    tauto

end ClassPage

/-! ## Links to members -/

namespace Link

theorem read?_member {full name : List Char} (hfull : full ≠ []) (hsharp : '#' ∉ full)
    (hsolid : Solid full) (hname : Solid name) (current : String) :
    read? (full ++ '#' :: name) current =
      some ⟨String.ofList full, some (String.ofList name), String.ofList
        (full ++ '.' :: name)⟩ := by
  have htarget : Solid (full ++ '#' :: name) :=
    List.forall_mem_append.mpr ⟨hsolid, List.forall_mem_cons.mpr ⟨by decide, hname⟩⟩
  have hsplit : splitWord (full ++ '#' :: name) = (full ++ '#' :: name, []) := by
    simpa using htarget.splitWord (u := []) (v := []) (by simp) (by simp [AllBlank])
      (by simp [AllBlank])
  obtain ⟨c, full, rfl⟩ := List.exists_cons_of_ne_nil hfull
  simp only [read?, hsplit, cutFirst_append hsharp]
  rfl

theorem href_infix_render (style : LinkStyle) (full name label : String) :
    ("href=\"" ++ full ++ "." ++ style.pageExtension ++ "#" ++ full ++ "-" ++ name ++
      "\"").toList <:+:
      (render style ⟨full, some name, label⟩).toList := by
  refine ⟨"<a ".toList,
    (" data-cls=\"" ++ full ++ "\" data-member=\"" ++ name ++ "\">" ++ label ++ "</a>").toList, ?_⟩
  simp only [render, pageName, anchorName, String.toList_append, List.append_assoc]
  rfl

end Link

namespace Collection

variable {config : Config} {history : List Call} {w : World} {model : Model}

/-- For every model that is built from sources, every link to a member of a class leads to where the
member is: the text of the link is read as the class and the member, its reference has the name of
the file in which the page of the class is written, and behind it the anchor that the member has on
this page. -/
theorem links_meet_anchors (h : answer config history .build w = .built (.ok model))
    (hwordy : ∀ a ∈ additionsOf history, a.Wordy) {c : ClassEntry} (hc : c ∈ model.classes)
    (hne : c.name.full ≠ "") (hsharp : '#' ∉ c.name.full.toList) {k : MemberKind}
    {m : Member k.Detail} (hm : m ∈ c.members.ofKind k) (style : LinkStyle) (site : Site)
    (hextension : style.pageExtension = site.renderer.extension) (files : FileTree)
    (htemplate : site.renderer.find files site.renderer.set.classTemplate = .ok .classPage)
    (hparts : site.renderer.findParts files = .ok true) :
    (∀ current, ∃ link, Link.read? (c.name.full ++ "#" ++ m.name).toList current = some link ∧
      link.className = c.name.full ∧ link.memberName = some m.name ∧
      ("href=\"" ++ c.name.full ++ "." ++ style.pageExtension ++ "#" ++ c.name.full ++ "-" ++
        m.name ++ "\"").toList <:+:
        (link.render style).toList) ∧
    (∃ page, (site.renderer.renderClass files model c).value = .ok page ∧
      ("id=\"" ++ c.name.full ++ "-" ++ m.name ++ "\"").toList <:+: page.toList) ∧
    site.pagePath c.name.full =
      site.classDirectory / Path.ofString (c.name.full ++ "." ++ style.pageExtension) := by
  refine ⟨?_, ?_, ?_⟩
  · intro current
    have hfull : c.name.full.toList ≠ [] := by simpa using hne
    have hread :=
      Link.read?_member hfull hsharp (solid_className h hc)
      (solid_memberName h hwordy hc hm) current
    rw [String.ofList_toList, String.ofList_toList] at hread
    have htext : (c.name.full ++ "#" ++ m.name).toList =
        c.name.full.toList ++ '#' :: m.name.toList := by simp
    exact ⟨_, htext ▸ hread, rfl, rfl, Link.href_infix_render style _ _ _⟩
  · have hparent := Hierarchy.parent_listed (listed_of_answer h).1 hc model.tree
    refine ⟨_, Renderer.value_renderClass htemplate hparts hparent, ?_⟩
    have hanchor := ClassPage.anchor_mem_fragments model (c.parentName.bind model.get?) hm
    have hwrite : (anchor c.name.full m.name).write site.renderer.extension =
        "id=\"" ++ c.name.full ++ "-" ++ m.name ++ "\"" := by
      simp only [write, anchorName, String.append_assoc]
    rw [← hwrite]
    exact write_infix hanchor
  · rw [hextension]
    rfl

/-- A class with a method that the code names, and a class below it. -/
def inheritedRun : Addition :=
  .source ("/** @class Base */\n/** Starts. */\nrun: function() {}\n"
    ++ "/** @class Leaf\n * @extends Base\n */\n") "a.js"

def inheritedRunMethod : Method where
  name := "run"
  owner := ⟨"Base", "Base"⟩
  description := { long := "Starts.", short := some "Starts." }
  detail := {}

def inheritedRunCatalog : Catalog where
  classes := [{ name := ⟨"Base", "Base"⟩, definedIn := "a.js" },
    { name := ⟨"Leaf", "Leaf"⟩, definedIn := "a.js", parentName := some "Base" }]
  members := { methods := [inheritedRunMethod] }

def inheritedRunBase : ClassEntry where
  name := ⟨"Base", "Base"⟩
  definedIn := "a.js"
  members := { methods := [inheritedRunMethod] }
  subClasses := [⟨"Leaf", "Leaf"⟩]

def inheritedRunLeaf : ClassEntry where
  name := ⟨"Leaf", "Leaf"⟩
  definedIn := "a.js"
  parentName := some "Base"
  members := { methods := [inheritedRunMethod] }
  superClasses := [⟨"Base", "Base"⟩]
  parentIndex := some 0

def inheritedRunModel : Model where
  classes := [inheritedRunBase, inheritedRunLeaf]
  tree := Package.ofClasses [inheritedRunBase, inheritedRunLeaf]

/-- A site with the built-in templates. -/
def plainSite : Site where
  directory := ⟨.working, ["site"]⟩
  renderer := { set := .builtin, extension := "html" }

theorem inheritedRun_linked :
    answer {} [.add inheritedRun] .build noFiles = .built (.ok inheritedRunModel) ∧
    inheritedRunMethod ∈ inheritedRunLeaf.members.ofKind .method ∧
    (∃ link, Link.read? ("Leaf" ++ "#" ++ "run").toList "Base" = some link ∧
      link.className = "Leaf" ∧ link.memberName = some "run" ∧
      ("href=\"" ++ "Leaf" ++ "." ++ "html" ++ "#" ++ "Leaf" ++ "-" ++ "run" ++ "\"").toList <:+:
        (link.render {}).toList) ∧
    (∃ page, (plainSite.renderer.renderClass (BuiltinSet.install ⟨[], []⟩)
          inheritedRunModel inheritedRunLeaf).value =
        .ok page ∧ ("id=\"" ++ "Leaf" ++ "-" ++ "run" ++ "\"").toList <:+: page.toList) ∧
    plainSite.pagePath "Leaf" =
      plainSite.classDirectory / Path.ofString ("Leaf" ++ "." ++ "html") := by
  have hfound : (start {}).contribution inheritedRun = .ok inheritedRunCatalog := by decide +kernel
  have hlisted : (Hierarchy.resolve {} inheritedRunCatalog).value.outcome =
      .ok inheritedRunModel.classes := by cbv
  have hanswer : answer {} [.add inheritedRun] .build noFiles = .built (.ok inheritedRunModel) := by
    rw [answer_build, held_singleton hfound]
    change Answer.built ((Hierarchy.resolve {} inheritedRunCatalog).value.outcome.map _) = _
    rw [hlisted]
    rfl
  have hwordy : ∀ a ∈ additionsOf [Call.add inheritedRun], a.Wordy := by
    intro a ha
    obtain rfl := List.mem_singleton.mp ha
    exact Addition.wordy_source _ _
  have hfiles : (BuiltinSet.install ⟨[], []⟩).HoldsBuiltin := FileTree.holdsBuiltin_install _
  have huses := @Renderer.usesBuiltin plainSite.renderer _ hfiles.templates rfl
  have hm : inheritedRunMethod ∈ inheritedRunLeaf.members.ofKind .method :=
    List.mem_singleton_self _
  obtain ⟨hlink, hpage, hpath⟩ :=
    links_meet_anchors hanswer hwordy (c := inheritedRunLeaf) (by simp [inheritedRunModel])
    (by decide) (by decide) hm {} plainSite rfl _ huses.classTemplate huses.parts
  exact ⟨hanswer, hm, hlink "Base", hpage, hpath⟩

end Collection

end ClassReference
