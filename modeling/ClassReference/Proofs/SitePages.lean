import ClassReference.Proofs.PageAnchors
import ClassReference.Proofs.PageLinks
import ClassReference.Proofs.SiteWriting

/-!
# Proofs: which class pages stay

Class names are joined to paths unchecked, so that the pages of several classes may go to one file,
or a page to the file of the tree page. Pages have different titles, so a class keeps its page
exactly if nothing else goes to its file after it (`Collection.pages_kept`). Without slashes in
class names and extension, all classes keep their pages.
-/

namespace ClassReference

open Text

/-! ## Titles -/

/-- The page has the title. -/
def HasTitle (page title : String) : Prop :=
  ("<!DOCTYPE html>\n<html>\n<head>\n  <meta charset=\"utf-8\">\n  <title>" ++
    (title ++ "</title>\n")).toList <+:
    page.toList

theorem HasTitle.unique {page a b : String} (ha : HasTitle page a) (hb : HasTitle page b)
    (hna : '\n' ∉ a.toList) (hnb : '\n' ∉ b.toList) : a = b := by
  have hend : "</title>\n".toList = "</title>".toList ++ ['\n'] := by decide
  have hline : ∀ {title : List Char}, '\n' ∉ title → '\n' ∉ title ++ "</title>".toList :=
    fun h => List.not_mem_append h (by decide)
  obtain ⟨rest, ha⟩ := ha
  obtain ⟨rest', hb⟩ := hb
  have hlists := ha.trans hb.symm
  simp only [String.toList_append, hend, List.append_assoc, List.append_cancel_left_eq,
    List.singleton_append] at hlists
  rw [← List.append_assoc, ← List.append_assoc] at hlists
  -- a title ends with its line
  have hcut := congrArg (cutFirst '\n') hlists
  rw [cutFirst_append (hline hna), cutFirst_append (hline hnb)] at hcut
  exact String.toList_inj.mp (List.append_cancel_right (Prod.mk.inj hcut).1)

theorem Text.Solid.no_line_end {s : List Char} (h : Solid s) : '\n' ∉ s := by
  intro hmem
  have hblank := h _ hmem
  revert hblank
  decide

theorem ClassPage.hasTitle_render (extension : String) (model : Model) (parent : Option ClassEntry)
    (e : ClassEntry) : HasTitle (render extension model parent e) e.name.full := by
  obtain ⟨fs, hfs⟩ : ∃ fs, fragments model parent e = Fragment.text (head e) :: fs := ⟨_, rfl⟩
  have hrender : render extension model parent e = head e ++ Fragment.writeAll extension fs := by
    rw [render, hfs, Fragment.writeAll, List.map_cons, String.join_cons]
    rfl
  unfold HasTitle
  simp only [hrender]
  unfold head
  simp only [String.toList_append, List.append_assoc, List.prefix_append_right_inj]
  exact List.IsPrefix.trans (by decide) (List.prefix_append _ _)

theorem TreePage.hasTitle_render (t : Target) (model : Model) :
    HasTitle (render t model) "API Documentation" := by
  unfold HasTitle render
  simp only [String.toList_append, List.append_assoc, List.prefix_append_right_inj]
  exact List.IsPrefix.trans (by decide) (List.prefix_append _ _)

/-! ## Names without slashes -/

namespace FileTree

variable {t : FileTree}

/-- A name without slashes is followed as one step. -/
theorem target_div_ofString (t : FileTree) (p : Path) {n : String} (hslash : '/' ∉ n.toList)
    (hne : n ≠ "") : t.target (p / Path.ofString n) = nameStep (t.target p) n := by
  have hparts : Path.partsOf n.toList = if n = "." then [] else [n] := by
    rw [Path.partsOf, segments_of_not_mem hslash]
    split <;> simp_all
  have hread : Path.ofString n = if n = "." then ⟨.working, []⟩ else
      if n = Path.builtinName then ⟨.builtin, []⟩ else ⟨.working, [n]⟩ := by
    unfold Path.ofString
    split
    · simp_all
    · simp_all
    · simp_all
    · rw [hparts]
      by_cases hdot : n = "."
      · simp only [if_pos hdot]
      · simp only [if_neg hdot]
  rw [hread]
  split
  · rename_i hdot
    change t.target { p with parts := p.parts ++ [] } = _
    rw [List.append_nil, nameStep, if_pos hdot]
  · split
    · rename_i hname
      change t.target { p with parts := p.parts ++ [Path.builtinName] } = _
      rw [target, List.foldl_concat, hname]
      rfl
    · change t.target { p with parts := p.parts ++ [n] } = _
      rw [target, List.foldl_concat]
      rfl

/-- From a directory that is not the root, different names lead to different locations. -/
theorem nameStep_injective {l : Location} (hl : l ≠ []) : Function.Injective (nameStep l) := by
  intro a b h
  have hlength : 0 < l.length := List.length_pos_iff.mpr hl
  -- a name leads nowhere, up or down, and the lengths tell which
  have hsize : ∀ n, (nameStep l n).length =
      if n = "." then l.length else if n = ".." then l.length - 1 else l.length + 1 := by
    intro n
    unfold nameStep
    split_ifs <;> simp
  have hsame := (hsize a).symm.trans (h ▸ hsize b)
  unfold nameStep at h
  split_ifs at h hsame with ha hb hb' ha' hb hb' hb hb' <;> first | omega | skip
  · exact ha.trans hb.symm
  · exact ha'.trans hb'.symm
  · exact List.singleton_inj.mp (List.append_cancel_left h)

end FileTree

namespace Site

variable {s : Site} {model : Model} {w w' : World}

/-- Nothing goes to the file of the page of a class after it: not the page of a class behind it, and
not the tree. -/
def Undisturbed (s : Site) (model : Model) (t : FileTree) (c : ClassEntry) : Prop :=
  t.target (s.pagePath c.name.full) ≠ t.target s.treePath ∧
    ∀ d ∈ model.classes, c.name.full < d.name.full →
      t.target (s.pagePath d.name.full) ≠ t.target (s.pagePath c.name.full)

theorem target_pagePath (hset : s.renderer.set = .builtin) (t : FileTree) {full : String}
    (hfull : '/' ∉ full.toList) (hextension : '/' ∉ s.renderer.extension.toList) :
    t.target (s.pagePath full) =
      FileTree.nameStep (t.target s.directory ++ ["output"])
        (pageName s.renderer.extension full) := by
  have hslash : '/' ∉ (pageName s.renderer.extension full).toList := by
    simp [pageName, hfull, hextension]
  have hne : pageName s.renderer.extension full ≠ "" := by
    intro h
    have hlist := congrArg String.toList h
    simp [pageName] at hlist
  rw [pagePath, FileTree.target_div_ofString t _ hslash hne, classDirectory_eq hset,
    FileTree.target_append (by simp [FileTree.Plain])]

/-- Without slashes in names and extension, no page goes to the file of another or to that of the
tree. -/
theorem undisturbed_of_no_slash (hset : s.renderer.set = .builtin)
    (hextension : '/' ∉ s.renderer.extension.toList)
    (hnames : ∀ c ∈ model.classes, '/' ∉ c.name.full.toList) (t : FileTree) {c : ClassEntry}
    (hc : c ∈ model.classes) : s.Undisturbed model t c := by
  have htarget := fun d (hd : d ∈ model.classes) => target_pagePath hset t (hnames d hd) hextension
  refine ⟨?_, ?_⟩
  · rw [htarget c hc, treePath_eq hset, FileTree.target_append (by simp [FileTree.Plain]),
      FileTree.nameStep]
    split_ifs <;> simp
  · intro d hd hlt heq
    rw [htarget c hc, htarget d hd] at heq
    have hname := pageName_injective _ (FileTree.nameStep_injective (by simp) heq)
    rw [hname] at hlt
    exact lt_irrefl _ hlt

/-! ## Pages that stay -/

theorem lastAt_eq_some_iff (hsorted : model.classes.Pairwise fun a b => a.name.full < b.name.full)
    {t : FileTree} {l : Location} {c : ClassEntry} :
    s.lastAt t l model.classes = some c ↔
      c ∈ model.classes ∧ t.target (s.pagePath c.name.full) = l ∧
      ∀ d ∈ model.classes, c.name.full < d.name.full → t.target (s.pagePath d.name.full) ≠ l := by
  unfold lastAt
  generalize hthere : model.classes.filter (fun c => t.target (s.pagePath c.name.full) = l) = there
  have hmem : ∀ d, d ∈ there ↔ d ∈ model.classes ∧ t.target (s.pagePath d.name.full) = l := by
    intro d
    rw [← hthere, List.mem_filter, decide_eq_true_eq]
  have horder : there.Pairwise fun a b => a.name.full < b.name.full := hthere ▸ hsorted.filter _
  constructor
  · intro hlast
    obtain ⟨before, rfl⟩ := List.getLast?_eq_some_iff.mp hlast
    have hbefore := (List.pairwise_append.mp horder).2.2
    obtain ⟨hc, hcl⟩ := (hmem c).mp (List.mem_append_right _ (List.mem_singleton_self c))
    refine ⟨hc, hcl, fun d hd hlt hdl => ?_⟩
    rcases List.mem_append.mp ((hmem d).mpr ⟨hd, hdl⟩) with hd' | hd'
    · exact lt_asymm hlt (hbefore d hd' c (List.mem_singleton_self c))
    · rw [List.mem_singleton.mp hd'] at hlt
      exact lt_irrefl _ hlt
  · rintro ⟨hc, hcl, hbehind⟩
    have hthere_c := (hmem c).mpr ⟨hc, hcl⟩
    rcases there.eq_nil_or_concat' with rfl | ⟨before, e, rfl⟩
    · cases hthere_c
    · rw [List.getLast?_concat]
      rcases List.mem_append.mp hthere_c with hbefore | hlast
      · obtain ⟨he, hel⟩ := (hmem e).mp (List.mem_append_right _ (List.mem_singleton_self e))
        have hlt := (List.pairwise_append.mp horder).2.2 c hbefore e (List.mem_singleton_self e)
        exact absurd hel (hbehind e he hlt)
      · rw [List.mem_singleton.mp hlast]

theorem full_eq_of_pageText_eq {c d : ClassEntry} (hc : Solid c.name.full.toList)
    (hd : Solid d.name.full.toList) (h : s.pageText model c = s.pageText model d) :
    c.name.full = d.name.full := by
  have htitle : HasTitle (s.pageText model c) c.name.full := ClassPage.hasTitle_render _ _ _ _
  have htitle' : HasTitle (s.pageText model d) d.name.full := ClassPage.hasTitle_render _ _ _ _
  exact htitle.unique (h ▸ htitle') hc.no_line_end hd.no_line_end

theorem pageText_ne_treeText {c : ClassEntry} (hc : Solid c.name.full.toList) :
    s.pageText model c ≠ s.treeText model := by
  intro h
  have htitle : HasTitle (s.pageText model c) c.name.full := ClassPage.hasTitle_render _ _ _ _
  have htitle' : HasTitle (s.treeText model) "API Documentation" := TreePage.hasTitle_render _ _
  have hname := htitle.unique (h ▸ htitle') hc.no_line_end (by decide)
  -- the title of the tree page has a blank in it
  have hblank := hc ' ' (by rw [hname]; decide)
  revert hblank
  decide

theorem Written.read_page {c : ClassEntry} (h : s.Written model w w') (hc : c ∈ model.classes)
    {text : String}
    (hget : w'.files.get? (w.files.target (s.pagePath c.name.full)) = some (.file (.text text))) :
    w'.files.read (s.pagePath c.name.full) = .ok (.text text) := by
  have hlocate := h.locate c hc
  rw [← h.keeps.files.target] at hget hlocate
  exact (FileTree.Holds.mk hlocate hget).read

theorem Written.get?_tree (h : s.Written model w w') :
    w'.files.get? (w.files.target s.treePath) = some (.file (.text (s.treeText model))) := by
  rw [← h.keeps.files.target]
  exact h.tree.content

/-- When a site was written, a class has its page if and only if nothing else went to its file
later. -/
theorem Written.read_page_iff (h : s.Written model w w')
    (hsorted : model.classes.Pairwise fun a b => a.name.full < b.name.full)
    (hsolid : ∀ c ∈ model.classes, Solid c.name.full.toList) {c : ClassEntry}
    (hc : c ∈ model.classes) :
    w'.files.read (s.pagePath c.name.full) = .ok (.text (s.pageText model c)) ↔
      s.Undisturbed model w.files c := by
  constructor
  · intro hkept
    have htree : w.files.target (s.pagePath c.name.full) ≠ w.files.target s.treePath := by
      intro hsame
      have htext := h.read_page hc (hsame ▸ h.get?_tree)
      rw [hkept] at htext
      exact pageText_ne_treeText (hsolid c hc) (Content.text.inj (Except.ok.inj htext))
    refine ⟨htree, fun d hd hlt hdl => ?_⟩
    -- the file holds the page of the last class that goes there, which is not this one
    have hne : s.lastAt w.files (w.files.target (s.pagePath c.name.full)) model.classes ≠ none := by
      rw [lastAt, ne_eq, List.getLast?_eq_none_iff]
      exact List.ne_nil_of_mem (List.mem_filter.mpr ⟨hc, decide_eq_true rfl⟩)
    obtain ⟨e, he⟩ := Option.ne_none_iff_exists'.mp hne
    obtain ⟨hemem, -, hbehind⟩ := (lastAt_eq_some_iff hsorted).mp he
    have htext := h.read_page hc (h.content _ e htree he)
    rw [hkept] at htext
    have hname :=
      full_eq_of_pageText_eq (hsolid c hc) (hsolid e hemem) (Content.text.inj (Except.ok.inj htext))
    exact hbehind d hd (hname ▸ hlt) hdl
  · rintro ⟨htree, hbehind⟩
    exact h.read_page hc (h.content _ c htree ((lastAt_eq_some_iff hsorted).mpr ⟨hc, rfl, hbehind⟩))

end Site

namespace Collection

variable {config : Config} {history : List Call} {w₀ w w' : World} {model : Model} {s : Site}

theorem namesParents_of_answer (h : answer config history .build w₀ = .built (.ok model)) :
    Site.NamesParents model :=
  fun _ hc => Hierarchy.parent_listed (listed_of_answer h).1 hc model.tree

theorem read_page_iff_of_answer (h : answer config history .build w₀ = .built (.ok model))
    (hwritten : s.Written model w w') {c : ClassEntry} (hc : c ∈ model.classes) :
    w'.files.read (s.pagePath c.name.full) = .ok (.text (s.pageText model c)) ↔
      s.Undisturbed model w.files c :=
  hwritten.read_page_iff (Hierarchy.sorted_listed (listed_of_answer h).1)
    (fun _ hd => solid_className h hd) hc

/-- For every model that is built from sources, if its site is written with the built-in templates
into any directory, and no page goes to a template or log file, then the tree page is in its file,
and a class has its page if and only if neither the page of a class behind it nor the tree page goes
to the same file. Without slashes in the names of classes and in the extension, all classes have
their pages. -/
theorem pages_kept (h : answer config history .build w₀ = .built (.ok model))
    (hfiles : w.files.HoldsBuiltin) (hplain : w.files.PlainNames)
    (hset : TemplateSet.load w.files ⟨.builtin, []⟩ = .ok s.renderer.set) (hapart : s.Apart model w)
    (hreturns : (s.write model).Returns w () w') :
    (∃ page, (s.renderer.renderTree w.files model).value = .ok page ∧
      w'.files.read s.treePath = .ok (.text page)) ∧
    (∀ c ∈ model.classes, ∃ page, (s.renderer.renderClass w.files model c).value = .ok page ∧
      (w'.files.read (s.pagePath c.name.full) = .ok (.text page) ↔ s.Undisturbed model w.files c)) ∧
    ('/' ∉ s.renderer.extension.toList → (∀ c ∈ model.classes, '/' ∉ c.name.full.toList) →
      ∀ c ∈ model.classes, s.Undisturbed model w.files c) := by
  have hbuiltin : s.renderer.set = .builtin :=
    Except.ok.inj (hset.symm.trans (TemplateSet.load_builtin hfiles))
  have hparents := namesParents_of_answer h
  have hwritten := Site.written_of_returns hapart hfiles.templates hplain hbuiltin hparents hreturns
  refine ⟨⟨_, Site.value_renderTree hfiles.templates hbuiltin, hwritten.tree.read⟩,
    fun c hc => ?_, ?_⟩
  · exact ⟨_, Site.value_renderClass hfiles.templates hbuiltin (hparents c hc),
      read_page_iff_of_answer h hwritten hc⟩
  · intro hextension hnames c hc
    exact Site.undisturbed_of_no_slash hbuiltin hextension hnames w.files hc

/-- Three classes whose pages go to two files, one of them that of the tree page. -/
def crossingPages : Addition :=
  .source "/** @class ../index */\n/** @class ./A */\n/** @class A */\n" "a.js"

def crossingIndex : ClassEntry where
  name := ⟨"../index", "/index"⟩
  packageName := "."
  definedIn := "a.js"

def crossingDotted : ClassEntry where
  name := ⟨"./A", "/A"⟩
  definedIn := "a.js"

def crossingPlain : ClassEntry where
  name := ⟨"A", "A"⟩
  definedIn := "a.js"

def crossingModel : Model where
  classes := [crossingIndex, crossingDotted, crossingPlain]
  tree := Package.ofClasses [crossingIndex, crossingDotted, crossingPlain]

theorem answer_crossingPages :
    answer {} [.add crossingPages] .build noFiles = .built (.ok crossingModel) := by
  have hfound :
      (start {}).contribution crossingPages = .ok { classes := crossingModel.classes } := by
    decide +kernel
  have hlisted : (Hierarchy.resolve {} { classes := crossingModel.classes }).value.outcome =
      .ok crossingModel.classes := by cbv
  rw [answer_build, held_singleton hfound]
  change Answer.built
    ((Hierarchy.resolve {} { classes := crossingModel.classes }).value.outcome.map _) = _
  rw [hlisted]
  rfl

/-- A working directory, and the built-in templates. -/
def emptyWork : World where
  files := BuiltinSet.install (FileTree.atWorking ["work"])

theorem holdsBuiltin_emptyWork : emptyWork.files.HoldsBuiltin :=
  FileTree.holdsBuiltin_install (FileTree.atWorking ["work"])

theorem quiet_emptyWork : emptyWork.Quiet := by
  rintro l ⟨handler, hhandler, -⟩
  cases hhandler

theorem plainNames_emptyWork : emptyWork.files.PlainNames := by
  have hentries : ∀ e ∈ emptyWork.files.entries, FileTree.Plain e.1 := by decide +kernel
  exact .of_entries (by decide +kernel) hentries

theorem apart_crossingPages : plainSite.Apart crossingModel emptyWork :=
  .of_quiet quiet_emptyWork (by decide +kernel)

/-- The working directory when the directories of the site are made. -/
def madeDirectories : FileTree :=
  (emptyWork.files.put ["work", "site"] .directory).put ["work", "site", "output"] .directory

/-- The working directory when the style sheet is copied, too. -/
def copiedStyle : FileTree :=
  ((madeDirectories.put ["work", "site", "resources"] .directory).put
    ["work", "site", "resources", "css"] .directory).put
    ["work", "site", "resources", "css", "apidoc.css"] (.file (.text BuiltinSet.styleSheet))

theorem belowPath_madeDirectories : madeDirectories.belowPath ⟨.builtin, ["resources"]⟩ =
    [(["css"], .directory), (["css", "apidoc.css"], .file (.text BuiltinSet.styleSheet))] := by
  have hlocate : madeDirectories.locate ⟨.builtin, ["resources"]⟩ =
      .ok [Path.builtinName, "resources"] := rfl
  have hdirectory : madeDirectories.isDirectory ⟨.builtin, ["resources"]⟩ = true := rfl
  unfold FileTree.belowPath
  rw [hlocate]
  simp only [hdirectory, if_true]
  exact List.mergeSort_of_pairwise (by decide)

theorem copyTree_madeDirectories :
    madeDirectories.copyTree ⟨.builtin, ["resources"]⟩ ⟨.working, ["site", "resources"]⟩ =
      (copiedStyle, none) := by
  unfold FileTree.copyTree
  rw [belowPath_madeDirectories]
  rfl

/-- The pages of the classes and the tree page can all be written. -/
theorem writes_crossingPages : ∃ t t', crossingModel.classes.foldlM (fun t c =>
      t.write (plainSite.pagePath c.name.full) (.text (plainSite.pageText crossingModel c)))
        copiedStyle = .ok t ∧
    t.ensureDirectories plainSite.directory = (t, none) ∧
    t.write plainSite.treePath (.text (plainSite.treeText crossingModel)) = .ok t' := by
  have hindex :
      plainSite.pagePath "../index" = ⟨.working, ["site", "output", "..", "index.html"]⟩ := by
    decide +kernel
  have hdotted : plainSite.pagePath "./A" = ⟨.working, ["site", "output", "A.html"]⟩ := by
    decide +kernel
  have hplain : plainSite.pagePath "A" = ⟨.working, ["site", "output", "A.html"]⟩ := by
    decide +kernel
  have htree : plainSite.treePath = ⟨.working, ["site", "index.html"]⟩ := by decide +kernel
  simp only [crossingModel, List.foldlM_cons, crossingIndex, crossingDotted, crossingPlain, hindex,
    hdotted, hplain, htree]
  exact ⟨_, _, rfl, rfl, rfl⟩

theorem written_crossingPages : ∃ w', (plainSite.write crossingModel).Returns emptyWork () w' ∧
    plainSite.Written crossingModel emptyWork w' := by
  have hparents := namesParents_of_answer answer_crossingPages
  have hclasses : plainSite.classDirectory = ⟨.working, ["site", "output"]⟩ := by decide +kernel
  obtain ⟨t, t', hpages, hagain, htree⟩ := writes_crossingPages
  have hdirectory : emptyWork.files.ensureDirectories plainSite.directory =
      (emptyWork.files.put ["work", "site"] .directory, none) := rfl
  have hleaves : (plainSite.write crossingModel).Leaves emptyWork () t' :=
    Site.leaves_write quiet_emptyWork apart_crossingPages holdsBuiltin_emptyWork
      plainNames_emptyWork rfl hparents hdirectory (hclasses ▸ rfl)
      copyTree_madeDirectories hpages hagain htree
  obtain ⟨w', hreturns, -, -⟩ := hleaves
  exact ⟨w', hreturns, Site.written_of_returns apart_crossingPages
    holdsBuiltin_emptyWork.templates plainNames_emptyWork rfl hparents hreturns⟩

theorem crossingPages_kept :
    answer {} [.add crossingPages] .build noFiles = .built (.ok crossingModel) ∧
    emptyWork.files.HoldsBuiltin ∧ emptyWork.files.PlainNames ∧
    TemplateSet.load emptyWork.files ⟨.builtin, []⟩ = .ok plainSite.renderer.set ∧
    plainSite.Apart crossingModel emptyWork ∧
    ∃ w', (plainSite.write crossingModel).Returns emptyWork () w' ∧
      (∃ page, (plainSite.renderer.renderTree emptyWork.files crossingModel).value = .ok page ∧
        w'.files.read plainSite.treePath = .ok (.text page)) ∧
      (∃ page,
        (plainSite.renderer.renderClass emptyWork.files crossingModel crossingPlain).value =
          .ok page ∧
        w'.files.read (plainSite.pagePath "A") = .ok (.text page)) ∧
      (∃ page,
        (plainSite.renderer.renderClass emptyWork.files crossingModel crossingDotted).value =
          .ok page ∧
        w'.files.read (plainSite.pagePath "./A") ≠ .ok (.text page)) := by
  obtain ⟨w', hreturns, -⟩ := written_crossingPages
  have hset := TemplateSet.load_builtin holdsBuiltin_emptyWork
  obtain ⟨htree, hpages, -⟩ :=
    pages_kept (s := plainSite) answer_crossingPages holdsBuiltin_emptyWork
    plainNames_emptyWork hset apart_crossingPages hreturns
  refine ⟨answer_crossingPages, holdsBuiltin_emptyWork, plainNames_emptyWork, hset,
    apart_crossingPages, w', hreturns,
    htree, ?_, ?_⟩
  · obtain ⟨page, hrender, hkept⟩ := hpages crossingPlain (by simp [crossingModel])
    have hundisturbed : plainSite.Undisturbed crossingModel emptyWork.files crossingPlain := by
      unfold Site.Undisturbed
      decide +kernel
    exact ⟨page, hrender, hkept.mpr hundisturbed⟩
  · obtain ⟨page, hrender, hkept⟩ := hpages crossingDotted (by simp [crossingModel])
    have hdisturbed : ¬ plainSite.Undisturbed crossingModel emptyWork.files crossingDotted := by
      unfold Site.Undisturbed
      decide +kernel
    exact ⟨page, hrender, fun hread => hdisturbed (hkept.mp hread)⟩

/-- The page of a class whose name leads up to the tree page is lost: its file holds the tree
page. -/
theorem crossingPages_lost :
    answer {} [.add crossingPages] .build noFiles = .built (.ok crossingModel) ∧
    ∃ w', (plainSite.write crossingModel).Returns emptyWork () w' ∧
      (∃ page,
        (plainSite.renderer.renderClass emptyWork.files crossingModel crossingIndex).value =
          .ok page ∧
        w'.files.read (plainSite.pagePath "../index") ≠ .ok (.text page)) ∧
      ∃ page, (plainSite.renderer.renderTree emptyWork.files crossingModel).value = .ok page ∧
        w'.files.read (plainSite.pagePath "../index") = .ok (.text page) := by
  obtain ⟨w', hreturns, hwritten⟩ := written_crossingPages
  have hindex : crossingIndex ∈ crossingModel.classes := by simp [crossingModel]
  have hparent := namesParents_of_answer answer_crossingPages _ hindex
  have hsame : emptyWork.files.target (plainSite.pagePath "../index") =
      emptyWork.files.target plainSite.treePath := by
    decide +kernel
  refine ⟨answer_crossingPages, w', hreturns,
    ⟨_, Site.value_renderClass holdsBuiltin_emptyWork.templates rfl hparent, ?_⟩,
    ⟨_, Site.value_renderTree holdsBuiltin_emptyWork.templates rfl, ?_⟩⟩
  · intro hread
    exact ((read_page_iff_of_answer answer_crossingPages hwritten hindex).mp hread).1 hsame
  · exact hwritten.read_page hindex (hsame ▸ hwritten.get?_tree)

end Collection

end ClassReference
