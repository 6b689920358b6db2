import ClassReference.Proofs.BuiltinTemplates
import ClassReference.Proofs.Runs

/-!
# Proofs: what writing a site does to the files

Directories and resources are never put in the place of a template. If no page is either
(`Site.Apart`), the templates stay as they are, and each page is rendered with them. Pages are
written one after the other, so that a file that several pages go to holds the last of them
(`Site.Written`).
-/

namespace ClassReference

/-! ## Away from the templates -/

/-- The location is not that of a template of the built-in set. -/
def Spared (l : Location) : Prop :=
  ∀ name ∈ BuiltinSet.templateNames, l ≠ FileTree.builtinLocation ++ [name]

instance : DecidablePred Spared :=
  fun l => inferInstanceAs
    (Decidable (∀ name ∈ BuiltinSet.templateNames, l ≠ FileTree.builtinLocation ++ [name]))

/-- There is no template behind a name that is neither that of the directory of templates nor that
of a template. -/
theorem spared_append (l : Location) {n : String} (hn : n ≠ Path.builtinName)
    (htemplate : n ∉ BuiltinSet.templateNames) (names : Location) : Spared (l ++ n :: names) := by
  intro name hname heq
  match l with
  | [] => exact hn (List.cons.inj heq).1
  | [m] =>
    have hn' := (List.cons.inj (List.cons.inj heq).2).1
    exact htemplate (hn' ▸ hname)
  | m :: m' :: l =>
    have hlength := congrArg List.length heq
    simp [FileTree.builtinLocation] at hlength

namespace FileTree

variable {t t' : FileTree} {touched : Location → Prop}

theorem HoldsTemplates.spared (h : t.HoldsTemplates) {l : Location} (hl : t.get? l = none) :
    Spared l := by
  rintro name hname rfl
  have hsome : ∀ name ∈ BuiltinSet.templateNames, (BuiltinSet.node? [name]).isSome := by decide
  obtain ⟨n, hn⟩ := Option.isSome_iff_exists.mp (hsome name hname)
  rw [h name hname n hn] at hl
  cases hl

/-- The templates stay in their places while only spared locations are touched. -/
theorem HoldsTemplates.of_keeps (h : t.HoldsTemplates) (hk : Keeps touched t t')
    (hout : ∀ l, touched l → Spared l) : t'.HoldsTemplates :=
  fun name hname n hn => (hk.other _ fun hl => hout _ hl name hname rfl).trans (h name hname n hn)

theorem HoldsTemplates.kept (h : t.HoldsTemplates) (hk : Keeps Spared t t') : t'.HoldsTemplates :=
  h.of_keeps hk fun _ hl => hl

end FileTree

/-! ## Steps -/

namespace Site

variable {s : Site} {model : Model} {w w' : World} {u : Unit}

/-- Making sure of a directory fills in nothing but what is missing. -/
theorem keeps_ensure {p : Path} (h : (ensure p).Returns w u w') :
    w.Keeps (w.files.Missing p) w' := by
  obtain ⟨-, rfl⟩ := Run.returns_change.mp (Run.returns_adapt.mp h)
  exact ⟨rfl, FileTree.keeps_ensureDirectories _ _⟩

/-- Writing a text touches one location, and the file there holds the text. -/
theorem keeps_writeText {p : Path} {text : String} (h : (writeText p text).Returns w u w') :
    w.Keeps (· = w.files.target p) w' ∧ w'.files.Holds p (.text text) := by
  obtain ⟨hdone, rfl⟩ := Run.returns_change.mp (Run.returns_adapt.mp h)
  unfold FileTree.writeOver at hdone ⊢
  cases hwrite : w.files.write p (.text text) with
  | error e =>
    rw [hwrite] at hdone
    cases hdone
  | ok t => exact ⟨⟨rfl, FileTree.keeps_write hwrite⟩, FileTree.holds_of_write hwrite⟩

/-- Copying a resource touches the log files, what is missing and the places of its entries. -/
theorem keeps_copyResource (hlogs : w.HasLogFiles) {resource : Resource} {p src dst : Path}
    (hsrc : s.renderer.set.directory / Path.ofString resource.source = src)
    (hdst : s.directory / Path.ofString resource.target = dst)
    (h : (s.copyResource resource).Returns w p w') :
    w.Keeps (fun l => w.LogsTo l ∨ w.files.get? l = none ∨
      ∃ e ∈ w.files.belowPath src, w.files.CopiedTo dst e.1 l) w' := by
  unfold copyResource at h
  rw [hsrc, hdst] at h
  simp only [Run.returns_bind, Run.returns_files] at h
  obtain ⟨_, _, ⟨rfl, rfl⟩, h⟩ := h
  split at h
  · exact absurd h Run.returns_throw
  · simp only [Run.returns_bind, Run.returns_adapt, Run.returns_change, Run.returns_tell,
      Run.returns_pure] at h
    obtain ⟨_, _, ⟨-, rfl⟩, _, _, rfl, -, rfl⟩ := h
    have hcopy : w.Keeps (fun l => w.LogsTo l ∨ w.files.get? l = none ∨
        ∃ e ∈ w.files.belowPath src, w.files.CopiedTo dst e.1 l)
        { w with files := (w.files.copyTree src dst).1 } :=
      ⟨rfl, (FileTree.keeps_copyTree _ _ _).mono fun l hl => Or.inr hl⟩
    exact hcopy.trans
      ((World.keeps_send (hcopy.hasLogFiles hlogs) _).mono fun l hl => Or.inl (hcopy.logsTo.mp hl))
  · exact absurd h Run.returns_throw

/-! ## Places of a site -/

theorem div_name (p : Path) {s n : String} (h : Path.ofString s = ⟨.working, [n]⟩) :
    p / Path.ofString s = { p with parts := p.parts ++ [n] } := by
  rw [h]
  rfl

theorem classDirectory_eq (hset : s.renderer.set = .builtin) :
    s.classDirectory = { s.directory with parts := s.directory.parts ++ ["output"] } := by
  rw [classDirectory, hset]
  exact div_name _ (by decide)

theorem treePath_eq (hset : s.renderer.set = .builtin) :
    s.treePath = { s.directory with parts := s.directory.parts ++ ["index.html"] } := by
  rw [treePath, hset]
  exact div_name _ (by decide)

theorem parent_treePath (hset : s.renderer.set = .builtin) : s.treePath.parent = s.directory := by
  rw [treePath_eq hset, Path.parent, List.dropLast_concat]

/-- No page goes to the file of a template. Log files exist, and are neither templates nor pages. -/
structure Apart (s : Site) (model : Model) (w : World) : Prop where
  pages : ∀ c ∈ model.classes, Spared (w.files.target (s.pagePath c.name.full))
  logFiles : w.HasLogFiles
  logsSpared : ∀ l, w.LogsTo l → Spared l
  logsToNoPage : ∀ c ∈ model.classes, ¬ w.LogsTo (w.files.target (s.pagePath c.name.full))
  logsToNoTree : ¬ w.LogsTo (w.files.target s.treePath)

/-- What a site writes stays apart from templates and log files. -/
theorem Apart.of_keeps {touched : Location → Prop} (h : s.Apart model w) (hk : w.Keeps touched w') :
    s.Apart model w' where
  pages c hc := by
    rw [hk.files.target]
    exact h.pages c hc
  logFiles := hk.hasLogFiles h.logFiles
  logsSpared l hl := h.logsSpared l (hk.logsTo.mp hl)
  logsToNoPage c hc := by
    rw [hk.files.target, hk.logsTo]
    exact h.logsToNoPage c hc
  logsToNoTree := by
    rw [hk.files.target, hk.logsTo]
    exact h.logsToNoTree

theorem Apart.of_quiet (hquiet : w.Quiet)
    (hpages : ∀ c ∈ model.classes, Spared (w.files.target (s.pagePath c.name.full))) :
    s.Apart model w :=
  ⟨hpages, hquiet.hasLogFiles, fun l hl => absurd hl (hquiet l), fun _ _ => hquiet _, hquiet _⟩

/-! ## Before the pages -/

/-- Making the directories only fills in what is missing, and the templates are there. -/
theorem keeps_directories (hfiles : w.files.HoldsTemplates) (hplain : w.files.PlainNames)
    {w₁ : World} {u₁ u₂ : Unit} (hdirectory : (ensure s.directory).Returns w u₁ w₁)
    (hclasses : (ensure s.classDirectory).Returns w₁ u₂ w') :
    w.Keeps Spared w' ∧ w'.files.PlainNames := by
  have hk₁ := keeps_ensure hdirectory
  have hk₂ := keeps_ensure hclasses
  have hspared : w.Keeps Spared w₁ := hk₁.mono fun l hl => hfiles.spared hl.1
  have hfiles₁ := hfiles.kept hspared.files
  have hplain₁ := hk₁.files.plainNames hplain fun l hl => hl.2
  exact ⟨hspared.trans (hk₂.mono fun l hl => hfiles₁.spared hl.1),
    hk₂.files.plainNames hplain₁ fun l hl => hl.2⟩

/-- Resources go to files behind the name of their directory, where no template is. -/
theorem keeps_resources (h : s.Apart model w) (hfiles : w.files.HoldsTemplates)
    (hplain : w.files.PlainNames) (hset : s.renderer.set = .builtin) {ps : List Path}
    (hreturns : s.copyResources.Returns w ps w') : w.Keeps Spared w' := by
  unfold copyResources at hreturns
  rw [hset] at hreturns
  simp only [TemplateSet.builtin, List.mapM_cons, List.mapM_nil, Run.returns_bind,
    Run.returns_pure] at hreturns
  obtain ⟨p, _, hcopy, _, _, ⟨rfl, rfl⟩, -, rfl⟩ := hreturns
  have hdst := div_name s.directory (s := "resources") (n := "resources") (by decide)
  have hbehind : ∀ names, FileTree.Plain names → Spared (w.files.target
      { s.directory with parts := s.directory.parts ++ ["resources"] ++ names }) := by
    intro names hnames
    have hall : FileTree.Plain ("resources" :: names) :=
      List.forall_mem_cons.mpr ⟨by decide, hnames⟩
    rw [List.append_assoc, List.singleton_append, FileTree.target_append hall]
    exact spared_append _ (by decide) (by decide) names
  refine (keeps_copyResource h.logFiles rfl hdst hcopy).mono ?_
  rintro l (hl | hl | ⟨e, he, hl⟩)
  · exact h.logsSpared l hl
  · exact hfiles.spared hl
  · have hnames := hplain.mem_belowPath he
    rcases hl with rfl | rfl
    · exact hbehind e.1 hnames
    · exact hbehind _ (FileTree.plain_copied hnames)

/-! ## Pages -/

/-- The positions of parents are those of the classes that are named as parents. -/
def NamesParents (model : Model) : Prop :=
  ∀ c ∈ model.classes, model.parent c = .ok (c.parentName.bind model.get?)

/-- The text of the page of a class. -/
def pageText (s : Site) (model : Model) (c : ClassEntry) : String :=
  ClassPage.render s.renderer.extension model (c.parentName.bind model.get?) c

/-- The text of the tree page. -/
def treeText (s : Site) (model : Model) : String :=
  TreePage.render
    { directory := s.renderer.set.classDirectory, extension := s.renderer.extension } model

/-- A page is rendered from the templates that are in their places. -/
theorem value_renderClass {t : FileTree} (hfiles : t.HoldsTemplates)
    (hset : s.renderer.set = .builtin) {c : ClassEntry}
    (hparent : model.parent c = .ok (c.parentName.bind model.get?)) :
    (s.renderer.renderClass t model c).value = .ok (s.pageText model c) :=
  have huses := Renderer.usesBuiltin hfiles hset
  Renderer.value_renderClass huses.classTemplate huses.parts hparent

theorem value_renderTree {t : FileTree} (hfiles : t.HoldsTemplates)
    (hset : s.renderer.set = .builtin) :
    (s.renderer.renderTree t model).value = .ok (s.treeText model) :=
  Renderer.value_renderTree (Renderer.usesBuiltin hfiles hset).treeTemplate

/-- Writing the page of a class touches its file and the log files, and the file holds the page. -/
theorem writes_page (h : s.Apart model w) (hfiles : w.files.HoldsTemplates)
    (hset : s.renderer.set = .builtin) {c : ClassEntry}
    (hparent : model.parent c = .ok (c.parentName.bind model.get?))
    (hreturns : (s.writePage model c).Returns w u w') :
    w.Keeps (fun l => w.LogsTo l ∨ l = w.files.target (s.pagePath c.name.full)) w' ∧
      w'.files.Holds (s.pagePath c.name.full) (.text (s.pageText model c)) := by
  simp only [writePage, Run.returns_bind, Run.returns_tell, Run.returns_files, Run.returns_logged,
    Run.returns_result] at hreturns
  obtain ⟨_, w₁, hsaving, _, _, ⟨rfl, rfl⟩, _, w₂, ⟨rfl, hlog⟩, page, _, ⟨hpage, rfl⟩, hwrite⟩ :=
    hreturns
  have hk₁ : w.Keeps w.LogsTo w₁ := hsaving ▸ World.keeps_send h.logFiles _
  have hk₂ : w.Keeps w.LogsTo w₂ :=
    hk₁.trans (hlog ▸ (World.keeps_sendAll (hk₁.hasLogFiles h.logFiles) _).mono fun l hl =>
      hk₁.logsTo.mp hl)
  have hfiles₁ := hfiles.of_keeps hk₁.files h.logsSpared
  rw [value_renderClass hfiles₁ hset hparent] at hpage
  obtain rfl := Except.ok.inj hpage
  obtain ⟨hk₃, hholds⟩ := keeps_writeText hwrite
  refine ⟨(hk₂.mono fun l hl => Or.inl hl).trans (hk₃.mono fun l hl => Or.inr ?_), hholds⟩
  rw [hl, hk₂.files.target]

/-- The last of some classes whose page goes to a location. -/
def lastAt (s : Site) (t : FileTree) (l : Location) (cs : List ClassEntry) : Option ClassEntry :=
  (cs.filter fun c => t.target (s.pagePath c.name.full) = l).getLast?

theorem lastAt_concat (s : Site) (t : FileTree) (l : Location) (cs : List ClassEntry)
    (c : ClassEntry) :
    s.lastAt t l (cs ++ [c]) = if t.target (s.pagePath c.name.full) = l then some c
      else s.lastAt t l cs := by
  unfold lastAt
  rw [List.filter_append]
  split
  · rename_i hl
    simp [hl]
  · rename_i hl
    simp [hl]

/-- The last class whose page is written at a location is a class whose page is written there. -/
theorem mem_of_lastAt {t : FileTree} {l : Location} {cs : List ClassEntry} {c : ClassEntry}
    (h : s.lastAt t l cs = some c) : c ∈ cs ∧ t.target (s.pagePath c.name.full) = l := by
  have hmem := List.mem_filter.mp (List.mem_of_getLast? h)
  exact ⟨hmem.1, by simpa using hmem.2⟩

/-- The pages of some classes were written in their order: the paths of all of them lead somewhere,
and each file holds the last page that went to it. -/
structure PagesWritten (s : Site) (model : Model) (w₀ : World) (cs : List ClassEntry) (w : World) :
    Prop where
  keeps : w₀.Keeps Spared w
  locate : ∀ c ∈ cs, w.files.locate (s.pagePath c.name.full) =
    .ok (w₀.files.target (s.pagePath c.name.full))
  content : ∀ l c, s.lastAt w₀.files l cs = some c →
    w.files.get? l = some (.file (.text (s.pageText model c)))

theorem PagesWritten.start (h : w.Keeps Spared w') : s.PagesWritten model w [] w' :=
  ⟨h, fun _ hc => (nomatch hc), fun _ _ hlast => (nomatch hlast)⟩

/-- One more page is written, and those before it stay unless it is written over them. -/
theorem PagesWritten.page {w₀ : World} {cs : List ClassEntry} (h : s.PagesWritten model w₀ cs w)
    (hapart : s.Apart model w₀) (hfiles : w₀.files.HoldsTemplates)
    (hset : s.renderer.set = .builtin) (hcs : ∀ c ∈ cs, c ∈ model.classes) {c : ClassEntry}
    (hc : c ∈ model.classes) (hparent : model.parent c = .ok (c.parentName.bind model.get?))
    (hreturns : (s.writePage model c).Returns w u w') : s.PagesWritten model w₀ (cs ++ [c]) w' := by
  have hfiles' := hfiles.kept h.keeps.files
  obtain ⟨hk, hholds⟩ := writes_page (hapart.of_keeps h.keeps) hfiles' hset hparent hreturns
  have htarget : ∀ p, w'.files.target p = w₀.files.target p :=
    fun p => (hk.files.target p).trans (h.keeps.files.target p)
  refine ⟨h.keeps.trans (hk.mono ?_), ?_, ?_⟩
  · rintro l (hl | rfl)
    · exact hapart.logsSpared l (h.keeps.logsTo.mp hl)
    · rw [h.keeps.files.target]
      exact hapart.pages c hc
  · intro d hd
    rcases List.mem_append.mp hd with hd | hd
    · exact hk.files.locate (h.locate d hd)
    · obtain rfl := List.mem_singleton.mp hd
      rw [← htarget]
      exact hholds.locate
  · intro l d hlast
    rw [lastAt_concat] at hlast
    split at hlast
    · rename_i hl
      obtain rfl := Option.some.inj hlast
      rw [← hl, ← htarget]
      exact hholds.content
    · rename_i hl
      obtain ⟨hd, rfl⟩ := mem_of_lastAt hlast
      rw [hk.files.other, h.content _ d hlast]
      rintro (hlog | hsame)
      · exact hapart.logsToNoPage d (hcs d hd) (h.keeps.logsTo.mp hlog)
      · exact hl (by rw [hsame, h.keeps.files.target])

/-- All pages are written one after the other. -/
theorem PagesWritten.pages {w₀ : World} {done : List ClassEntry}
    (h : s.PagesWritten model w₀ done w) (hapart : s.Apart model w₀)
    (hfiles : w₀.files.HoldsTemplates) (hset : s.renderer.set = .builtin)
    (hparents : NamesParents model) (cs : List ClassEntry)
    (hcs : ∀ c ∈ done ++ cs, c ∈ model.classes)
    (hreturns : (cs.forM (s.writePage model)).Returns w u w') :
    s.PagesWritten model w₀ (done ++ cs) w' := by
  induction cs generalizing w done with
  | nil =>
    obtain ⟨-, rfl⟩ := Run.returns_pure.mp hreturns
    rwa [List.append_nil]
  | cons c cs ih =>
    obtain ⟨_, w₁, hc, hrest⟩ := Run.returns_bind.mp hreturns
    have hdone := fun d (hd : d ∈ done) => hcs d (List.mem_append_left _ hd)
    have hmem := hcs c (List.mem_append_right _ List.mem_cons_self)
    have hfirst := h.page hapart hfiles hset hdone hmem (hparents c hmem) hc
    rw [List.append_cons] at hcs ⊢
    exact ih hfirst hcs hrest

/-! ## The tree page -/

/-- Writing the tree page touches its file, the log files, and what is missing on the way to the
site. -/
theorem writes_tree (h : s.Apart model w) (hfiles : w.files.HoldsTemplates)
    (hset : s.renderer.set = .builtin) (hreturns : (s.writeTree model).Returns w u w') :
    w.Keeps (fun l =>
        w.files.Missing s.directory l ∨ w.LogsTo l ∨ l = w.files.target s.treePath) w' ∧
      w'.files.Holds s.treePath (.text (s.treeText model)) := by
  simp only [writeTree, Run.returns_bind, Run.returns_files, Run.returns_logged,
    Run.returns_result] at hreturns
  obtain ⟨_, w₁, hensure, _, _, ⟨rfl, rfl⟩, _, w₂, ⟨rfl, hlog⟩, page, _, ⟨hpage, rfl⟩, hwrite⟩ :=
    hreturns
  rw [parent_treePath hset] at hensure
  have hk₁ := keeps_ensure hensure
  have hk₂ : w₁.Keeps w₁.LogsTo w₂ := hlog ▸ World.keeps_sendAll (hk₁.hasLogFiles h.logFiles) _
  have hfiles₁ := hfiles.of_keeps hk₁.files fun l hl => hfiles.spared hl.1
  rw [value_renderTree hfiles₁ hset] at hpage
  obtain rfl := Except.ok.inj hpage
  obtain ⟨hk₃, hholds⟩ := keeps_writeText hwrite
  refine ⟨(hk₁.mono fun l hl => Or.inl hl).trans
    ((hk₂.mono fun l hl => ?_).trans (hk₃.mono fun l hl => ?_)), hholds⟩
  · exact Or.inr (Or.inl (hk₁.logsTo.mp hl))
  · rw [hk₂.files.target, hk₁.files.target] at hl
    exact Or.inr (Or.inr hl)

/-! ## The whole site -/

/-- Writing the site of a model touches nothing among the templates. At the end the tree page is in
its file, and each other file that class pages went to holds the last of them. -/
structure Written (s : Site) (model : Model) (w w' : World) : Prop where
  keeps : w.Keeps Spared w'
  tree : w'.files.Holds s.treePath (.text (s.treeText model))
  locate : ∀ c ∈ model.classes, w'.files.locate (s.pagePath c.name.full) =
    .ok (w.files.target (s.pagePath c.name.full))
  content : ∀ l c, l ≠ w.files.target s.treePath → s.lastAt w.files l model.classes = some c →
    w'.files.get? l = some (.file (.text (s.pageText model c)))

/-- With the tree page the whole site is written. -/
theorem PagesWritten.tree {w₀ : World} (h : s.PagesWritten model w₀ model.classes w)
    (hapart : s.Apart model w₀) (hfiles : w₀.files.HoldsTemplates)
    (hset : s.renderer.set = .builtin) (hreturns : (s.writeTree model).Returns w u w') :
    s.Written model w₀ w' := by
  have hfiles' := hfiles.kept h.keeps.files
  obtain ⟨hk, hholds⟩ := writes_tree (hapart.of_keeps h.keeps) hfiles' hset hreturns
  refine ⟨h.keeps.trans (hk.mono ?_), hholds, fun c hc => hk.files.locate (h.locate c hc), ?_⟩
  · rintro l (hl | hl | rfl)
    · exact hfiles'.spared hl.1
    · exact hapart.logsSpared l (h.keeps.logsTo.mp hl)
    · rw [treePath_eq hset, FileTree.target_append (by decide)]
      exact spared_append _ (by decide) (by decide) []
  · intro l c hl hlast
    have hpage := h.content l c hlast
    obtain ⟨hc, rfl⟩ := mem_of_lastAt hlast
    rw [hk.files.other, hpage]
    rintro (hmissing | hlog | htree)
    · rw [hmissing.1] at hpage
      cases hpage
    · exact hapart.logsToNoPage c hc (h.keeps.logsTo.mp hlog)
    · exact hl (by rw [htree, h.keeps.files.target])

theorem Written.tell {w₀ : World} (h : s.Written model w₀ w) (hapart : s.Apart model w₀)
    (r : Log.Record) : s.Written model w₀ (w.send r) := by
  have hk := World.keeps_send (h.keeps.hasLogFiles hapart.logFiles) r
  refine ⟨h.keeps.trans (hk.mono fun l hl => hapart.logsSpared l (h.keeps.logsTo.mp hl)), ?_,
    fun c hc => hk.files.locate (h.locate c hc), ?_⟩
  · refine h.tree.of_keeps hk.files fun hl => hapart.logsToNoTree ?_
    rw [← h.keeps.files.target]
    exact h.keeps.logsTo.mp hl
  · intro l c hl hlast
    obtain ⟨hc, hcl⟩ := mem_of_lastAt hlast
    rw [hk.files.other, h.content l c hl hlast]
    rintro hlog
    exact hapart.logsToNoPage c hc (hcl ▸ h.keeps.logsTo.mp hlog)

/-- A site that was written without failing has all its pages. -/
theorem written_of_returns (h : s.Apart model w) (hfiles : w.files.HoldsTemplates)
    (hplain : w.files.PlainNames) (hset : s.renderer.set = .builtin) (hparents : NamesParents model)
    (hreturns : (s.write model).Returns w u w') : s.Written model w w' := by
  simp only [write, Run.returns_bind, Run.returns_tell, Run.returns_discard] at hreturns
  obtain ⟨_, w₁, hdirectory, _, w₂, hclasses, _, w₃, ⟨_, hresources⟩, _, w₄, hpages, _, w₅, htree,
    rfl⟩ := hreturns
  obtain ⟨hk₂, hplain₂⟩ := keeps_directories hfiles hplain hdirectory hclasses
  have hfiles₂ := hfiles.kept hk₂.files
  have hk₃ := hk₂.trans (keeps_resources (h.of_keeps hk₂) hfiles₂ hplain₂ hset hresources)
  have hall := (PagesWritten.start hk₃).pages h hfiles hset hparents model.classes
    (fun c hc => hc) hpages
  exact (hall.tree h hfiles hset htree).tell h _

/-! ## Sites that can be written -/

variable {t : FileTree}

theorem writeOver_eq_of_write {p : Path} {c : Content} {t₁ : FileTree} (h : t₁.write p c = .ok t) :
    t₁.writeOver p c = (t, none) := by
  rw [FileTree.writeOver, h]

/-- A page whose file can be written is written. -/
theorem leaves_writePage (hquiet : w.Quiet) (hfiles : w.files.HoldsTemplates)
    (hset : s.renderer.set = .builtin) {c : ClassEntry}
    (hparent : model.parent c = .ok (c.parentName.bind model.get?))
    (hwrite : w.files.write (s.pagePath c.name.full) (.text (s.pageText model c)) = .ok t) :
    (s.writePage model c).Leaves w () t := by
  unfold writePage
  refine (Run.leaves_tell hquiet _ _ _).bind fun w₁ hfiles₁ hlogging₁ => ?_
  refine Run.leaves_files.bind fun w₂ hfiles₂ hlogging₂ => ?_
  have hquiet₂ := (hquiet.of_logging hlogging₁).of_logging hlogging₂
  refine (Run.leaves_logged hquiet₂ _).bind fun w₃ hfiles₃ _ => ?_
  rw [hfiles₁, value_renderClass hfiles hset hparent]
  refine Run.leaves_result.bind fun w₄ hfiles₄ _ => Run.leaves_change (writeOver_eq_of_write ?_)
  rw [hfiles₄, hfiles₃, hfiles₂, hfiles₁]
  exact hwrite

/-- Pages whose files can be written one after the other are all written. -/
theorem leaves_pages (hquiet : w.Quiet) (h : s.Apart model w) (hfiles : w.files.HoldsTemplates)
    (hset : s.renderer.set = .builtin) (hparents : NamesParents model) (cs : List ClassEntry)
    (hcs : ∀ c ∈ cs, c ∈ model.classes)
    (hwrites : cs.foldlM (fun t c =>
      t.write (s.pagePath c.name.full) (.text (s.pageText model c))) w.files = .ok t) :
    (cs.forM (s.writePage model)).Leaves w () t := by
  induction cs generalizing w with
  | nil =>
    obtain rfl := Except.ok.inj hwrites
    exact Run.leaves_pure
  | cons c cs ih =>
    rw [List.foldlM_cons] at hwrites
    cases hwrite : w.files.write (s.pagePath c.name.full) (.text (s.pageText model c)) with
    | error e =>
      rw [hwrite] at hwrites
      cases hwrites
    | ok t₁ =>
      rw [hwrite] at hwrites
      have hc := hcs c List.mem_cons_self
      refine (leaves_writePage hquiet hfiles hset (hparents c hc) hwrite).bind ?_
      rintro w₁ rfl hlogging
      have hk : w.Keeps Spared w₁ :=
        ⟨hlogging, (FileTree.keeps_write hwrite).mono fun l hl => hl ▸ h.pages c hc⟩
      exact ih (hquiet.of_keeps hk) (h.of_keeps hk) (hfiles.kept hk.files)
        (fun d hd => hcs d (List.mem_cons_of_mem _ hd)) hwrites

theorem leaves_writeTree (hquiet : w.Quiet) (hfiles : w.files.HoldsTemplates)
    (hset : s.renderer.set = .builtin) {t₁ : FileTree}
    (hensure : w.files.ensureDirectories s.directory = (t₁, none))
    (hwrite : t₁.write s.treePath (.text (s.treeText model)) = .ok t) :
    (s.writeTree model).Leaves w () t := by
  have hk := w.files.keeps_ensureDirectories s.directory
  rw [hensure] at hk
  have hfiles₁ : t₁.HoldsTemplates := hfiles.of_keeps hk fun l hl => hfiles.spared hl.1
  unfold writeTree
  rw [parent_treePath hset]
  refine (Run.leaves_change hensure).bind fun w₁ hw₁ hlogging₁ => ?_
  refine Run.leaves_files.bind fun w₂ hw₂ hlogging₂ => ?_
  refine (Run.leaves_logged ((hquiet.of_logging hlogging₁).of_logging hlogging₂) _).bind
    fun w₃ hw₃ _ => ?_
  rw [hw₁, value_renderTree hfiles₁ hset]
  refine Run.leaves_result.bind fun w₄ hw₄ _ => Run.leaves_change (writeOver_eq_of_write ?_)
  rw [hw₄, hw₃, hw₂, hw₁]
  exact hwrite

theorem leaves_copyResources (hquiet : w.Quiet) (hset : s.renderer.set = .builtin)
    (hresources : w.files.get? (FileTree.builtinLocation ++ ["resources"]) = some .directory)
    (hcopy : w.files.copyTree ⟨.builtin, ["resources"]⟩
      { s.directory with parts := s.directory.parts ++ ["resources"] } = (t, none)) :
    s.copyResources.Leaves w
      [{ s.directory with parts := s.directory.parts ++ ["resources"] }] t := by
  have hsrc : TemplateSet.builtin.directory / Path.ofString "resources" =
      ⟨.builtin, ["resources"]⟩ :=
    div_name _ (by decide)
  have hdst := div_name s.directory (s := "resources") (n := "resources") (by decide)
  have hfound : w.files.find? ⟨.builtin, ["resources"]⟩ = .ok (some .directory) := by
    rw [FileTree.find?, FileTree.lookup_builtin hresources (by decide)]
  have hresource : (s.copyResource ⟨"resources", "resources"⟩).Leaves w
      { s.directory with parts := s.directory.parts ++ ["resources"] } t := by
    simp only [copyResource, hset, hsrc, hdst]
    refine Run.leaves_files.bind fun w₁ hw₁ hlogging₁ => ?_
    simp only [hfound]
    refine (Run.leaves_change (hw₁ ▸ hcopy)).bind fun w₂ hw₂ hlogging₂ => ?_
    refine (Run.leaves_tell ((hquiet.of_logging hlogging₁).of_logging hlogging₂) _ _ _).bind
      fun w₃ hw₃ _ => ?_
    rw [← hw₂, ← hw₃]
    exact Run.leaves_pure
  unfold copyResources
  rw [hset]
  refine hresource.bind fun w₁ hw₁ _ => ?_
  rw [← hw₁]
  exact Run.leaves_pure

/-- Without log files, a site is written if each change of the files can be made. -/
theorem leaves_write (hquiet : w.Quiet) (h : s.Apart model w) (hfiles : w.files.HoldsBuiltin)
    (hplain : w.files.PlainNames) (hset : s.renderer.set = .builtin) (hparents : NamesParents model)
    {t₁ t₂ t₃ t₄ t₅ : FileTree} (hdirectory : w.files.ensureDirectories s.directory = (t₁, none))
    (hclasses : t₁.ensureDirectories s.classDirectory = (t₂, none))
    (hresources : t₂.copyTree ⟨.builtin, ["resources"]⟩
      { s.directory with parts := s.directory.parts ++ ["resources"] } = (t₃, none))
    (hpages : model.classes.foldlM
      (fun t c => t.write (s.pagePath c.name.full) (.text (s.pageText model c))) t₃ =
      .ok t₄)
    (hagain : t₄.ensureDirectories s.directory = (t₅, none))
    (htree : t₅.write s.treePath (.text (s.treeText model)) = .ok t) :
    (s.write model).Leaves w () t := by
  obtain ⟨w₁, hreturns₁, rfl, hlogging₁⟩ : (ensure s.directory).Leaves w () t₁ :=
    Run.leaves_change hdirectory
  obtain ⟨w₂, hreturns₂, rfl, hlogging₂⟩ : (ensure s.classDirectory).Leaves w₁ () t₂ :=
    Run.leaves_change hclasses
  have htemplates := hfiles.templates
  obtain ⟨hk₂, hplain₂⟩ := keeps_directories htemplates hplain hreturns₁ hreturns₂
  have hfound := hk₂.files.directory _ (hfiles ["resources"] _ rfl)
  obtain ⟨w₃, hreturns₃, rfl, hlogging₃⟩ :=
    leaves_copyResources (hquiet.of_keeps hk₂) hset hfound hresources
  have hfiles₂ := htemplates.kept hk₂.files
  have hk₃ := hk₂.trans (keeps_resources (h.of_keeps hk₂) hfiles₂ hplain₂ hset hreturns₃)
  have hfiles₃ := htemplates.kept hk₃.files
  obtain ⟨w₄, hreturns₄, rfl, hlogging₄⟩ :=
    leaves_pages (hquiet.of_keeps hk₃) (h.of_keeps hk₃) hfiles₃ hset
    hparents model.classes (fun c hc => hc) hpages
  have hk₄ := ((PagesWritten.start hk₃).pages h htemplates hset hparents model.classes
    (fun c hc => hc) hreturns₄).keeps
  have hfiles₄ := htemplates.kept hk₄.files
  obtain ⟨w₅, hreturns₅, rfl, hlogging₅⟩ :=
    leaves_writeTree (hquiet.of_keeps hk₄) hfiles₄ hset hagain htree
  have hquiet₅ := (hquiet.of_keeps hk₄).of_logging hlogging₅
  unfold Run.Leaves write
  simp only [Run.returns_bind, Run.returns_discard, Run.returns_tell]
  exact ⟨_, ⟨(), w₁, hreturns₁, (), w₂, hreturns₂, (), w₃, ⟨_, hreturns₃⟩, (), w₄, hreturns₄, (),
    w₅, hreturns₅, rfl⟩,
    hquiet₅.files_send _, (World.keeps_send hquiet₅.hasLogFiles _).logging.trans
      (hlogging₅.trans hk₄.logging)⟩

end Site

end ClassReference
