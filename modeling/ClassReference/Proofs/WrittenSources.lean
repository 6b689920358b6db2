import ClassReference.Proofs.CommentReading
import ClassReference.Proofs.WrittenClasses

/-!
# Proofs: classes as they are written and collected

Classes are written as comments of a source, with code between them, and collected. What is
collected is what was written exactly if each class is legible (`collected_as_written`): a type ends
at its first closing brace, some names and descriptions have marks in them that make an option
optional, and inline links in a description are expanded. Everything else comes back as it was.
-/

namespace ClassReference

open Text

/-! ## Legibility -/

theorem nonEmpty?_nonBlank? (s : List Char) :
    (nonEmpty? (nonBlank? s) <|> some "") = some (String.ofList (trim s)) := by
  unfold nonBlank?
  split
  · rename_i h
    rw [h]
    rfl
  · rename_i h
    have hne : String.ofList (trim s) ≠ "" := fun heq => h (String.ofList_injective heq)
    simp [nonEmpty?, Option.filter, hne]

namespace WrittenCfg

variable (c : WrittenCfg)

/-- If the type has no closing brace in it, type, name and description are found. -/
theorem read_text (h : '}' ∉ c.type.chars) :
    Item.read c.text =
      Item.ofParts (some (String.ofList c.type.chars)) c.word c.description.chars := by
  have hparts : c.text =
      [' '] ++ '{' :: (c.type.chars ++ '}' :: ' ' :: (c.word ++ ' ' :: c.description.chars)) := by
    simp [text]
  rw [hparts, Item.read_braces c.solid_word c.word_ne_nil (isBlank_head_space _)
    (allBlank_singleton isBlank_space) h, c.description.trimmed.trim_cons_space,
    c.type.trimmed.nonBlank? c.type.ne_nil]

theorem not_mem_of_type (h : (Item.read c.text).type = some (String.ofList c.type.chars)) :
    '}' ∉ c.type.chars := by
  intro hmem
  have hparts :
      c.text = [' ', '{'] ++ c.type.chars ++
      (['}', ' '] ++ c.word ++ ' ' :: c.description.chars) := by
    simp [text]
  rw [hparts] at h
  exact Item.type_read_ne hmem h

/-- The name has no marks around it exactly if it is read as it is, as optional as it is. -/
theorem ofParts_word_iff (type : Option String) {description : List Char}
    (hmark : Item.dropMark Item.optionalMark description = none) :
    ((Item.ofParts type c.word description).name = String.ofList c.name.chars ∧
        (Item.ofParts type c.word description).optional = c.optional) ↔
      c.name.chars.getLast? ≠ some '?' ∧
        (c.optional = false → ¬ ∃ inner, c.name.chars = '[' :: inner ++ [']']) := by
  rw [← Item.readQuestioned_eq_none_iff, ← Item.readBracketed_eq_none_iff]
  unfold Item.ofParts word
  cases c.optional with
  | true =>
    simp only [if_true, Item.readBracketed_brackets, Option.getD_some, hmark, Option.isSome_some,
      Bool.true_or, and_true, Bool.true_eq_false, false_implies]
    cases hq : Item.readQuestioned c.name.chars with
    | none => simp
    | some shorter =>
      -- the question mark is missing in what is read
      refine iff_of_false ?_ (by simp)
      intro heq
      have hlength : shorter.length = c.name.chars.length :=
        congrArg List.length (String.ofList_injective heq)
      unfold Item.readQuestioned at hq
      split at hq
      · rw [← Option.some.inj hq, List.length_dropLast] at hlength
        have hpos := List.length_pos_iff.mpr c.name.ne_nil
        omega
      · cases hq
  | false =>
    simp only [Bool.false_eq_true, if_false, hmark, Option.isSome_none, Bool.or_false, forall_const]
    cases hb : Item.readBracketed c.name.chars with
    | some inner => simp
    | none =>
      cases hq : Item.readQuestioned c.name.chars with
      | some shorter => simp [hq]
      | none => simp [hq]

/-- A description behind a mark is not read as it is. -/
theorem long_marked_ne {style : LinkStyle} {m rest : List Char} (hm : Item.SpellsMark m)
    (currentClass : String) :
    (Description.ofText style (some (String.ofList (trim rest))) currentClass).value.long ≠
      String.ofList (m ++ rest) := by
  obtain ⟨u, v, hu, -, hrest⟩ := exists_eq_trim rest
  have hparts : m ++ rest = (m ++ u) ++ trim rest ++ v := by
    conv_lhs => rw [hrest]
    simp only [List.append_assoc]
  have hne : m ++ u ≠ [] := by
    rw [Ne, List.append_eq_nil_iff, not_and]
    exact fun h => absurd h hm.ne_nil
  have hlt : '<' ∉ m ++ u := by
    rw [List.mem_append, not_or]
    exact ⟨hm.not_mem, hu.not_mem (by decide)⟩
  rw [hparts]
  exact Description.long_ne_append hne hlt

/-- An option is read as it is meant exactly if it is legible. -/
theorem readAs_eq_iff (style : LinkStyle) (owner : ClassName) :
    c.readAs style owner = c.cfg style owner ↔ c.Legible := by
  have hread : ∀ h : '}' ∉ c.type.chars, c.readAs style owner =
      { name := (Item.ofParts (some (String.ofList c.type.chars)) c.word c.description.chars).name
        owner
        description := (Description.ofText style (some (String.ofList (trim
          ((Item.dropMark Item.optionalMark c.description.chars).getD c.description.chars))))
          owner.full).value
        detail := { type := some (String.ofList c.type.chars)
                    optional := (Item.ofParts (some (String.ofList c.type.chars)) c.word
                      c.description.chars).optional } } := by
    intro h
    rw [readAs, c.read_text h, ← nonEmpty?_nonBlank?]
    rfl
  constructor
  · intro h
    have hbrace := c.not_mem_of_type (congrArg (fun m : Cfg => m.detail.type) h)
    rw [hread hbrace] at h
    have hmark : Item.dropMark Item.optionalMark c.description.chars = none := by
      cases hmark : Item.dropMark Item.optionalMark c.description.chars with
      | none => rfl
      | some rest =>
        obtain ⟨m, hm, hparts⟩ := Item.dropMark_eq_some_iff.mp hmark
        have hlong := congrArg (fun m : Cfg => m.description.long) h
        simp only [hmark, Option.getD_some, cfg, Description.plain] at hlong
        rw [hparts] at hlong
        exact absurd hlong (long_marked_ne hm owner.full)
    have hname := (c.ofParts_word_iff (some (String.ofList c.type.chars)) hmark).mp
      ⟨congrArg (fun m : Cfg => m.name) h, congrArg (fun m : Cfg => m.detail.optional) h⟩
    refine ⟨hbrace, hname.1, hname.2, Item.dropMark_eq_none_iff.mp hmark, ?_⟩
    have hdescription := congrArg (fun m : Cfg => m.description) h
    simp only [hmark, Option.getD_none, c.description.trimmed.trim_eq, cfg] at hdescription
    exact Description.ofText_eq_iff.mp hdescription
  · intro h
    have hmark := Item.dropMark_eq_none_iff.mpr h.unmarked
    obtain ⟨hname, hoptional⟩ := (c.ofParts_word_iff (some (String.ofList c.type.chars)) hmark).mpr
      ⟨h.unquestioned, h.unbracketed⟩
    rw [hread h.type, hname, hoptional, hmark, Option.getD_none, c.description.trimmed.trim_eq,
      Description.ofText_eq_iff.mpr h.noLinks]
    rfl

end WrittenCfg

namespace WrittenClass

theorem readAs_eq_iff (d : WrittenClass) (style : LinkStyle) (fileName : String) :
    d.readAs style fileName = d.entry style fileName ↔ NoLinks d.describing := by
  rw [← Description.ofText_eq_iff]
  constructor
  · intro h
    exact congrArg ClassEntry.description h
  · intro h
    rw [readAs, h]
    rfl

/-! ## All comments -/

/-- The entities that are read of some classes of a file. -/
def catalogRead (style : LinkStyle) (fileName : String) (ds : List WrittenClass) : Catalog where
  classes := ds.map (·.readAs style fileName)
  members := { cfgs := ds.flatMap fun d => d.cfgs.map (·.readAs style (ClassName.ofFull d.full)) }

theorem entities_written (cl : Classifier) {ds : List WrittenClass} {xs : List Comment}
    (h : xs.map (·.body) = ds.map fun d => String.ofList (DocBlock.bodyOf d.tags)) (ctx : Context) :
    (cl.classifyAll xs ctx).value.flatMap (·.entities) = ds.flatMap fun d =>
      .ofClass (d.readAs cl.style ctx.fileName) ::
        d.cfgs.map fun c => .cfg (c.readAs cl.style (ClassName.ofFull d.full)) := by
  induction ds generalizing xs ctx with
  | nil =>
    rw [List.map_nil, List.map_eq_nil_iff] at h
    subst h
    rfl
  | cons d ds ih =>
    cases xs with
    | nil => cases h
    | cons x xs =>
      obtain ⟨hx, hxs⟩ := List.cons.inj h
      rw [Classifier.value_classifyAll_cons, List.flatMap_cons, List.flatMap_cons,
        d.classify_written hx, ih hxs]

theorem foldl_add_written (e : ClassEntry) (cs : List WrittenCfg) (f : WrittenCfg → Cfg)
    (c : Catalog) :
    (Entity.ofClass e :: cs.map fun x => Entity.cfg (f x)).foldl Catalog.add c =
      { classes := c.classes ++ [e],
        members := { c.members with cfgs := c.members.cfgs ++ cs.map f } } := by
  have hcfgs : ∀ c : Catalog, (cs.map fun x => Entity.cfg (f x)).foldl Catalog.add c =
      { c with members.cfgs := c.members.cfgs ++ cs.map f } := by
    induction cs with
    | nil => simp
    | cons x cs ih =>
      intro c
      rw [List.map_cons, List.foldl_cons, ih]
      simp [Catalog.add]
  rw [List.foldl_cons, hcfgs]
  rfl

theorem ofEntities_written (style : LinkStyle) (fileName : String) (ds : List WrittenClass) :
    Catalog.ofEntities (ds.flatMap fun d => .ofClass (d.readAs style fileName) ::
      d.cfgs.map fun c => .cfg (c.readAs style (ClassName.ofFull d.full))) =
        catalogRead style fileName ds := by
  have hfold : ∀ c : Catalog, (ds.flatMap fun d => .ofClass (d.readAs style fileName) ::
      d.cfgs.map fun c => .cfg (c.readAs style (ClassName.ofFull d.full))).foldl Catalog.add c =
        { classes := c.classes ++ (catalogRead style fileName ds).classes,
          members := { c.members with
            cfgs := c.members.cfgs ++ (catalogRead style fileName ds).members.cfgs } } := by
    induction ds with
    | nil => simp [catalogRead]
    | cons d ds ih =>
      intro c
      rw [List.flatMap_cons, List.foldl_append, foldl_add_written, ih]
      simp [catalogRead]
  exact (hfold {}).trans (by simp [catalogRead])

end WrittenClass

/-! ## Sources -/

/-- Code in which no comment is opened. -/
structure PlainCode where
  text : List Char
  unopened : ¬ Comment.opening <:+: text

/-- Where the next comment opens, none has been opened before. -/
theorem PlainCode.first (g : PlainCode) :
    ¬ Comment.opening <:+: g.text ++ Comment.opening.dropLast := by
  have hsplit : g.text ++ Comment.opening.dropLast = g.text ++ ['/'] ++ ['*'] := by
    simp [Comment.opening]
  rw [hsplit, List.infix_concat_iff, List.infix_concat_iff]
  rintro (h | h | h)
  · rw [← List.reverse_prefix] at h
    simp [Comment.opening] at h
  · rw [← List.reverse_prefix] at h
    simp [Comment.opening] at h
  · exact g.unopened h

namespace WrittenClass

/-- Classes written one after the other, each behind some code. -/
def source (pieces : List (PlainCode × WrittenClass)) (last : PlainCode) : List Char :=
  pieces.flatMap (fun p => p.1.text ++ p.2.comment) ++ last.text

theorem bodies_read (pieces : List (PlainCode × WrittenClass)) (last : PlainCode) :
    (Comment.read (source pieces last)).map (·.body) =
      pieces.map fun p => String.ofList (DocBlock.bodyOf p.2.tags) := by
  induction pieces with
  | nil =>
    have hcut : cut? Comment.opening (source [] last) = none :=
      cut?_eq_none_of_free (by decide) (by simpa [source] using last.unopened)
    rw [Comment.read]
    split
    · rfl
    · rename_i hsome
      rw [hcut] at hsome
      cases hsome
  | cons p pieces ih =>
    have hparts : source (p :: pieces) last =
        p.1.text ++ Comment.opening ++
        (DocBlock.bodyOf p.2.tags ++ Comment.closing ++ source pieces last) := by
      simp [source, comment]
    have hopen := cut?_append (by decide) p.1.first
      (DocBlock.bodyOf p.2.tags ++ Comment.closing ++ source pieces last)
    have hclose := cut?_append (by decide) p.2.unclosed_body (source pieces last)
    rw [hparts, Comment.read]
    split
    · rename_i hnone
      rw [hopen] at hnone
      cases hnone
    · rename_i inside hsome
      rw [hopen, Option.some.injEq, Prod.mk.injEq] at hsome
      obtain ⟨-, rfl⟩ := hsome
      split
      · rename_i hnone
        rw [hclose] at hnone
        cases hnone
      · rename_i body rest hsome
        rw [hclose, Option.some.injEq, Prod.mk.injEq] at hsome
        obtain ⟨rfl, rfl⟩ := hsome
        rw [List.map_cons, ih]
        rfl

theorem bodies_scan (pieces : List (PlainCode × WrittenClass)) (last : PlainCode) :
    (Comment.scan (String.ofList (source pieces last))).map (·.body) =
      (pieces.map (·.2)).map fun d => String.ofList (DocBlock.bodyOf d.tags) := by
  have hscan : Comment.scan (String.ofList (source pieces last)) =
      Scanner.start.finish (source pieces last) := by
    simp [Comment.scan, Comment.scanPieces, Scanner.feedAll_eq_feed, Scanner.finish]
  rw [hscan, Scanner.start, Scanner.finish_eq_read, Option.map_none, Option.toList_none,
    List.nil_append, bodies_read, List.map_map]
  rfl

/-- Lists of the same lengths are equal part by part. -/
theorem flatMap_map_eq_iff {f g : WrittenClass → WrittenCfg → Cfg} {ds : List WrittenClass} :
    (ds.flatMap fun d => d.cfgs.map (f d)) = (ds.flatMap fun d => d.cfgs.map (g d)) ↔
      ∀ d ∈ ds, ∀ c ∈ d.cfgs, f d c = g d c := by
  induction ds with
  | nil => simp
  | cons d ds ih =>
    have hsplit : (d.cfgs.map (f d) ++ ds.flatMap fun d => d.cfgs.map (f d)) =
        (d.cfgs.map (g d) ++ ds.flatMap fun d => d.cfgs.map (g d)) ↔
          d.cfgs.map (f d) = d.cfgs.map (g d) ∧
            (ds.flatMap fun d => d.cfgs.map (f d)) = (ds.flatMap fun d => d.cfgs.map (g d)) :=
      List.append_eq_append_iff_of_size_eq_left (by simp)
    rw [List.flatMap_cons, List.flatMap_cons, hsplit, ih, List.map_inj_left, List.forall_mem_cons]

/-- Classes are read as they are meant exactly if each of them is legible. -/
theorem catalogRead_eq_iff (style : LinkStyle) (fileName : String) (ds : List WrittenClass) :
    catalogRead style fileName ds = catalog style fileName ds ↔ ∀ d ∈ ds, d.Legible := by
  have hparts : catalogRead style fileName ds = catalog style fileName ds ↔
      ds.map (·.readAs style fileName) = ds.map (·.entry style fileName) ∧
        (ds.flatMap fun d => d.cfgs.map (·.readAs style (ClassName.ofFull d.full))) =
          ds.flatMap fun d => d.cfgs.map (·.cfg style (ClassName.ofFull d.full)) := by
    simp [catalogRead, catalog]
  rw [hparts, List.map_inj_left, flatMap_map_eq_iff]
  simp only [readAs_eq_iff, WrittenCfg.readAs_eq_iff]
  constructor
  · rintro ⟨hlinks, hcfgs⟩ d hd
    exact ⟨hlinks d hd, hcfgs d hd⟩
  · intro h
    exact ⟨fun d hd => (h d hd).noLinks, fun d hd => (h d hd).cfgs⟩

end WrittenClass

/-! ## Collecting -/

/-- The package and the short name are what stands before and behind the last dot of the full name.
Without a dot, all of it is the short name. -/
def ClassName.SplitAtLastDot (full package short : String) : Prop :=
  (full = package ++ "." ++ short ∧ '.' ∉ short.toList) ∨
    ('.' ∉ full.toList ∧ package = "" ∧ short = full)

theorem ClassName.splitAtLastDot (full : String) :
    SplitAtLastDot full (packageOf full) (shortOf full) := by
  by_cases hdot : '.' ∈ full.toList
  · obtain ⟨b, a, hrev, hb⟩ := List.eq_append_cons_of_mem (List.mem_reverse.mpr hdot)
    have hparts : full.toList = a.reverse ++ '.' :: b.reverse := by
      rw [← List.reverse_reverse full.toList, hrev]
      simp
    have hb' : '.' ∉ b.reverse := fun h => hb (List.mem_reverse.mp h)
    refine Or.inl ⟨?_, ?_⟩
    · rw [packageOf, shortOf, hparts, cutLast_append hb', ← String.ofList_toList
        (s := full), hparts]
      apply String.toList_inj.mp
      simp
    · rw [shortOf, hparts, cutLast_append hb', String.toList_ofList]
      exact hb'
  · refine Or.inr ⟨hdot, ?_, ?_⟩
    · rw [packageOf, cutLast_of_not_mem hdot]
    · rw [shortOf, cutLast_of_not_mem hdot, String.ofList_toList]

namespace Collection

/-- What is collected of written classes is what was read of them. -/
theorem contribution_written {c : Collection} (husable : c.config.unusable = [])
    (pieces : List (PlainCode × WrittenClass)) (last : PlainCode) (fileName : String) :
    c.contribution (.source (String.ofList (WrittenClass.source pieces last)) fileName) =
      .ok (WrittenClass.catalogRead c.session.classifier.style fileName (pieces.map (·.2))) := by
  rw [contribution_eq_ok]
  constructor
  · intro s _
    rw [husable]
    cases s <;> simp [Log.Step.reliedOn?]
  · have hentities :=
      WrittenClass.entities_written c.session.classifier (WrittenClass.bodies_scan pieces last)
      { fileName }
    rw [← WrittenClass.ofEntities_written, ← hentities]
    rfl

/-- Classes that are written as comments, with any code around them, are collected as they were
meant, in order and with nothing else, exactly if each of them is legible. Their names are split at
the last dot. -/
theorem collected_as_written (c : Collection) (husable : c.config.unusable = [])
    (pieces : List (PlainCode × WrittenClass)) (last : PlainCode) (fileName : String) (w : World) :
    (((c.addSource (String.ofList (WrittenClass.source pieces last)) fileName).run w).1.map (·.2) =
        .ok (WrittenClass.catalog c.session.classifier.style fileName (pieces.map (·.2))) ↔
      ∀ p ∈ pieces, p.2.Legible) ∧
    ∀ e ∈ (WrittenClass.catalog c.session.classifier.style fileName (pieces.map (·.2))).classes,
      ClassName.SplitAtLastDot e.name.full e.packageName e.name.short := by
  constructor
  · have hrun :=
      c.collect_value (.source (String.ofList (WrittenClass.source pieces last)) fileName) w
    rw [contribution_written husable] at hrun
    change ((c.addSource (String.ofList (WrittenClass.source pieces last)) fileName).run w).1 =
      _ at hrun
    rw [hrun]
    change Except.ok
      (WrittenClass.catalogRead c.session.classifier.style fileName (pieces.map (·.2))) = _ ↔ _
    rw [Except.ok.injEq, WrittenClass.catalogRead_eq_iff, List.forall_mem_map]
  · intro e he
    obtain ⟨d, -, rfl⟩ := List.mem_map.mp he
    exact ClassName.splitAtLastDot d.full

/-- A class in a package, with a parent and an optional config option. -/
def writtenPanel : WrittenClass where
  name := .ofString "ui.Panel" (by decide)
  description := some (.ofString "A panel." (by decide))
  parent := some (.ofString "ui.Box" (by decide))
  cfgs := [{ type := .ofString "Number | String" (by decide), name := .ofString "width" (by decide),
             description := .ofString "Its width (optional)" (by decide), optional := true }]

theorem writtenPanel_legible : writtenPanel.Legible where
  noLinks := noLinks_of_free (by decide)
  cfgs c hc := by
    obtain rfl := List.mem_singleton.mp hc
    exact
      { type := by decide
        unquestioned := by decide
        unbracketed := fun h => nomatch h
        unmarked := Item.dropMark_eq_none_iff.mp (by decide)
        noLinks := noLinks_of_free (by decide) }

theorem writtenPanel_collected :
    (start {}).config.unusable = [] ∧
    WrittenClass.source [(⟨[], by decide⟩, writtenPanel)] ⟨['\n'], by decide⟩ =
      ("/**\n * @class ui.Panel A panel.\n * @extends ui.Box\n" ++
        " * @cfg {Number | String} [width] Its width (optional)\n */\n").toList ∧
    (((start {}).addSource (String.ofList (WrittenClass.source [(⟨[], by decide⟩, writtenPanel)]
        ⟨['\n'], by decide⟩)) "panel.js").run noFiles).1.map (·.2) =
      .ok (WrittenClass.catalog {} "panel.js" [writtenPanel]) := by
  have husable : (start {}).config.unusable = [] := by decide
  have hwritten :=
    collected_as_written (start {}) husable [(⟨[], by decide⟩, writtenPanel)] ⟨['\n'], by decide⟩
    "panel.js" noFiles
  refine ⟨husable, by decide +kernel, hwritten.1.mpr ?_⟩
  intro p hp
  obtain rfl := List.mem_singleton.mp hp
  exact writtenPanel_legible

/-- A class with a config option that has a question mark behind its name and is not meant to be
optional. -/
def questionedSize : WrittenClass where
  name := .ofString "A" (by decide)
  description := none
  parent := none
  cfgs := [{ type := .ofString "Number" (by decide), name := .ofString "size?" (by decide),
             description := .ofString "Its size" (by decide), optional := false }]

/-- The question mark is taken for a mark: the option is collected as optional, and without it. -/
theorem questionedSize_misread :
    WrittenClass.source [(⟨[], by decide⟩, questionedSize)] ⟨[], by decide⟩ =
      "/**\n * @class A\n * @cfg {Number} size? Its size\n */".toList ∧
    (start {}).contribution
      (.source "/**\n * @class A\n * @cfg {Number} size? Its size\n */" "a.js") =
      .ok { classes := [{ name := ⟨"A", "A"⟩, definedIn := "a.js" }]
            members := { cfgs := [{ name := "size", owner := ⟨"A", "A"⟩,
                                    description := { long := "Its size" },
                                    detail := { type := some "Number", optional := true } }] } } ∧
    (WrittenClass.catalog {} "a.js" [questionedSize]).members.cfgs =
      [{ name := "size?", owner := ⟨"A", "A"⟩, description := { long := "Its size" },
         detail := { type := some "Number", optional := false } }] := by
  refine ⟨by decide +kernel, by decide +kernel, by decide +kernel⟩

end Collection

end ClassReference
