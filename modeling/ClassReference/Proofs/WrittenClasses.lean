import ClassReference.Proofs.Definitions
import ClassReference.Proofs.InlineLinks
import ClassReference.Proofs.TagLines

/-!
# Proofs: comments that classes are written as

Classes with config options are written as comments, one tag on each line. Such a comment is closed
where it ends (`WrittenClass.unclosed_body`), and is read as the class, its parent and its config
options, which belong to the class (`WrittenClass.classify_written`). What the texts of the tags are
read as is the matter of `ClassReference.Proofs.WrittenSources`.
-/

namespace ClassReference

open Text

/-! ## What is written -/

/-- A word that can be written in a comment. -/
structure Word where
  chars : List Char
  ne_nil : chars ≠ []
  solid : Solid chars
  unclosed : ¬ Comment.closing <:+: chars

/-- A text on one line that can be written in a comment. -/
structure Phrase where
  chars : List Char
  ne_nil : chars ≠ []
  oneLine : OneLine chars
  trimmed : Trimmed chars
  unclosed : ¬ Comment.closing <:+: chars

/-- Whether a text is a word that can be written in a comment. -/
def isWord (s : String) : Bool :=
  s != "" && s.toList.all (!isBlank ·) && (cut? Comment.closing s.toList).isNone

/-- Whether a text is one on one line that can be written in a comment. -/
def isPhrase (s : String) : Bool :=
  s != "" && s.toList.all (!isLineBreak ·) && s.toList.head?.all
    (!isBlank ·) && s.toList.getLast?.all (!isBlank ·) &&
    (cut? Comment.closing s.toList).isNone

/-- The word that a text is. -/
def Word.ofString (s : String) (h : isWord s = true) : Word where
  chars := s.toList
  ne_nil := by
    simp only [isWord, Bool.and_eq_true, bne_iff_ne] at h
    exact mt String.toList_eq_nil_iff.mp h.1.1
  solid := by
    simp only [isWord, Bool.and_eq_true] at h
    exact .of_all h.1.2
  unclosed := by
    simp only [isWord, Bool.and_eq_true, Option.isNone_iff_eq_none] at h
    exact cut?_eq_none h.2

/-- The phrase that a text is. -/
def Phrase.ofString (s : String) (h : isPhrase s = true) : Phrase where
  chars := s.toList
  ne_nil := by
    simp only [isPhrase, Bool.and_eq_true, bne_iff_ne] at h
    exact mt String.toList_eq_nil_iff.mp h.1.1.1.1
  oneLine := by
    simp only [isPhrase, Bool.and_eq_true] at h
    exact .of_all h.1.1.1.2
  trimmed := by
    simp only [isPhrase, Bool.and_eq_true] at h
    exact .of_all h.1.1.2 h.1.2
  unclosed := by
    simp only [isPhrase, Bool.and_eq_true, Option.isNone_iff_eq_none] at h
    exact cut?_eq_none h.2

/-- A config option to be written. -/
structure WrittenCfg where
  type : Phrase
  name : Word
  description : Phrase
  optional : Bool

/-- A class to be written, with its config options. -/
structure WrittenClass where
  name : Word
  description : Option Phrase
  parent : Option Word
  cfgs : List WrittenCfg

namespace WrittenCfg

variable (c : WrittenCfg)

/-- The name, between square brackets if the option is optional. -/
def word : List Char :=
  if c.optional then '[' :: c.name.chars ++ [']'] else c.name.chars

/-- The text of the tag: type, name and description. -/
def text : List Char :=
  [' ', '{'] ++ c.type.chars ++ ['}', ' '] ++ c.word ++ ' ' :: c.description.chars

/-- The config option that is meant. -/
def cfg (style : LinkStyle) (owner : ClassName) : Cfg where
  name := String.ofList c.name.chars
  owner := owner
  description := Description.plain style (String.ofList c.description.chars)
  detail := { type := some (String.ofList c.type.chars), optional := c.optional }

/-- The option can be read back: its type has no closing brace in it, its name has no marks of
optional options around it, and its description neither starts with such a mark nor has links in
it. -/
structure Legible : Prop where
  type : '}' ∉ c.type.chars
  unquestioned : c.name.chars.getLast? ≠ some '?'
  unbracketed : c.optional = false → ¬ ∃ inner, c.name.chars = '[' :: inner ++ [']']
  unmarked : ∀ m rest, c.description.chars = m ++ rest → ¬ Item.SpellsMark m
  noLinks : NoLinks c.description.chars

end WrittenCfg

namespace WrittenClass

variable (d : WrittenClass)

/-- The full name. -/
def full : String :=
  String.ofList d.name.chars

/-- The tags of the comment. -/
def tags : List (List Char × List Char) :=
  ("class".toList, ' ' :: (d.name.chars ++ (d.description.map fun p => ' ' :: p.chars).getD [])) ::
    (d.parent.toList.map (fun p => ("extends".toList, ' ' :: p.chars)) ++
      d.cfgs.map fun c => ("cfg".toList, c.text))

/-- The comment of the class. -/
def comment : List Char :=
  Comment.opening ++ (DocBlock.bodyOf d.tags ++ Comment.closing)

/-- The description, empty if there is none. -/
def describing : List Char :=
  (d.description.map (·.chars)).getD []

/-- The class that is meant. -/
def entry (style : LinkStyle) (fileName : String) : ClassEntry where
  name := ClassName.ofFull d.full
  packageName := ClassName.packageOf d.full
  definedIn := fileName
  description := Description.plain style (String.ofList d.describing)
  parentName := d.parent.map fun p => String.ofList p.chars

/-- The class can be read back. -/
structure Legible : Prop where
  noLinks : NoLinks d.describing
  cfgs : ∀ c ∈ d.cfgs, c.Legible

/-- The entities that are meant by some classes of a file. -/
def catalog (style : LinkStyle) (fileName : String) (ds : List WrittenClass) : Catalog where
  classes := ds.map (·.entry style fileName)
  members := { cfgs := ds.flatMap fun d => d.cfgs.map (·.cfg style (ClassName.ofFull d.full)) }

end WrittenClass

/-! ## One comment -/

theorem Word.solid_brackets (w : Word) : Solid ('[' :: w.chars ++ [']']) := by
  intro c hc
  rcases List.mem_append.mp hc with hc | hc
  · rcases List.mem_cons.mp hc with rfl | hc
    · decide
    · exact w.solid c hc
  · rw [List.mem_singleton.mp hc]
    decide

namespace WrittenCfg

variable (c : WrittenCfg)

theorem solid_word : Solid c.word := by
  unfold word
  split
  · exact c.name.solid_brackets
  · exact c.name.solid

theorem word_ne_nil : c.word ≠ [] := by
  unfold word
  split
  · exact List.cons_ne_nil _ _
  · exact c.name.ne_nil

theorem isTagLine : IsTagLine ("cfg".toList, c.text) := by
  have hname : OneLine "cfg".toList := .of_all (by decide)
  have hopen : OneLine [' ', '{'] := .of_all (by decide)
  have hclose : OneLine ['}', ' '] := .of_all (by decide)
  have hdescription : OneLine (' ' :: c.description.chars) :=
    List.forall_mem_cons.mpr ⟨by decide, c.description.oneLine⟩
  have hfront := (hopen.append c.type.oneLine).append hclose
  refine isTagLine_of_space (by decide) (by decide +kernel) ?_
  exact hname.append ((hfront.append c.solid_word.oneLine).append hdescription)

theorem unclosed_text : ¬ Comment.closing <:+: "cfg".toList ++ c.text := by
  have hword : ¬ Comment.closing <:+: c.word := by
    have hbracket : ¬ Comment.closing <:+: '[' :: c.name.chars ++ [']'] := by
      have hopen :=
        @infix_append_cons_iff Comment.closing [] (c.name.chars ++ [']']) '[' (by decide)
      have hclose := @infix_append_cons_iff Comment.closing c.name.chars [] ']' (by decide)
      rw [List.nil_append] at hopen
      rw [List.cons_append, hopen, hclose]
      rintro (h | h | h)
      · exact absurd h (by decide)
      · exact c.name.unclosed h
      · exact absurd h (by decide)
    unfold word
    split
    · exact hbracket
    · exact c.name.unclosed
  have hparts : "cfg".toList ++ c.text =
      "cfg ".toList ++ '{' ::
      (c.type.chars ++ '}' :: ([] ++ ' ' :: (c.word ++ ' ' :: c.description.chars))) := by
    simp [text]
  rw [hparts, infix_append_cons_iff (by decide), infix_append_cons_iff (by decide),
    infix_append_cons_iff (by decide), infix_append_cons_iff (by decide)]
  rintro (h | h | h | h | h)
  · exact absurd h (by decide)
  · exact c.type.unclosed h
  · exact absurd h (by decide)
  · exact hword h
  · exact c.description.unclosed h

end WrittenCfg

namespace WrittenClass

variable (d : WrittenClass)

theorem isTagLine_class : IsTagLine ("class".toList,
    ' ' :: (d.name.chars ++ (d.description.map fun p => ' ' :: p.chars).getD [])) := by
  have hname : OneLine "class".toList := .of_all (by decide)
  have hspace : isLineBreak ' ' = false := by decide
  have hrest : OneLine ((d.description.map fun p => ' ' :: p.chars).getD []) := by
    cases d.description with
    | none => simp [OneLine]
    | some p => exact List.forall_mem_cons.mpr ⟨hspace, p.oneLine⟩
  refine isTagLine_of_space (by decide) (by decide +kernel) ?_
  exact hname.append (List.forall_mem_cons.mpr ⟨hspace, d.name.solid.oneLine.append hrest⟩)

theorem isTagLine_extends (p : Word) : IsTagLine ("extends".toList, ' ' :: p.chars) := by
  have hname : OneLine "extends".toList := .of_all (by decide)
  refine isTagLine_of_space (by decide) (by decide +kernel) ?_
  exact hname.append (List.forall_mem_cons.mpr ⟨by decide, p.solid.oneLine⟩)

/-- What holds of the tag of the class, of that of a parent and of that of a config option holds of
all tags. -/
theorem forall_mem_tags {P : List Char × List Char → Prop}
    (hclass : P ("class".toList,
      ' ' :: (d.name.chars ++ (d.description.map fun p => ' ' :: p.chars).getD [])))
    (hextends : ∀ p : Word, P ("extends".toList, ' ' :: p.chars))
    (hcfg : ∀ c : WrittenCfg, P ("cfg".toList, c.text)) : ∀ t ∈ d.tags, P t := by
  intro t ht
  rcases List.mem_cons.mp ht with rfl | ht
  · exact hclass
  · rcases List.mem_append.mp ht with ht | ht
    · obtain ⟨p, -, rfl⟩ := List.mem_map.mp ht
      exact hextends p
    · obtain ⟨c, -, rfl⟩ := List.mem_map.mp ht
      exact hcfg c

theorem isTagLine_of_mem : ∀ t ∈ d.tags, IsTagLine t :=
  d.forall_mem_tags d.isTagLine_class isTagLine_extends WrittenCfg.isTagLine

theorem unclosed_of_mem : ∀ t ∈ d.tags, ¬ Comment.closing <:+: t.1 ++ t.2 := by
  have hclass : ¬ Comment.closing <:+: "class".toList := by decide
  have hextends : ¬ Comment.closing <:+: "extends".toList := by decide
  refine d.forall_mem_tags ?_ ?_ WrittenCfg.unclosed_text
  · rw [infix_append_cons_iff (by decide)]
    cases d.description with
    | none =>
      rintro (h | h)
      · exact hclass h
      · exact d.name.unclosed (by simpa using h)
    | some p =>
      simp only [Option.map_some, Option.getD_some]
      rw [infix_append_cons_iff (by decide)]
      rintro (h | h | h)
      · exact hclass h
      · exact d.name.unclosed h
      · exact p.unclosed h
  · intro p
    rw [infix_append_cons_iff (by decide)]
    rintro (h | h)
    · exact hextends h
    · exact p.unclosed h

/-- The marker that closes a comment does not occur before its end. -/
theorem unclosed_body :
    ¬ Comment.closing <:+: DocBlock.bodyOf d.tags ++ Comment.closing.dropLast := by
  have hlines : ∀ ts : List (List Char × List Char), (∀ t ∈ ts, ¬ Comment.closing <:+: t.1 ++ t.2) →
      ¬ Comment.closing <:+: ts.flatMap fun t => tagLine t ++ ['\n'] := by
    intro ts hts
    induction ts with
    | nil => decide
    | cons t ts ih =>
      have hparts : (t :: ts).flatMap (fun t => tagLine t ++ ['\n']) =
          " * ".toList ++ '@' ::
          ((t.1 ++ t.2) ++ '\n' :: ts.flatMap fun t => tagLine t ++ ['\n']) := by
        simp [tagLine]
      rw [hparts, infix_append_cons_iff (by decide), infix_append_cons_iff (by decide)]
      rintro (h | h | h)
      · exact absurd h (by decide)
      · exact hts t List.mem_cons_self h
      · exact ih (fun t' ht' => hts t' (List.mem_cons_of_mem _ ht')) h
  have hparts : DocBlock.bodyOf d.tags ++ Comment.closing.dropLast =
      [] ++ '\n' :: (d.tags.flatMap (fun t => tagLine t ++ ['\n']) ++ ' ' :: ['*']) := by
    simp [DocBlock.bodyOf, Comment.closing]
  rw [hparts, infix_append_cons_iff (by decide), infix_append_cons_iff (by decide)]
  rintro (h | h | h)
  · exact absurd h (by decide)
  · exact hlines d.tags d.unclosed_of_mem h
  · exact absurd h (by decide)

/-- The comment is read as the class, its parent and its config options. -/
theorem block_eq {x : Comment} (hx : x.body = String.ofList (DocBlock.bodyOf d.tags)) :
    x.block = { tags := .declares ⟨d.full, d.description.map fun p => String.ofList p.chars⟩ ::
      (d.parent.toList.map (fun p => .inherits ⟨String.ofList p.chars, none⟩) ++
        d.cfgs.map fun c => .cfg (Item.read c.text)) } := by
  have hspace : AllBlank [' '] := allBlank_singleton isBlank_space
  have hword : ∀ w : Word, splitWord (' ' :: w.chars) = (w.chars, []) := by
    intro w
    simpa using w.solid.splitWord w.ne_nil hspace allBlank_nil
  have hclass :
      Titled.read (' ' :: (d.name.chars ++ (d.description.map fun p => ' ' :: p.chars).getD [])) =
      ⟨d.full, d.description.map fun p => String.ofList p.chars⟩ := by
    cases d.description with
    | none =>
      rw [Option.map_none, Option.getD_none, List.append_nil, Titled.read, hword]
      rfl
    | some p =>
      have hsplit :=
        d.name.solid.splitWord_cons d.name.ne_nil p.trimmed p.ne_nil hspace allBlank_nil
      rw [List.append_nil, List.singleton_append] at hsplit
      rw [Option.map_some, Option.getD_some, Titled.read, hsplit]
      simp only [p.trimmed.nonBlank? p.ne_nil]
      rfl
  have hextends : ∀ p : Word, Titled.read (' ' :: p.chars) = ⟨String.ofList p.chars, none⟩ := by
    intro p
    rw [Titled.read, hword]
    rfl
  have hnames : ∀ text, Tag.read "class" text = .declares (Titled.read text) ∧
      Tag.read "extends" text = .inherits (Titled.read text) ∧
      Tag.read "cfg" text = .cfg (Item.read text) :=
    fun _ => ⟨rfl, rfl, rfl⟩
  rw [Comment.block, hx, DocBlock.read_tagLines d.isTagLine_of_mem]
  simp only [tags, List.map_cons, List.map_append, List.map_map, String.ofList_toList,
    Function.comp_def, hnames, hclass, hextends]

end WrittenClass

/-! ## What is read -/

/-- The config option that is read. -/
def WrittenCfg.readAs (c : WrittenCfg) (style : LinkStyle) (owner : ClassName) : Cfg where
  name := (Item.read c.text).name
  owner := owner
  description :=
    (Description.ofText style (nonEmpty? (Item.read c.text).description <|> some "")
      owner.full).value
  detail := { type := (Item.read c.text).type, optional := (Item.read c.text).optional }

namespace WrittenClass

variable (d : WrittenClass)

/-- The class that is read. -/
def readAs (style : LinkStyle) (fileName : String) : ClassEntry :=
  { d.entry style fileName with
    description := (Description.ofText style (some (String.ofList d.describing)) d.full).value }

section Classified

variable {x : Comment} (hx : x.body = String.ofList (DocBlock.bodyOf d.tags))

include hx

theorem declared_written :
    x.block.declared = [⟨d.full, d.description.map fun p => String.ofList p.chars⟩] := by
  rw [d.block_eq hx]
  simp [DocBlock.declared, List.filterMap_append, List.filterMap_map]

theorem inherited_written :
    x.block.inherited = d.parent.toList.map fun p => ⟨String.ofList p.chars, none⟩ := by
  rw [d.block_eq hx]
  simp [DocBlock.inherited, List.filterMap_append, List.filterMap_map]

theorem cfgs_written : x.block.cfgs = d.cfgs.map fun c => Item.read c.text := by
  rw [d.block_eq hx]
  simp [DocBlock.cfgs, List.filterMap_append, List.filterMap_map]

theorem flagged_written (f : Flag) : x.block.flagged f = [] := by
  rw [d.block_eq hx]
  simp [DocBlock.flagged, List.filterMap_append, List.filterMap_map]

theorem description_written : x.block.description = "" := by
  rw [d.block_eq hx]

theorem classEntry_written (cl : Classifier) (ctx : Context) :
    (cl.classEntry x.block ⟨d.full, d.description.map fun p => String.ofList p.chars⟩ ctx).value =
      d.readAs cl.style ctx.fileName := by
  have hparent : nonEmpty? (x.block.inherited.head?.map (·.name)) = d.parent.map fun p =>
      String.ofList p.chars := by
    rw [d.inherited_written hx]
    cases d.parent with
    | none => rfl
    | some p =>
      have hne : String.ofList p.chars ≠ "" := fun h => p.ne_nil (String.ofList_injective h)
      simp [nonEmpty?, Option.filter, hne]
  have htext : ((d.description.map fun p => String.ofList p.chars) <|>
      x.block.inherited.head?.bind (·.description) <|>
      some x.block.description) = some (String.ofList d.describing) := by
    have hbind : x.block.inherited.head?.bind (·.description) = none := by
      rw [d.inherited_written hx]
      cases d.parent <;> rfl
    rw [hbind, d.description_written hx, describing]
    cases d.description <;> rfl
  have hhas : ∀ f, x.block.has f = false := by
    intro f
    rw [DocBlock.has, d.flagged_written hx]
    rfl
  simp only [Classifier.classEntry, Logged.value_bind, d.flagged_written hx, List.head?_nil,
    Logged.value_pure, hparent, htext, DocBlock.excluded, hhas]
  rfl

/-- A class comment is read as the class and its config options, which belong to it. -/
theorem classify_written (cl : Classifier) (ctx : Context) :
    (cl.classify x ctx).value =
      ⟨.ofClass, .ofClass (d.readAs cl.style ctx.fileName) ::
        d.cfgs.map (fun c => .cfg (c.readAs cl.style (ClassName.ofFull d.full))),
        { ctx with owner := ClassName.ofFull d.full }⟩ := by
  have hhead : x.block.declared.head? =
      some ⟨d.full, d.description.map fun p => String.ofList p.chars⟩ := by
    rw [d.declared_written hx]
    rfl
  have hcfg : ∀ (item : Item) (owner : ClassName), (cl.cfg x.block item owner false false).value =
      { name := item.name, owner,
        description :=
        (Description.ofText cl.style (nonEmpty? item.description <|> some "") owner.full).value,
        detail := { type := item.type, optional := item.optional } } := by
    intro item owner
    simp only [Classifier.cfg, Classifier.describe, Logged.value_bind, Logged.value_pure,
      d.description_written hx]
  rw [cl.classify_class hhead]
  simp only [Classifier.classComment, Logged.value_bind, Logged.value_pure, d.classEntry_written hx,
    Logged.value_mapM, hcfg, d.cfgs_written hx, List.map_map]
  rfl

end Classified

end WrittenClass

end ClassReference
