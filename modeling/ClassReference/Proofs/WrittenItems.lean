import ClassReference.Proofs.TagLines

/-!
# Proofs: typed items as they are written and read

A parameter or a config option is written as a type between braces, a name and a description; type
and description may be missing. That it is optional can be written in three ways: by brackets around
the name, by a question mark behind it, or in words before the description. Each of them is read
back, and nothing else is taken for it (`WrittenItem.read_as_typed`).
-/

namespace ClassReference

open Text

/-- A text that is not empty and has no blanks around it. It may have several lines. -/
structure Passage where
  chars : List Char
  ne_nil : chars ≠ []
  trimmed : Trimmed chars

/-- How it is written that an item is optional, if it is. -/
inductive Marking where
  | required
  | brackets
  | questionMark
  | words
deriving DecidableEq

namespace Marking

/-- The name with its marks. -/
def word (name : List Char) : Marking → List Char
  | brackets => '[' :: name ++ [']']
  | questionMark => name ++ ['?']
  | required => name
  | words => name

/-- The name has no marks of its own that would be taken for others. Behind a question mark, there
are none. -/
def Suits (name : List Char) : Marking → Prop
  | brackets => name.getLast? ≠ some '?'
  | questionMark => True
  | required => (¬ ∃ inner, name = '[' :: inner ++ [']']) ∧ name.getLast? ≠ some '?'
  | words => (¬ ∃ inner, name = '[' :: inner ++ [']']) ∧ name.getLast? ≠ some '?'

end Marking

/-- A typed item to be written. -/
structure WrittenItem where
  type : Option Passage
  name : List Char
  description : Option Passage
  marking : Marking
  ne_nil : name ≠ []
  solid : Solid name
  suits : marking.Suits name
  /-- The type ends where its braces are closed. -/
  unclosed : ∀ t ∈ type, '}' ∉ t.chars
  /-- The description does not start with the mark in words, in any spelling. -/
  unmarked : ∀ d ∈ description, ∀ m rest, d.chars = m ++ rest → ¬ Item.SpellsMark m
  /-- Without a type, the item does not start as if it had one. -/
  untyped : type = none → (marking.word name).head? ≠ some '{'

namespace WrittenItem

variable (w : WrittenItem)

def word : List Char :=
  w.marking.word w.name

/-- The description behind a space. -/
def described : List Char :=
  (w.description.map fun d => ' ' :: d.chars).getD []

/-- What is written behind the name. -/
def tail : List Char :=
  if w.marking = .words then " (optional)".toList ++ w.described else w.described

/-- The item as it is written. -/
def text : List Char :=
  (w.type.map fun t => '{' :: (t.chars ++ ['}', ' '])).getD [] ++ (w.word ++ w.tail)

/-- The item that is meant. -/
def item : Item where
  name := String.ofList w.name
  type := w.type.map fun t => String.ofList t.chars
  description := w.description.map fun d => String.ofList d.chars
  optional := w.marking ≠ .required

/-! ## Parts -/

theorem solid_word : Solid w.word := by
  unfold word
  cases w.marking with
  | required => exact w.solid
  | words => exact w.solid
  | brackets =>
    refine List.forall_mem_append.mpr ⟨List.forall_mem_cons.mpr ⟨by decide, w.solid⟩, ?_⟩
    exact List.forall_mem_singleton.mpr (by decide)
  | questionMark =>
    exact List.forall_mem_append.mpr ⟨w.solid, List.forall_mem_singleton.mpr (by decide)⟩

theorem word_ne_nil : w.word ≠ [] := by
  unfold word
  cases w.marking with
  | required => exact w.ne_nil
  | words => exact w.ne_nil
  | brackets => exact List.cons_ne_nil _ _
  | questionMark => exact List.append_ne_nil_of_right_ne_nil _ (List.cons_ne_nil _ _)

theorem isBlank_head_tail : ∀ c ∈ w.tail.head?, isBlank c = true := by
  have hdescribed : ∀ c ∈ w.described.head?, isBlank c = true := by
    unfold described
    cases w.description with
    | none => exact fun c hc => nomatch hc
    | some d => exact isBlank_head_space d.chars
  unfold tail
  split
  · exact isBlank_head_space _
  · exact hdescribed

/-- Whatever the name is, the type ends before it and the description starts behind it. -/
theorem read_parts :
    Item.read w.text = Item.ofParts (w.type.map fun t => String.ofList t.chars) w.word
      (trim w.tail) := by
  unfold text
  cases htype : w.type with
  | none => exact Item.read_word w.solid_word w.word_ne_nil w.isBlank_head_tail (w.untyped htype)
  | some t =>
    have hbraces :=
      Item.read_braces w.solid_word w.word_ne_nil w.isBlank_head_tail allBlank_nil
      (w.unclosed t htype)
    rw [t.trimmed.nonBlank? t.ne_nil] at hbraces
    simpa using hbraces

/-! ## Marks -/

/-- The marks on the name are taken off, and no more. -/
theorem readMarks_word :
    (Item.readQuestioned ((Item.readBracketed w.word).getD w.word)).getD
      ((Item.readBracketed w.word).getD w.word) =
        w.name ∧
      ((Item.readBracketed w.word).isSome ||
        (Item.readQuestioned ((Item.readBracketed w.word).getD w.word)).isSome) =
        decide (w.marking = .brackets ∨ w.marking = .questionMark) := by
  have hsuits := w.suits
  -- a name with no marks of its own stays as it is
  have hplain : (¬ ∃ inner, w.name = '[' :: inner ++ [']']) ∧ w.name.getLast? ≠ some '?' →
      Item.readBracketed w.name = none ∧ Item.readQuestioned w.name = none := by
    rintro ⟨hbrackets, hquestion⟩
    exact ⟨Item.readBracketed_eq_none_iff.mpr hbrackets,
      Item.readQuestioned_eq_none_iff.mpr hquestion⟩
  unfold word
  cases hm : w.marking with
  | required =>
    rw [hm] at hsuits
    simp [Marking.word, hplain hsuits]
  | words =>
    rw [hm] at hsuits
    simp [Marking.word, hplain hsuits]
  | brackets =>
    rw [hm] at hsuits
    have hquestioned := Item.readQuestioned_eq_none_iff.mpr hsuits
    rw [Marking.word, Item.readBracketed_brackets]
    simp [hquestioned]
  | questionMark =>
    -- the question mark stands where a closing bracket would have to stand
    have hbracketed : Item.readBracketed (w.name ++ ['?']) = none := by
      rw [Item.readBracketed_eq_none_iff]
      rintro ⟨inner, heq⟩
      have hlast := congrArg List.getLast? heq
      rw [List.getLast?_concat, List.getLast?_concat] at hlast
      exact absurd (Option.some.inj hlast) (by decide)
    simp [Marking.word, hbracketed, Item.readQuestioned]

theorem nonBlank?_described :
    nonBlank? w.described = w.description.map fun d => String.ofList d.chars := by
  unfold described
  cases w.description with
  | none => rfl
  | some d =>
    have hblank := nonBlank?_append (allBlank_singleton isBlank_space) allBlank_nil d.chars
    rw [List.append_nil, List.singleton_append] at hblank
    exact hblank.trans (d.trimmed.nonBlank? d.ne_nil)

/-- The mark in words is taken off the description, if it is there. -/
theorem readMark_tail :
    nonBlank? ((Item.dropMark Item.optionalMark (trim w.tail)).getD (trim w.tail)) =
        w.description.map (fun d => String.ofList d.chars) ∧
      (Item.dropMark Item.optionalMark (trim w.tail)).isSome = decide (w.marking = .words) := by
  by_cases hm : w.marking = .words
  · have htail : w.tail = ' ' :: ("(optional)".toList ++ w.described) := by
      rw [tail, if_pos hm]
      rfl
    have htrimmed : Trimmed ("(optional)".toList ++ w.described) := by
      have hmark : Trimmed "(optional)".toList := .of_all (by decide) (by decide)
      unfold described
      cases w.description with
      | none => rwa [Option.map_none, Option.getD_none, List.append_nil]
      | some d =>
        refine ⟨hmark.start, fun c hc => d.trimmed.stop c ?_⟩
        rwa [Option.map_some, Option.getD_some, List.getLast?_append_of_ne_nil _
          (List.cons_ne_nil _ _),
          List.getLast?_cons_of_ne_nil d.ne_nil] at hc
    have hspells : Item.SpellsMark "(optional)".toList := by
      have hall : "(optional)".toList.all (fun c => Item.spells c c) = true := by decide +kernel
      exact List.forall₂_same.mpr (List.all_eq_true.mp hall)
    have hmark : Item.dropMark Item.optionalMark (trim w.tail) = some w.described := by
      rw [htail, htrimmed.trim_cons_space]
      exact Item.dropMark_eq_some_iff.mpr ⟨_, hspells, rfl⟩
    rw [hmark]
    exact ⟨w.nonBlank?_described, (decide_eq_true hm).symm⟩
  · have hmark : Item.dropMark Item.optionalMark (trim w.described) = none := by
      unfold described
      cases hd : w.description with
      | none => rfl
      | some d =>
        rw [Option.map_some, Option.getD_some, d.trimmed.trim_cons_space]
        exact Item.dropMark_eq_none_iff.mpr (w.unmarked d hd)
    have htrim : nonBlank? (trim w.described) = nonBlank? w.described := by
      unfold nonBlank?
      rw [(trimmed_trim w.described).trim_eq]
    rw [tail, if_neg hm, hmark]
    exact ⟨htrim.trans w.nonBlank?_described, (decide_eq_false hm).symm⟩

theorem ofParts_eq :
    Item.ofParts (w.type.map fun t => String.ofList t.chars) w.word (trim w.tail) = w.item := by
  obtain ⟨hname, hmarks⟩ := w.readMarks_word
  obtain ⟨hdescription, hmark⟩ := w.readMark_tail
  have hoptional :
      (decide (w.marking = .brackets ∨ w.marking = .questionMark) || decide (w.marking = .words)) =
      decide (w.marking ≠ .required) := by
    cases w.marking <;> rfl
  simp only [Item.ofParts, item, hname, hmarks, hdescription, hmark, hoptional]

/-- A parameter or a config option is read as it was written: with its name, its type and its
description, whichever of these are given, and as optional exactly if it was marked so. -/
theorem read_as_typed :
    Tag.read "param" w.text = .param w.item ∧ Tag.read "cfg" w.text = .cfg w.item := by
  have hitem : Item.read w.text = w.item := w.read_parts.trans w.ofParts_eq
  exact ⟨congrArg Tag.param hitem, congrArg Tag.cfg hitem⟩

/-- An item with a name that has braces and brackets of its own, and with line feeds in its type and
its description. -/
def bracedName : WrittenItem where
  type := some ⟨"Number |\n[\x7bSize".toList, by decide, .of_all (by decide) (by decide)⟩
  name := "[{a}]".toList
  description := some ⟨"(option)\nits size?".toList, by decide, .of_all (by decide) (by decide)⟩
  marking := .questionMark
  ne_nil := by decide
  solid := .of_all (by decide)
  suits := trivial
  unclosed := by
    rintro _ ⟨⟩
    decide
  unmarked := by
    rintro _ ⟨⟩
    exact Item.dropMark_eq_none_iff.mp (by decide)
  untyped := fun h => nomatch h

theorem bracedName_read :
    String.ofList bracedName.text = "\x7bNumber |\n[\x7bSize\x7d [\x7ba\x7d]? (option)\nits size?" ∧
    Tag.read "param" bracedName.text =
      .param ⟨"[{a}]", some "Number |\n[\x7bSize", some "(option)\nits size?", true⟩ := by
  refine ⟨by decide +kernel, bracedName.read_as_typed.1.trans ?_⟩
  decide +kernel

end WrittenItem

end ClassReference
