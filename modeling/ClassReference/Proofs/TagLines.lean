import ClassReference.DocBlock
import ClassReference.Proofs.TextParts
import Mathlib.Data.List.Forall2

/-!
# Proofs: tags and the lines they are written on

Blanks around the text of a tag never matter, and nothing else is ignored under every name
(`Tag.read_without_margins`). So a tag that ends a comment is read like one that is followed by
another tag. A comment with one tag on each line is read as these tags (`DocBlock.read_tagLines`).
What a typed item is read as depends on its type, its name and its description, once these are found
(`Item.ofParts`).
-/

namespace ClassReference

open Text

/-! ## Blanks around the text of a tag -/

namespace Text

theorem splitWord_append {u v : List Char} (hu : AllBlank u) (hv : AllBlank v) (s : List Char) :
    splitWord (u ++ s ++ v) = splitWord s := by
  simp only [splitWord, trim_append hu hv]

theorem nonBlank?_append {u v : List Char} (hu : AllBlank u) (hv : AllBlank v) (s : List Char) :
    nonBlank? (u ++ s ++ v) = nonBlank? s := by
  simp only [nonBlank?, trim_append hu hv]

/-- Behind a text that is not blank, blanks are left when the text is trimmed at its start. -/
theorem trimStart_append_of_not_blank {u s : List Char} (hu : AllBlank u) (hs : ¬ AllBlank s)
    (v : List Char) : trimStart (u ++ s ++ v) = trimStart s ++ v := by
  have hne : (s.dropWhile isBlank).isEmpty = false := by
    rw [List.isEmpty_eq_false_iff]
    exact fun h => hs (trimStart_eq_nil_iff.mp h)
  rw [List.append_assoc, trimStart_append hu, trimStart, List.dropWhile_append, hne]
  rfl

/-- A word at the start of a text does not change with the blanks around the text. -/
theorem takeWord_trimStart_append {u v : List Char} (hu : AllBlank u) (hv : AllBlank v)
    (s : List Char) : takeWord (trimStart (u ++ s ++ v)) = takeWord (trimStart s) := by
  by_cases hs : AllBlank s
  · rw [trimStart_eq_nil_iff.mpr hs, trimStart_eq_nil_iff.mpr ((hu.append hs).append hv)]
  · have hword : v.takeWhile (!isBlank ·) = [] := by
      cases v with
      | nil => rfl
      | cons c v => simp [hv c List.mem_cons_self]
    rw [trimStart_append_of_not_blank hu hs, takeWord, List.takeWhile_append, hword,
      List.append_nil]
    split
    · rename_i hall
      exact ((List.takeWhile_prefix _).eq_of_length hall).symm
    · rfl

theorem trim_dropWord_append {u v : List Char} (hu : AllBlank u) (hv : AllBlank v) (s : List Char) :
    trim (dropWord (trimStart (u ++ s ++ v))) = trim (dropWord (trimStart s)) := by
  by_cases hs : AllBlank s
  · rw [trimStart_eq_nil_iff.mpr hs, trimStart_eq_nil_iff.mpr ((hu.append hs).append hv)]
  · rw [trimStart_append_of_not_blank hu hs, dropWord, List.dropWhile_append]
    split
    · rename_i hempty
      have hv' : AllBlank (v.dropWhile (!isBlank ·)) :=
        fun c hc => hv c ((List.dropWhile_sublist _).subset hc)
      rw [trim_eq_nil_iff.mpr hv', dropWord, List.isEmpty_iff.mp hempty]
      rfl
    · exact trim_append allBlank_nil hv _

/-- An empty line at the end adds nothing but blanks to a text. -/
theorem joinLines_concat_nil (ls : List (List Char)) :
    ∃ v, AllBlank v ∧ joinLines (ls ++ [[]]) = joinLines ls ++ v := by
  cases ls with
  | nil => exact ⟨[], allBlank_nil, rfl⟩
  | cons l ls =>
    refine ⟨['\n'], allBlank_singleton (by decide), ?_⟩
    induction ls generalizing l with
    | nil => simp [joinLines, List.intercalate]
    | cons m ls ih =>
      have hcons : ∀ ms, joinLines (l :: m :: ms) = l ++ '\n' :: joinLines (m :: ms) := by
        intro ms
        simp [joinLines, List.intercalate_cons_cons]
      rw [List.cons_append, List.cons_append, hcons, hcons, ← List.cons_append, ih]
      simp

end Text

namespace Item

/-- A typed item with the given type, word and description: marks on the word and before the
description are taken off, and make the item optional. -/
def ofParts (type : Option String) (word description : List Char) : Item :=
  let bracketed := readBracketed word
  let questioned := readQuestioned (bracketed.getD word)
  let marked := dropMark optionalMark description
  { name := String.ofList (questioned.getD (bracketed.getD word))
    type
    description := nonBlank? (marked.getD description)
    optional := bracketed.isSome || questioned.isSome || marked.isSome }

theorem read_of_type {text type rest : List Char} (h : readType text = some (type, rest)) :
    read text = ofParts (nonBlank? type) (takeWord (trimStart rest))
      (trim (dropWord (trimStart rest))) := by
  simp only [read, h]
  rfl

theorem read_of_no_type {text : List Char} (h : readType text = none) :
    read text = ofParts none (takeWord (trimStart text)) (trim (dropWord (trimStart text))) := by
  simp only [read, h]
  rfl

theorem readType_append {u v : List Char} (hu : AllBlank u) (hv : AllBlank v) (s : List Char) :
    readType (u ++ s ++ v) = (readType s).map fun p => (p.1, p.2 ++ v) := by
  unfold readType
  by_cases hs : AllBlank s
  · rw [trimStart_eq_nil_iff.mpr hs, trimStart_eq_nil_iff.mpr ((hu.append hs).append hv)]
    rfl
  · rw [trimStart_append_of_not_blank hu hs]
    cases ht : trimStart s with
    | nil => exact absurd (trimStart_eq_nil_iff.mp ht) hs
    | cons c r =>
      by_cases hc : c = '{'
      · subst hc
        simp only [List.cons_append]
        rcases cutFirst_cases '}' r with ⟨hfree, hcut⟩ | ⟨a, b, rfl, ha, hcut⟩
        · have hfree' : '}' ∉ r ++ v := by
            rw [List.mem_append, not_or]
            exact ⟨hfree, hv.not_mem (by decide)⟩
          rw [hcut, cutFirst_eq_none hfree']
          rfl
        · rw [hcut, List.append_assoc, List.cons_append, cutFirst_append ha]
          rfl
      · simp [hc]

/-- Blanks around the text of an item do not matter. -/
theorem read_append {u v : List Char} (hu : AllBlank u) (hv : AllBlank v) (s : List Char) :
    read (u ++ s ++ v) = read s := by
  have htype := readType_append hu hv s
  cases hs : readType s with
  | none =>
    rw [hs] at htype
    rw [read_of_no_type hs, read_of_no_type htype, takeWord_trimStart_append hu hv,
      trim_dropWord_append hu hv]
  | some p =>
    obtain ⟨type, rest⟩ := p
    rw [hs] at htype
    rw [read_of_type hs, read_of_type htype]
    have hword := takeWord_trimStart_append allBlank_nil hv rest
    have hdescription := trim_dropWord_append allBlank_nil hv rest
    rw [List.nil_append] at hword hdescription
    rw [hword, hdescription]

end Item

theorem Titled.read_append {u v : List Char} (hu : AllBlank u) (hv : AllBlank v) (s : List Char) :
    Titled.read (u ++ s ++ v) = Titled.read s := by
  simp only [Titled.read, splitWord_append hu hv]

namespace Tag

variable {u v : List Char}

theorem readWord?_append (hu : AllBlank u) (hv : AllBlank v) (s : List Char) :
    readWord? (u ++ s ++ v) = readWord? s := by
  simp only [readWord?, splitWord_append hu hv]

theorem readMember_append (hu : AllBlank u) (hv : AllBlank v) (s : List Char) :
    readMember (u ++ s ++ v) = readMember s := by
  simp only [readMember, splitWord_append hu hv]

theorem readWholeType_append (hu : AllBlank u) (hv : AllBlank v) (s : List Char) :
    readWholeType (u ++ s ++ v) = readWholeType s := by
  simp only [readWholeType, trim_append hu hv]

theorem readReturns_append (hu : AllBlank u) (hv : AllBlank v) (s : List Char) :
    readReturns (u ++ s ++ v) = readReturns s := by
  unfold readReturns
  rw [Item.readType_append hu hv]
  cases Item.readType s with
  | none => simp only [Option.map_none, nonBlank?_append hu hv]
  | some p =>
    have hrest := nonBlank?_append allBlank_nil hv p.2
    rw [List.nil_append] at hrest
    simp only [Option.map_some, hrest]

/-- Blanks around the text of a tag do not matter. -/
theorem read_append (hu : AllBlank u) (hv : AllBlank v) (name : String) (s : List Char) :
    read name (u ++ s ++ v) = read name s := by
  -- how the text is read depends on the name alone
  unfold read
  simp only [Titled.read_append hu hv, Item.read_append hu hv, readWord?_append hu hv,
    readReturns_append hu hv, readWholeType_append hu hv, readMember_append hu hv,
    trim_append hu hv]

theorem read_trim (name : String) (s : List Char) : read name (trim s) = read name s := by
  obtain ⟨u, v, hu, hv, hs⟩ := exists_eq_trim s
  have happend := read_append hu hv name (trim s)
  rw [← hs] at happend
  exact happend.symm

/-- Blanks around the text of a tag do not matter, whatever its name is. Nothing else is without
effect under every name: two texts are read alike under all of them exactly if they are the same
once trimmed. -/
theorem read_without_margins :
    (∀ (name : String) (u s v : List Char), AllBlank u → AllBlank v →
      read name (u ++ s ++ v) = read name s) ∧
    ∀ s t : List Char, (∀ name, read name s = read name t) ↔ trim s = trim t := by
  constructor
  · intro name u s v hu hv
    exact read_append hu hv name s
  · intro s t
    constructor
    · intro h
      -- the text of a tag that is not known is kept
      have hkept : unknown "" (String.ofList (trim s)) = unknown "" (String.ofList (trim t)) := h ""
      exact String.ofList_injective (unknown.inj hkept).2
    · intro h name
      rw [← read_trim name s, h, read_trim]

/-- A brace that is never closed opens no type, with blanks and line breaks around the text as
without them. -/
theorem read_open_brace :
    read "param" ("\r\n\x1f".toList ++ "\x7bNumber  [size]".toList ++ "\u2028\t".toList) =
      param ⟨"\x7bNumber", none, some "[size]", false⟩ := by
  have hbefore : AllBlank "\r\n\x1f".toList := List.all_eq_true.mp (by decide)
  have hbehind : AllBlank "\u2028\t".toList := List.all_eq_true.mp (by decide)
  exact (read_without_margins.1 "param" _ _ _ hbefore hbehind).trans rfl

end Tag

/-! ## Written items -/

namespace Item

theorem readType_braces {u type : List Char} (hu : AllBlank u) (htype : '}' ∉ type)
    (rest : List Char) : readType (u ++ '{' :: (type ++ '}' :: rest)) = some (type, rest) := by
  have hstart : trimStart (u ++ '{' :: (type ++ '}' :: rest)) = '{' :: (type ++ '}' :: rest) := by
    rw [trimStart_append hu, trimStart_cons (by decide)]
  unfold readType
  rw [hstart]
  simp only [cutFirst_append htype]

theorem readType_eq_none {s : List Char} (h : (trimStart s).head? ≠ some '{') :
    readType s = none := by
  unfold readType
  split
  · rename_i hs
    rw [hs] at h
    exact absurd rfl h
  · rfl

section Written

variable {word tail : List Char} (hword : Solid word) (hne : word ≠ [])
  (htail : ∀ c ∈ tail.head?, isBlank c = true)

include hword hne

theorem trimStart_word (tail : List Char) : trimStart (word ++ tail) = word ++ tail := by
  refine trimStart_of_start fun c hc => hword.trimmed.start c ?_
  rwa [List.head?_append_of_ne_nil word hne] at hc

include htail

/-- An item is read as its parts: a type between braces, a word, and what follows the word. -/
theorem read_braces {u type : List Char} (hu : AllBlank u) (htype : '}' ∉ type) :
    read (u ++ '{' :: (type ++ '}' :: ' ' :: (word ++ tail))) =
      ofParts (nonBlank? type) word (trim tail) := by
  have hstart : trimStart (' ' :: (word ++ tail)) = word ++ tail := by
    rw [← List.singleton_append, trimStart_append (allBlank_singleton isBlank_space),
      trimStart_word hword hne]
  rw [read_of_type (readType_braces hu htype _), hstart, hword.takeWord_append htail,
    hword.dropWord_append htail]

/-- Without a type, an item starts with its word. -/
theorem read_word (hstart : word.head? ≠ some '{') :
    read (word ++ tail) = ofParts none word (trim tail) := by
  have htype : readType (word ++ tail) = none := by
    refine readType_eq_none ?_
    rwa [trimStart_word hword hne, List.head?_append_of_ne_nil word hne]
  rw [read_of_no_type htype, trimStart_word hword hne, hword.takeWord_append htail,
    hword.dropWord_append htail]

end Written

/-- A type with a closing brace in it is cut there. -/
theorem type_read_ne {type rest : List Char} (h : '}' ∈ type) :
    (read ([' ', '{'] ++ type ++ rest)).type ≠ some (String.ofList type) := by
  obtain ⟨a, b, rfl, ha⟩ := List.eq_append_cons_of_mem h
  have hread := readType_braces (allBlank_singleton isBlank_space) ha (b ++ rest)
  have hparts :
      [' ', '{'] ++ (a ++ '}' :: b) ++ rest = [' '] ++ '{' :: (a ++ '}' :: (b ++ rest)) := by simp
  rw [hparts, read_of_type hread]
  -- what is left of the type is shorter
  intro heq
  change nonBlank? a = _ at heq
  unfold nonBlank? at heq
  have hlength := length_trim_le a
  split at heq
  · cases heq
  · rw [String.ofList_injective (Option.some.inj heq), List.length_append,
      List.length_cons] at hlength
    omega

/-! ## Marks -/

theorem readBracketed_eq_none_iff {name : List Char} :
    readBracketed name = none ↔ ¬ ∃ inner, name = '[' :: inner ++ [']'] := by
  have hbracketed : ∀ rest : List Char, rest.getLast? = some ']' ↔
      ∃ inner, rest = inner ++ [']'] := by
    intro rest
    rw [List.getLast?_eq_some_iff]
  unfold readBracketed
  split
  · rename_i rest
    rw [ite_eq_right_iff]
    simp only [reduceCtorEq, imp_false, hbracketed, List.cons_append, List.cons.injEq, true_and]
  · rename_i hstart
    refine iff_of_true rfl ?_
    rintro ⟨inner, rfl⟩
    exact hstart _ rfl

theorem readBracketed_brackets (name : List Char) :
    readBracketed ('[' :: name ++ [']']) = some name := by
  simp [readBracketed]

theorem readQuestioned_eq_none_iff {name : List Char} :
    readQuestioned name = none ↔ name.getLast? ≠ some '?' := by
  simp [readQuestioned]

/-- The text is the mark in words, in some spelling. -/
def SpellsMark (m : List Char) : Prop :=
  List.Forall₂ (fun letter c => spells letter c = true) optionalMark m

theorem dropMark_eq_some_iff {mark d rest : List Char} :
    dropMark mark d = some rest ↔
      ∃ m, List.Forall₂ (fun letter c => spells letter c = true) mark m ∧ d = m ++ rest := by
  induction mark generalizing d with
  | nil =>
    rw [dropMark, Option.some.injEq]
    constructor
    · rintro rfl
      exact ⟨[], .nil, rfl⟩
    · rintro ⟨m, hm, rfl⟩
      cases hm
      rfl
  | cons letter mark ih =>
    cases d with
    | nil =>
      rw [dropMark]
      constructor
      · intro h
        cases h
      · rintro ⟨m, hm, heq⟩
        cases hm
        cases heq
    | cons c d =>
      rw [dropMark]
      constructor
      · intro h
        split at h
        · rename_i hc
          obtain ⟨m, hm, rfl⟩ := ih.mp h
          exact ⟨c :: m, .cons hc hm, rfl⟩
        · cases h
      · rintro ⟨m, hm, heq⟩
        cases hm with
        | cons hc hm =>
          obtain ⟨rfl, rfl⟩ := List.cons.inj heq
          rw [if_pos hc]
          exact ih.mpr ⟨_, hm, rfl⟩

theorem dropMark_eq_none_iff {d : List Char} :
    dropMark optionalMark d = none ↔ ∀ m rest, d = m ++ rest → ¬ SpellsMark m := by
  rw [Option.eq_none_iff_forall_ne_some]
  constructor
  · intro h m rest heq hm
    exact h rest (dropMark_eq_some_iff.mpr ⟨m, hm, heq⟩)
  · intro h rest heq
    obtain ⟨m, hm, rfl⟩ := dropMark_eq_some_iff.mp heq
    exact h m rest rfl hm

theorem SpellsMark.ne_nil {m : List Char} (h : SpellsMark m) : m ≠ [] := by
  rintro rfl
  cases h

/-- No spelling of the mark has a hyperlink in it. -/
theorem SpellsMark.not_mem {m : List Char} (h : SpellsMark m) : '<' ∉ m := by
  have hletters : ∀ letter ∈ optionalMark, spells letter '<' = false := by
    have hall : optionalMark.all (fun letter => !spells letter '<') = true := by decide
    simpa using hall
  unfold SpellsMark at h
  revert hletters
  generalize optionalMark = mark at h
  intro hletters
  induction h with
  | nil => exact List.not_mem_nil
  | @cons letter c mark m hc _ ih =>
    rw [List.mem_cons, not_or]
    refine ⟨?_, ih fun l hl => hletters l (List.mem_cons_of_mem _ hl)⟩
    rintro rfl
    rw [hletters letter List.mem_cons_self] at hc
    cases hc

end Item

/-! ## Decorations -/

/-- What a line of a comment may start with: spaces and tabs, and behind them asterisks and a
space. -/
structure Decoration where
  margin : List Char
  asterisks : Nat
  space : Bool
  isMargin : ∀ c ∈ margin, c = ' ' ∨ c = '\t'

namespace Decoration

variable (d : Decoration)

def chars : List Char :=
  d.margin ++ (List.replicate d.asterisks '*' ++ if d.space then [' '] else [])

theorem allBlank_margin : AllBlank d.margin := by
  intro c hc
  rcases d.isMargin c hc with rfl | rfl
  · exact isBlank_space
  · decide

theorem oneLine_chars : OneLine d.chars := by
  refine OneLine.append ?_ (OneLine.append ?_ ?_)
  · intro c hc
    rcases d.isMargin c hc with rfl | rfl <;> decide
  · intro c hc
    rw [List.eq_of_mem_replicate hc]
    decide
  · split
    · exact .of_all (by decide)
    · exact .of_all (by decide)

end Decoration

/-- A line without asterisks at its start loses its blanks only. -/
theorem BodyLine.undecorated_of_start {line : List Char}
    (h : ∀ c ∈ (trimStart line).head?, c ≠ '*') :
    undecorated line = trimStart line := by
  unfold undecorated
  split
  · rename_i rest hline
    rw [hline] at h
    exact absurd rfl (h '*' rfl)
  · rfl

/-- Whatever its decoration is, a line loses all of it and no more. -/
theorem BodyLine.undecorated_append (d : Decoration) {line : List Char}
    (h : ∀ c ∈ line.head?, isBlank c = false ∧ c ≠ '*') : undecorated (d.chars ++ line) = line := by
  have hblank : ∀ c ∈ line.head?, isBlank c = false := fun c hc => (h c hc).1
  have hline : trimStart line = line := trimStart_of_start hblank
  have hstart : trimStart (d.chars ++ line) =
      trimStart (List.replicate d.asterisks '*' ++ ((if d.space then [' '] else []) ++ line)) := by
    rw [Decoration.chars, List.append_assoc, trimStart_append d.allBlank_margin, List.append_assoc]
  have hspace : AllBlank (if d.space then [' '] else []) := by
    split
    · exact allBlank_singleton isBlank_space
    · exact allBlank_nil
  cases hn : d.asterisks with
  | zero =>
    rw [hn, List.replicate_zero, List.nil_append, trimStart_append hspace, hline] at hstart
    rw [undecorated_of_start, hstart]
    rw [hstart]
    exact fun c hc => (h c hc).2
  | succ n =>
    rw [hn, List.replicate_succ, List.cons_append, trimStart_cons (by decide)] at hstart
    have hasterisks : ∀ rest : List Char, (∀ c ∈ rest.head?, c ≠ '*') →
        (List.replicate n '*' ++ rest).dropWhile (· == '*') = rest := by
      intro rest hrest
      rw [List.dropWhile_append_of_pos (by simp)]
      cases rest with
      | nil => rfl
      | cons c rest => simp [hrest c rfl]
    unfold undecorated
    rw [hstart]
    -- one space is taken off with the asterisks; the line itself starts with none
    cases d.space with
    | true =>
      simp only [if_true, List.cons_append, List.nil_append]
      rw [hasterisks _ (by simp)]
      rfl
    | false =>
      simp only [Bool.false_eq_true, if_false, List.nil_append]
      rw [hasterisks _ fun c hc => (h c hc).2]
      split
      · exact absurd (hblank ' ' rfl) (by decide)
      · rfl

/-! ## Written comments -/

/-- The name and the text of a tag that can be written on one line. -/
structure IsTagLine (t : List Char × List Char) : Prop where
  name : ∃ c cs, t.1 = c :: cs ∧ BodyLine.startsName c = true ∧ ∀ x ∈ cs, isIdentifierChar x = true
  text : ∀ c ∈ t.2.head?, isIdentifierChar c = false
  oneLine : OneLine (t.1 ++ t.2)

/-- A name of a tag with a space and some text behind it. -/
theorem isTagLine_of_space {c : Char} {cs rest : List Char} (hc : BodyLine.startsName c = true)
    (hcs : cs.all isIdentifierChar = true) (hline : OneLine (c :: cs ++ ' ' :: rest)) :
    IsTagLine (c :: cs, ' ' :: rest) where
  name := ⟨c, cs, rfl, hc, List.all_eq_true.mp hcs⟩
  text := by
    intro x hx
    cases hx
    decide +kernel
  oneLine := hline

/-- The line of a tag in a comment. -/
def tagLine (t : List Char × List Char) : List Char :=
  " * @".toList ++ (t.1 ++ t.2)

theorem IsTagLine.oneLine_tagLine {t : List Char × List Char} (h : IsTagLine t) :
    OneLine (tagLine t) := by
  have hstart : OneLine " * @".toList := .of_all (by decide)
  exact hstart.append h.oneLine

/-- Behind any decoration, the line of a tag is read as that tag. -/
theorem IsTagLine.read_append {t : List Char × List Char} (h : IsTagLine t) (d : Decoration) :
    BodyLine.read (d.chars ++ '@' :: (t.1 ++ t.2)) = .tag t.1 t.2 := by
  obtain ⟨c, cs, hname, hc, hcs⟩ := h.name
  have hundecorated : BodyLine.undecorated (d.chars ++ '@' :: (t.1 ++ t.2)) =
      '@' :: c :: (cs ++ t.2) := by
    rw [BodyLine.undecorated_append, hname]
    · rfl
    · intro x hx
      cases hx
      decide
  have htake : (cs ++ t.2).takeWhile isIdentifierChar = cs := by
    rw [List.takeWhile_append_of_pos hcs]
    cases htext : t.2 with
    | nil => simp
    | cons x rest => simp [h.text x (by rw [htext]; rfl)]
  have hdrop : (cs ++ t.2).dropWhile isIdentifierChar = t.2 := by
    rw [List.dropWhile_append_of_pos hcs]
    cases htext : t.2 with
    | nil => rfl
    | cons x rest => simp [h.text x (by rw [htext]; rfl)]
  rw [BodyLine.read, hundecorated, BodyLine.ofUndecorated, trimStart_cons (by decide)]
  simp only [hc, if_true, htake, hdrop, hname]

theorem IsTagLine.read_tagLine {t : List Char × List Char} (h : IsTagLine t) :
    BodyLine.read (tagLine t) = .tag t.1 t.2 :=
  h.read_append ⟨[' '], 1, true, by simp⟩

namespace DocBlock

/-- The body of a comment with one tag on each line. -/
def bodyOf (ts : List (List Char × List Char)) : List Char :=
  '\n' :: (ts.flatMap (fun t => tagLine t ++ ['\n']) ++ [' '])

theorem lines_bodyOf {ts : List (List Char × List Char)} (h : ∀ t ∈ ts, IsTagLine t) :
    lines (bodyOf ts) = [] :: (ts.map tagLine ++ [[' ']]) := by
  have htags : lines (ts.flatMap (fun t => tagLine t ++ ['\n']) ++ [' ']) =
      ts.map tagLine ++ [[' ']] := by
    induction ts with
    | nil => decide
    | cons t ts ih =>
      have ht := (h t List.mem_cons_self).oneLine_tagLine
      have hrest := ih fun t' ht' => h t' (List.mem_cons_of_mem _ ht')
      rw [List.flatMap_cons, List.append_assoc, List.append_assoc, List.singleton_append,
        ht.lines_append, hrest]
      rfl
  have hempty : OneLine [] := by simp [OneLine]
  rw [bodyOf, ← List.nil_append ('\n' :: _), hempty.lines_append, htags]

/-- An empty line at the end goes to the description or to the last tag, where it makes no
difference. -/
theorem gather_concat_empty (ls : List BodyLine) :
    ((gather (ls ++ [.text []])).1 = (gather ls).1 ∨
      (gather (ls ++ [.text []])).1 = (gather ls).1 ++ [[]]) ∧
      (gather (ls ++ [.text []])).2.map (fun t => Tag.read (String.ofList t.1) (joinLines t.2)) =
        (gather ls).2.map fun t => Tag.read (String.ofList t.1) (joinLines t.2) := by
  induction ls with
  | nil => exact ⟨Or.inr rfl, rfl⟩
  | cons l ls ih =>
    obtain ⟨hlines, htags⟩ := ih
    cases l with
    | text line => exact ⟨hlines.imp (congrArg (line :: ·)) (congrArg (line :: ·)), htags⟩
    | tag name first =>
      have hread : Tag.read (String.ofList name)
          (joinLines (first :: (gather (ls ++ [.text []])).1)) =
          Tag.read (String.ofList name) (joinLines (first :: (gather ls).1)) := by
        rcases hlines with hlines | hlines
        · rw [hlines]
        · obtain ⟨v, hv, hjoin⟩ := joinLines_concat_nil (first :: (gather ls).1)
          have happend :=
            Tag.read_append allBlank_nil hv (String.ofList name)
            (joinLines (first :: (gather ls).1))
          rw [List.nil_append] at happend
          rw [hlines, ← List.cons_append, hjoin, happend]
      exact ⟨Or.inl rfl, congrArg₂ List.cons hread htags⟩

/-- An empty line at the end makes no difference. -/
theorem ofLines_concat_empty (ls : List BodyLine) : ofLines (ls ++ [.text []]) = ofLines ls := by
  obtain ⟨hlines, htags⟩ := gather_concat_empty ls
  have hdescription : trim (joinLines (gather (ls ++ [.text []])).1) =
      trim (joinLines (gather ls).1) := by
    rcases hlines with hlines | hlines
    · rw [hlines]
    · obtain ⟨v, hv, hjoin⟩ := joinLines_concat_nil (gather ls).1
      have happend := trim_append allBlank_nil hv (joinLines (gather ls).1)
      rw [List.nil_append] at happend
      rw [hlines, hjoin, happend]
  simp only [ofLines, hdescription, htags]

theorem gather_tags (ts : List (List Char × List Char)) :
    gather (ts.map fun t => .tag t.1 t.2) = ([], ts.map fun t => (t.1, [t.2])) := by
  induction ts with
  | nil => rfl
  | cons t ts ih => simp only [List.map_cons, gather, ih]

/-- A comment with one tag on each line is read as these tags. -/
theorem read_tagLines {ts : List (List Char × List Char)} (h : ∀ t ∈ ts, IsTagLine t) :
    DocBlock.read (String.ofList (bodyOf ts)) =
      { tags := ts.map fun t => Tag.read (String.ofList t.1) t.2 } := by
  have hread : (lines (bodyOf ts)).map BodyLine.read =
      .text [] :: ts.map (fun t => BodyLine.tag t.1 t.2) ++ [.text []] := by
    have htags : (ts.map tagLine).map BodyLine.read = ts.map fun t => BodyLine.tag t.1 t.2 := by
      rw [List.map_map]
      exact List.map_congr_left fun t ht => (h t ht).read_tagLine
    rw [lines_bodyOf h, List.map_cons, List.map_append, htags]
    rfl
  have hone : ∀ line : List Char, joinLines [line] = line := fun line => List.intercalate_singleton
  rw [DocBlock.read, String.toList_ofList, hread, ofLines_concat_empty, ofLines]
  simp only [gather, gather_tags, List.map_map, Function.comp_def, hone]
  rfl

end DocBlock

end ClassReference
