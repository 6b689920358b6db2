import ClassReference.Proofs.TagLines

/-!
# Proofs: comments put together at a tag

A comment body that starts with a tag can be put behind another one, with a line feed between them:
the tags of the second come behind those of the first, and the description is that of the first
(`DocBlock.read_joined`). The line feed may end a line, follow a line that has ended, or belong to a
carriage return; at most it makes an empty line, and an empty line at the end of a description or of
a tag makes no difference.
-/

namespace ClassReference

open Text

/-! ## Lines -/

namespace Text

/-- A line starts with its first character, unless that is a break. -/
theorem lines_cons {c : Char} {s : List Char} (h : c = '\r' → s.head? ≠ some '\n') :
    lines (c :: s) = if isLineBreak c then [] :: lines s else consLine c (lines s) := by
  rw [lines]
  rintro rest rfl rfl
  exact h rfl rfl

theorem lines_ne_nil {s : List Char} (h : s ≠ []) : lines s ≠ [] := by
  fun_cases lines s with
  | case1 => exact absurd rfl h
  | case2 => exact List.cons_ne_nil _ _
  | case3 => exact List.cons_ne_nil _ _
  | case4 c rest =>
    unfold consLine
    split <;> exact List.cons_ne_nil _ _

theorem consLine_append {ls : List (List Char)} (h : ls ≠ []) (c : Char) (ms : List (List Char)) :
    consLine c (ls ++ ms) = consLine c ls ++ ms := by
  obtain ⟨l, ls, rfl⟩ := List.exists_cons_of_ne_nil h
  rfl

/-- A line feed between two texts adds at most an empty line to the lines of both. -/
theorem lines_append_newline (a b : List Char) :
    lines (a ++ '\n' :: b) = lines a ++ lines b ∨
      lines (a ++ '\n' :: b) = lines a ++ [] :: lines b := by
  fun_induction lines a with
  | case1 => exact Or.inr (lines_newline b)
  | case2 rest ih =>
    rw [List.cons_append, List.cons_append, lines]
    exact ih.imp (congrArg ([] :: ·)) (congrArg ([] :: ·))
  | case3 c rest hcr hbreak ih =>
    by_cases hlast : c = '\r' ∧ rest = []
    · -- the line feed belongs to the carriage return
      obtain ⟨rfl, rfl⟩ := hlast
      exact Or.inl (by rw [List.singleton_append, lines]; rfl)
    · have hnext : c = '\r' → (rest ++ '\n' :: b).head? ≠ some '\n' := by
        rintro rfl
        cases rest with
        | nil => exact absurd ⟨rfl, rfl⟩ hlast
        | cons r rest =>
          intro hr
          exact hcr rest rfl (congrArg (· :: rest) (Option.some.inj hr))
      rw [List.cons_append, lines_cons hnext, if_pos hbreak]
      exact ih.imp (congrArg ([] :: ·)) (congrArg ([] :: ·))
  | case4 c rest hcr hbreak ih =>
    have hnext : c = '\r' → (rest ++ '\n' :: b).head? ≠ some '\n' := by
      rintro rfl
      exact absurd (by decide) hbreak
    rw [List.cons_append, lines_cons hnext, if_neg hbreak]
    cases rest with
    | nil => exact Or.inl (by rw [List.nil_append, lines_newline]; rfl)
    | cons r rest =>
      have hne := lines_ne_nil (List.cons_ne_nil r rest)
      rw [← consLine_append hne, ← consLine_append hne]
      exact ih.imp (congrArg (consLine c)) (congrArg (consLine c))

end Text

/-! ## Tags -/

/-- Whether a line starts a tag. -/
def BodyLine.isTag : BodyLine → Bool
  | tag .. => true
  | text _ => false

namespace DocBlock

/-- The lines of a comment body. -/
def bodyLines (body : String) : List BodyLine :=
  (lines body.toList).map BodyLine.read

/-- Whether the first line of a comment body starts a tag. -/
def opensTag (body : String) : Bool :=
  (bodyLines body).head?.any (·.isTag)

/-- Lines that start with a tag are gathered by themselves, whatever stands before them. -/
theorem gather_append {ms : List BodyLine} (h : ms.head?.any (·.isTag) = true)
    (ls : List BodyLine) :
    (gather ms).1 = [] ∧ gather (ls ++ ms) = ((gather ls).1, (gather ls).2 ++ (gather ms).2) := by
  have hms : (gather ms).1 = [] := by
    cases ms with
    | nil => cases h
    | cons m ms =>
      cases m with
      | text line => cases h
      | tag name first => rfl
  refine ⟨hms, ?_⟩
  induction ls with
  | nil => exact Prod.ext hms rfl
  | cons l ls ih => cases l <;> simp only [List.cons_append, gather, ih]

theorem ofLines_append {ms : List BodyLine} (h : ms.head?.any (·.isTag) = true)
    (ls : List BodyLine) :
    ofLines (ls ++ ms) =
      { description := (ofLines ls).description,
        tags := (ofLines ls).tags ++ (ofLines ms).tags } := by
  simp only [ofLines, (gather_append h ls).2, List.map_append]

/-- In front of a tag, the line feed leaves no trace. -/
theorem read_append_newline {b : String} (hb : opensTag b = true) (a : String) :
    read (a ++ "\n" ++ b) = ofLines (bodyLines a ++ bodyLines b) := by
  have hchars : (a ++ "\n" ++ b).toList = a.toList ++ '\n' :: b.toList := by simp
  rw [read, hchars]
  rcases lines_append_newline a.toList b.toList with hlines | hlines
  · rw [hlines, List.map_append]
    rfl
  · have hempty : (lines a.toList ++ [] :: lines b.toList).map BodyLine.read =
        bodyLines a ++ [.text []] ++ bodyLines b := by
      rw [List.append_cons, List.map_append, List.map_append]
      rfl
    rw [hlines, hempty, ofLines_append hb, ofLines_concat_empty, ofLines_append hb]

/-- Where a tag starts, a comment can be cut in two at a line feed: its description and its first
tags are those of the first part, and its other tags are those of the second, which has no
description. -/
theorem read_joined {b : String} (hb : opensTag b = true) (a : String) :
    read (a ++ "\n" ++ b) =
        { description := (read a).description, tags := (read a).tags ++ (read b).tags } ∧
      (read b).description = "" := by
  constructor
  · rw [read_append_newline hb, ofLines_append hb]
    rfl
  · change (ofLines (bodyLines b)).description = ""
    simp only [ofLines, (gather_append hb []).1]
    rfl

/-- A tag that is still open, in front of a carriage return. -/
theorem read_openTag_joined :
    opensTag " * @return {Number} Its age\r\n" = true ∧
    read ("Asks.\n * @param {Number} n?\r" ++ "\n" ++ " * @return {Number} Its age\r\n") =
      { description := "Asks."
        tags := [.param ⟨"n", some "Number", none, true⟩, .returns (some "Number")
          (some "Its age")] } := by
  have hopens : opensTag " * @return {Number} Its age\r\n" = true := by decide +kernel
  refine ⟨hopens, ?_⟩
  rw [(read_joined hopens _).1]
  decide +kernel

end DocBlock

/-! ## Any number of parts -/

/-- A part of a comment body that starts with a tag. -/
structure TagPart where
  text : String
  opensTag : DocBlock.opensTag text = true

namespace TagPart

def tags (p : TagPart) : List Tag :=
  (DocBlock.read p.text).tags

/-- A comment body that goes on with parts that start with a tag. -/
def joined (head : String) (parts : List TagPart) : String :=
  "\n".intercalate (head :: parts.map (·.text))

theorem read_joined_parts (head : String) (parts : List TagPart) :
    DocBlock.read (joined head parts) =
      { description := (DocBlock.read head).description
        tags := (DocBlock.read head).tags ++ parts.flatMap (·.tags) } := by
  induction parts generalizing head with
  | nil =>
    rw [List.flatMap_nil, List.append_nil]
    rfl
  | cons p parts ih =>
    have hhead : DocBlock.read (head ++ "\n" ++ p.text) =
        { description := (DocBlock.read head).description,
          tags := (DocBlock.read head).tags ++ p.tags } := by
      rw [DocBlock.read_append_newline p.opensTag, DocBlock.ofLines_append p.opensTag]
      rfl
    -- the first part is taken into the head
    change DocBlock.read (joined (head ++ "\n" ++ p.text) parts) = _
    rw [ih, hhead, List.flatMap_cons, List.append_assoc]

end TagPart

end ClassReference
