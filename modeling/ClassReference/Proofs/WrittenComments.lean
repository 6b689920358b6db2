import ClassReference.Proofs.TagLines

/-!
# Proofs: comments as they are written and read

A comment is written as lines of description and then as tags, each with further lines of text
behind its own. Every line is laid out by itself: it has some decoration, and ends with or without a
carriage return before its line feed. Reading undoes the layout, whatever it is
(`WrittenBlock.read_as_written`).
-/

namespace ClassReference

open Text

/-! ## Lines -/

/-- How a line is laid out: what stands before it, and whether a carriage return stands before its
line feed. -/
structure Layout where
  decoration : Decoration
  carriageReturn : Bool

namespace Layout

variable (l : Layout)

def lineEnd : List Char :=
  if l.carriageReturn then ['\r', '\n'] else ['\n']

/-- A line as it is laid out. -/
def write (line : List Char) : List Char :=
  l.decoration.chars ++ line ++ l.lineEnd

theorem lines_lineEnd (rest : List Char) : lines (l.lineEnd ++ rest) = [] :: lines rest := by
  unfold lineEnd
  split
  · rw [List.cons_append, List.singleton_append, lines]
  · exact lines_newline rest

theorem lines_write {line : List Char} (h : OneLine line) (rest : List Char) :
    lines (l.write line ++ rest) = (l.decoration.chars ++ line) :: lines rest := by
  rw [write, List.append_assoc]
  exact (l.decoration.oneLine_chars.append h).lines_append_of_break (l.lines_lineEnd rest)

/-- Lines that are laid out one by one are found again with their decorations. -/
theorem lines_writeAll {ls : List (Layout × List Char)} (h : ∀ l ∈ ls, OneLine l.2) :
    lines (ls.flatMap fun l => l.1.write l.2) = ls.map fun l => l.1.decoration.chars ++ l.2 := by
  induction ls with
  | nil => rfl
  | cons l ls ih =>
    have hl := h l List.mem_cons_self
    have hls := ih fun k hk => h k (List.mem_cons_of_mem _ hk)
    rw [List.flatMap_cons, l.1.lines_write hl, hls, List.map_cons]

end Layout

/-- A line of text. It starts neither like a decorated line nor like a tag. -/
structure TextLine where
  chars : List Char
  layout : Layout
  oneLine : OneLine chars
  undecorated : ∀ c ∈ chars.head?, isBlank c = false ∧ c ≠ '*'
  untagged : ∀ c rest, chars = '@' :: c :: rest → BodyLine.startsName c = false

/-- A tag with the text on its own line, and with further lines of text. -/
structure TagLines where
  name : List Char
  text : List Char
  layout : Layout
  isTagLine : IsTagLine (name, text)
  more : List TextLine

/-- A comment to be written. -/
structure WrittenBlock where
  description : List TextLine
  tags : List TagLines

theorem TextLine.read_chars (t : TextLine) :
    BodyLine.read (t.layout.decoration.chars ++ t.chars) = .text t.chars := by
  have hstart : trimStart t.chars = t.chars := trimStart_of_start fun c hc => (t.undecorated c hc).1
  rw [BodyLine.read, BodyLine.undecorated_append _ t.undecorated, BodyLine.ofUndecorated, hstart]
  split
  · rename_i c rest hchars
    rw [t.untagged c rest hchars, if_neg (by decide)]
  · rfl

/-! ## Comments -/

namespace TagLines

variable (t : TagLines)

/-- The lines of the tag with their layouts. -/
def laidOut : List (Layout × List Char) :=
  (t.layout, '@' :: (t.name ++ t.text)) :: t.more.map fun l => (l.layout, l.chars)

/-- The lines of the tag as they are meant. -/
def bodyLines : List BodyLine :=
  .tag t.name t.text :: t.more.map fun l => .text l.chars

theorem oneLine_of_mem : ∀ l ∈ t.laidOut, OneLine l.2 := by
  intro l hl
  rcases List.mem_cons.mp hl with rfl | hl
  · exact List.forall_mem_cons.mpr ⟨by decide, t.isTagLine.oneLine⟩
  · obtain ⟨m, -, rfl⟩ := List.mem_map.mp hl
    exact m.oneLine

theorem read_laidOut :
    t.laidOut.map (fun l => BodyLine.read (l.1.decoration.chars ++ l.2)) = t.bodyLines := by
  simp only [laidOut, bodyLines, List.map_cons, List.map_map, Function.comp_def,
    TextLine.read_chars, t.isTagLine.read_append]

end TagLines

namespace DocBlock

theorem gather_texts (ls : List TextLine) (rest : List BodyLine) :
    gather (ls.map (fun l => .text l.chars) ++ rest) =
      (ls.map (·.chars) ++ (gather rest).1, (gather rest).2) := by
  induction ls with
  | nil => rfl
  | cons l ls ih => simp only [List.map_cons, List.cons_append, gather, ih]

/-- Each tag is gathered with the lines up to the next one. -/
theorem gather_bodyLines (ts : List TagLines) :
    gather (ts.flatMap (·.bodyLines)) =
      ([], ts.map fun t => (t.name, t.text :: t.more.map (·.chars))) := by
  induction ts with
  | nil => rfl
  | cons t ts ih =>
    have hmore := gather_texts t.more (ts.flatMap (·.bodyLines))
    rw [ih, List.append_nil] at hmore
    rw [List.flatMap_cons, TagLines.bodyLines, List.cons_append, gather, hmore, List.map_cons]

end DocBlock

namespace WrittenBlock

variable (b : WrittenBlock)

/-- All lines with their layouts. -/
def laidOut : List (Layout × List Char) :=
  b.description.map (fun l => (l.layout, l.chars)) ++ b.tags.flatMap (·.laidOut)

/-- The comment as it is written. -/
def chars : List Char :=
  b.laidOut.flatMap fun l => l.1.write l.2

theorem oneLine_of_mem : ∀ l ∈ b.laidOut, OneLine l.2 := by
  intro l hl
  rcases List.mem_append.mp hl with hl | hl
  · obtain ⟨m, -, rfl⟩ := List.mem_map.mp hl
    exact m.oneLine
  · obtain ⟨t, -, hl⟩ := List.mem_flatMap.mp hl
    exact t.oneLine_of_mem l hl

/-- A comment is read as it was written. Its description are the lines before the first tag, and the
text of a tag are all lines up to the next one; the layout of the lines leaves no trace. -/
theorem read_as_written :
    DocBlock.read (String.ofList b.chars) =
      { description := String.ofList (trim (joinLines (b.description.map (·.chars))))
        tags := b.tags.map fun t =>
          Tag.read (String.ofList t.name) (joinLines (t.text :: t.more.map (·.chars))) } := by
  have hlines : (lines b.chars).map BodyLine.read =
      b.description.map (fun l => .text l.chars) ++ b.tags.flatMap (·.bodyLines) := by
    rw [chars, Layout.lines_writeAll b.oneLine_of_mem, List.map_map, laidOut, List.map_append,
      List.map_map, List.map_flatMap]
    simp only [Function.comp_def, TextLine.read_chars, TagLines.read_laidOut]
  have hgather := DocBlock.gather_texts b.description (b.tags.flatMap (·.bodyLines))
  rw [DocBlock.gather_bodyLines, List.append_nil] at hgather
  rw [DocBlock.read, String.toList_ofList, hlines, DocBlock.ofLines, hgather]
  simp only [List.map_map, Function.comp_def]

/-- A description and a tag with a second line, each line laid out in its own way. -/
def oddlyLaidOut : WrittenBlock where
  description := [{
    chars := "Opens @ once.".toList
    layout := ⟨⟨['\t', ' '], 3, false, by simp⟩, true⟩
    oneLine := .of_all (by decide)
    undecorated := by simp [show isBlank 'O' = false by decide]
    untagged := by simp }]
  tags := [{
    name := "param".toList
    text := " {Number} size".toList
    layout := ⟨⟨[], 0, false, by simp⟩, false⟩
    isTagLine := isTagLine_of_space (by decide) (by decide +kernel) (.of_all (by decide))
    more := [{
      chars := "@1 in pixels".toList
      layout := ⟨⟨[' '], 1, true, by simp⟩, true⟩
      oneLine := .of_all (by decide)
      undecorated := by simp [show isBlank '@' = false by decide]
      untagged := by
        intro c rest h
        obtain ⟨-, hrest⟩ := List.cons.inj h
        obtain ⟨rfl, -⟩ := List.cons.inj hrest
        decide }] }]

theorem oddlyLaidOut_read :
    String.ofList oddlyLaidOut.chars =
      "\t ***Opens @ once.\r\n@param {Number} size\n * @1 in pixels\r\n" ∧
    DocBlock.read (String.ofList oddlyLaidOut.chars) =
      { description := "Opens @ once.",
        tags := [.param ⟨"size", some "Number", some "@1 in pixels", false⟩] } := by
  refine ⟨by decide +kernel, ?_⟩
  rw [read_as_written]
  decide +kernel

end WrittenBlock

end ClassReference
