import ClassReference.Proofs.CommentReading
import ClassReference.Proofs.EncodedTexts
import ClassReference.Proofs.TextParts
import ClassReference.SourceFile

/-!
# Proofs: source files are scanned as one text

A source file is decoded in chunks and scanned in blocks, and neither is seen in what is found: the
comments are those of the text that the file holds. Where a file holds no text, the blocks before
the fault are scanned and nothing is closed. What is found then are the comments that another one is
opened behind (`Comment.completed`), which no text behind the blocks can change
(`SourceFile.scan_as_text`).
-/

namespace ClassReference

namespace Text

/-! ## Line ends -/

/-- The text with one line feed for each line end. -/
def unified : List Char → List Char
  | [] => []
  | '\r' :: '\n' :: s => '\n' :: unified s
  | c :: s => (if c = '\r' then '\n' else c) :: unified s

theorem unified_cons {c : Char} {s : List Char} (h : c = '\r' → s.head? ≠ some '\n') :
    unified (c :: s) = (if c = '\r' then '\n' else c) :: unified s := by
  rw [unified]
  rintro s' rfl rfl
  exact h rfl rfl

theorem foldr_consUnified (s : List Char) :
    s.foldr consUnified ([], false) = (unified s, decide (s.head? = some '\n')) := by
  fun_induction unified s with
  | case1 => rfl
  | case2 s ih => simp [ih, consUnified]
  | case3 c s hne ih =>
    have hhead : c = '\r' → s.head? ≠ some '\n' := by
      intro hc hs
      obtain ⟨s', rfl⟩ := List.head?_eq_some_iff.mp hs
      exact hne s' hc rfl
    rw [List.foldr_cons, ih, consUnified]
    by_cases hc : c = '\r'
    · simp [hc, hhead hc]
    · simp [hc]

theorem unifyLineEnds_eq (s : List Char) : unifyLineEnds s = unified s := by
  rw [unifyLineEnds, foldr_consUnified]

/-- Line ends are unified on both sides of a place that is not inside one. -/
theorem unified_append {a b : List Char} (h : a.getLast? = some '\r' → b.head? ≠ some '\n') :
    unified (a ++ b) = unified a ++ unified b := by
  fun_induction unified a with
  | case1 => rfl
  | case2 s ih =>
    rw [List.cons_append, List.cons_append, unified, ih, List.cons_append]
    intro hs
    refine h ?_
    rw [List.getLast?_cons, List.getLast?_cons, hs]
    rfl
  | case3 c s hne ih =>
    have hhead : c = '\r' → (s ++ b).head? ≠ some '\n' := by
      intro hc hs
      cases s with
      | nil => exact h (by rw [hc]; rfl) hs
      | cons d s =>
        obtain rfl : d = '\n' := by simpa using hs
        exact hne s hc rfl
    rw [List.cons_append, unified_cons hhead, ih, List.cons_append]
    intro hs
    refine h ?_
    rw [List.getLast?_cons, hs]
    rfl

/-! ## Blocks -/

theorem length_of_mem_blocks {n : Nat} {s block : List Char} (hs : (n + 1) ∣ s.length)
    (h : block ∈ blocks n s) : block.length = n + 1 := by
  fun_induction blocks n s with
  | case1 => cases h
  | case2 s hne ih =>
    have hle : n + 1 ≤ s.length := Nat.le_of_dvd (List.length_pos_iff.mpr (by simpa using hne)) hs
    rcases List.mem_cons.mp h with rfl | h
    · exact List.length_take_of_le hle
    · refine ih ?_ h
      rw [List.length_drop]
      exact Nat.dvd_sub hs (Nat.dvd_refl _)

theorem blocks_of_length {n : Nat} {s : List Char} (h : s.length = n + 1) : blocks n s = [s] := by
  have hne : s.isEmpty = false := by
    rw [List.isEmpty_eq_false_iff, ← List.length_pos_iff]
    omega
  rw [blocks, hne, List.take_of_length_le (by omega), List.drop_eq_nil_of_le (by omega), blocks]
  rfl

end Text

namespace Encoding

open Text

variable {e : Encoding}

/-! ## What is decoded -/

theorem done_prefix_decodeFrom (i : Nat) (o : Option Owed) (done : List Char) (bytes : List UInt8) :
    done.reverse <+: (decodeFrom e i o done bytes).text := by
  fun_induction decodeFrom e i o done bytes with
  | case1 => exact List.prefix_rfl
  | case2 => exact List.prefix_rfl
  | case3 i o done b bytes c hstep ih =>
    rw [List.reverse_cons] at ih
    exact (List.prefix_append _ _).trans ih
  | case4 i o done b bytes rest hstep ih => exact ih
  | case5 => exact List.prefix_rfl

/-- What is decoded from the beginning of bytes is the beginning of what is decoded from all of
them. -/
theorem decodeFrom_prefix_append (i : Nat) (o : Option Owed) (done : List Char)
    (bytes more : List UInt8) :
    (decodeFrom e i o done bytes).text <+: (decodeFrom e i o done (bytes ++ more)).text := by
  fun_induction decodeFrom e i o done bytes with
  | case1 => exact done_prefix_decodeFrom ..
  | case2 => exact done_prefix_decodeFrom ..
  | case3 i o done b bytes c hstep ih =>
    rw [List.cons_append, decodeFrom, hstep]
    exact ih
  | case4 i o done b bytes rest hstep ih =>
    rw [List.cons_append, decodeFrom, hstep]
    exact ih
  | case5 i o done b bytes hstep =>
    rewrite [List.cons_append, decodeFrom, hstep]
    exact List.prefix_rfl

theorem decoded_prefix (bytes more : List UInt8) :
    e.decoded bytes <+: unified (e.decode (bytes ++ more)).text := by
  obtain ⟨rest, hrest⟩ := decodeFrom_prefix_append (e := e) 0 none [] bytes more
  change (e.decode bytes).text ++ rest = (e.decode (bytes ++ more)).text at hrest
  rw [decoded, ← hrest, unifyLineEnds_eq]
  split
  · rename_i hlast
    obtain ⟨text, htext⟩ := List.getLast?_eq_some_iff.mp hlast
    rw [htext, List.dropLast_concat, List.append_assoc, List.singleton_append,
      unified_append (by simp)]
    exact List.prefix_append _ _
  · rename_i hlast
    rw [unified_append fun h => absurd h hlast]
    exact List.prefix_append _ _

theorem decoded_eq {text : List Char} {bytes : List UInt8} (h : (e.decode bytes).text = text)
    (hreturn : '\r' ∉ text) : e.decoded bytes = text := by
  have hlast : text.getLast? ≠ some '\r' := fun hlast => hreturn (List.mem_of_getLast? hlast)
  rw [decoded, h, if_neg hlast, unifyLineEnds_of_not_mem hreturn]

section

variable {bytes : List UInt8} {text : List Char} {i done : Nat} {last : Nat × Nat}

/-- If the next bytes that are decoded have the fault, no more are decoded before it. -/
theorem decodedBefore_of_lt (h : i < done + blockSize) :
    e.decodedBefore bytes i last done = done := by
  have hsize := blockSize_le_chunkSize (done - last.1)
    ((e.decoded (bytes.take done)).length - last.2)
    (blockSize - (e.decoded (bytes.take done)).length % blockSize)
  rw [decodedBefore]
  exact dif_pos (by omega)

/-- If the fault is behind the next bytes, these are decoded. -/
theorem decodedBefore_of_le (htext : e.decoded (bytes.take done) = text) {size : Nat}
    (hsize : chunkSize (done - last.1) (text.length - last.2)
      (blockSize - text.length % blockSize) = size) (h : done + size ≤ i) :
    e.decodedBefore bytes i last done =
      e.decodedBefore bytes i (done, text.length) (done + size) := by
  subst htext hsize
  rw [decodedBefore]
  exact dif_neg (by omega)

end

/-! ## What is read -/

theorem length_of_mem_wholeBlocks {text block : List Char} (h : block ∈ wholeBlocks text) :
    block.length = blockSize := by
  refine length_of_mem_blocks ?_ h
  rw [List.length_take_of_le (Nat.div_mul_le_self _ _)]
  exact Nat.dvd_mul_left _ _

theorem flatten_wholeBlocks_prefix (text : List Char) : (wholeBlocks text).flatten <+: text := by
  rw [wholeBlocks, flatten_blocks]
  exact List.take_prefix _ _

variable {text : List Char} {bytes : List UInt8}

/-- A text is read in blocks. -/
theorem Encodes.read_eq (h : e.Encodes text bytes) :
    e.read bytes = .complete (blocks (blockSize - 1) (unified text)) := by
  rw [read, h.decode_eq, unifyLineEnds_eq]

/-- Of bytes that are no text, whole blocks are read from the beginning of what can be decoded. -/
theorem exists_read_failed (h : ∀ text, ¬ e.Encodes text bytes) :
    ∃ blocks, e.read bytes = .failed blocks ∧ (∀ block ∈ blocks, block.length = blockSize) ∧
      blocks.flatten <+: unified (e.decode bytes).text := by
  cases hfault : (e.decode bytes).fault with
  | none =>
    obtain ⟨text, htext⟩ := exists_encodes hfault
    exact absurd htext (h text)
  | some i =>
    have hread : ∀ k, (wholeBlocks (e.decoded (bytes.take k))).flatten <+:
        unified (e.decode bytes).text := by
      intro k
      have hwhole := flatten_wholeBlocks_prefix (e.decoded (bytes.take k))
      have hdecoded := decoded_prefix (e := e) (bytes.take k) (bytes.drop k)
      rw [List.take_append_drop] at hdecoded
      exact hwhole.trans hdecoded
    simp only [read, hfault]
    split
    · exact ⟨_, rfl, fun block => length_of_mem_wholeBlocks, hread _⟩
    · refine ⟨_, rfl, fun block => length_of_mem_wholeBlocks, ?_⟩
      simpa using hread bytes.length

end Encoding

/-! ## Comments that are complete -/

/-- The comments of a text that another one is opened behind. Each has the words of the code up to
that opening. -/
def Comment.completed (text : List Char) : List Comment :=
  match _hopen : Text.cut? opening text with
  | none => []
  | some (_, inside) =>
    match _hclose : Text.cut? closing inside with
    | none => []
    | some (body, rest) =>
      match Text.cut? opening rest with
      | none => []
      | some (code, _) => before body code :: completed rest
termination_by text.length
decreasing_by
  have hinside := Text.length_of_cut? _hopen
  have hrest := Text.length_of_cut? _hclose
  simp only [opening, closing, List.length_cons] at hinside hrest
  omega

theorem Comment.completed_eq {text code inside body rest : List Char}
    (hopen : Text.cut? opening text = some (code, inside))
    (hclose : Text.cut? closing inside = some (body, rest)) :
    completed text = match Text.cut? opening rest with
      | none => []
      | some (code, _) => before body code :: completed rest := by
  fun_cases completed text <;> simp_all

namespace Scanner

/-- In code, the comment before is complete when another one is opened. -/
theorem found_code (p : Option Pending) (text : List Char) :
    ((code .none p).feed text).2 =
      match Text.cut? Comment.opening text with
      | none => []
      | some (before, inside) =>
        (p.map fun p => (p.take before).comment).toList ++ ((comment []).feed inside).2 := by
  cases hcut : Text.cut? Comment.opening text with
  | none => rw [feed_code p (Text.cut?_eq_none hcut)]
  | some cut =>
    obtain ⟨before, inside⟩ := cut
    obtain ⟨rfl, hfirst⟩ := Text.cut?_eq_some (by simp [Comment.opening]) hcut
    rw [feed_append, feed_opening p hfirst]

theorem found_comment (text : List Char) :
    ((comment []).feed text).2 =
      match Text.cut? Comment.closing text with
      | none => []
      | some (body, rest) => ((code .none (some { body })).feed rest).2 := by
  cases hcut : Text.cut? Comment.closing text with
  | none => rw [feed_comment (Text.cut?_eq_none hcut)]
  | some cut =>
    obtain ⟨body, rest⟩ := cut
    obtain ⟨rfl, hfirst⟩ := Text.cut?_eq_some (by simp [Comment.closing]) hcut
    rw [feed_append, feed_closing hfirst, List.nil_append]

/-- Before it is closed, a scanner in code yields the comment that waits for its words if another
one is opened, and then the comments that another one is opened behind. -/
theorem found_eq (p : Option Pending) (text : List Char) :
    ((code .none p).feed text).2 =
      (p.bind fun p => (Text.cut? Comment.opening text).map fun cut =>
        (p.take cut.1).comment).toList ++
        Comment.completed text := by
  fun_induction Comment.completed text generalizing p with
  | case1 text hopen =>
    rw [found_code, hopen]
    cases p <;> rfl
  | case2 text before inside hopen hclose =>
    rw [found_code, hopen]
    simp only [found_comment, hclose]
    cases p <;> rfl
  | case3 text before inside hopen body rest hclose hnext =>
    rw [found_code, hopen]
    simp only [found_comment, hclose, found_code, hnext]
    cases p <;> rfl
  | case4 text before inside hopen body rest hclose code_ inside' hnext ih =>
    rw [found_code, hopen]
    simp only [found_comment, hclose, ih, hnext, Option.bind_some, Option.map_some,
      Pending.comment_take]
    cases p <;> rfl

theorem found_start (text : List Char) : (start.feed text).2 = Comment.completed text :=
  found_eq none text

theorem scan_ofList (text : List Char) : Comment.scan (String.ofList text) = start.finish text := by
  simp [Comment.scan, Comment.scanPieces, feedAll_eq_feed, finish]

end Scanner

namespace SourceFile

/-- The comments of a text that is read to its end are found however it is cut into blocks. -/
theorem scanReading_complete (blocks : List (List Char)) :
    scanReading (.complete blocks) = ⟨Comment.scan (String.ofList blocks.flatten), none⟩ := by
  rw [scanReading, Scanner.scan_ofList, Comment.scanPieces, Scanner.feedAll_eq_feed]
  rfl

/-- If reading fails, the comments are those that are complete in the blocks before. -/
theorem scanReading_failed (blocks : List (List Char)) :
    scanReading (.failed blocks) = ⟨Comment.completed blocks.flatten, some undecodable⟩ := by
  rw [scanReading, Scanner.feedAll_eq_feed, Scanner.found_start]

/-- Comments that are complete stay as they are, whatever comes behind them. -/
theorem completed_prefix_scan (text more : List Char) :
    Comment.completed text <+: Comment.scan (String.ofList (text ++ more)) := by
  rw [Scanner.scan_ofList, Scanner.finish_append, Scanner.found_start]
  exact List.prefix_append _ _

theorem scan_eq {files : FileTree} {path : Path} {setting : Value} {name : String} {e : Encoding}
    {content : Content} (hname : encodingName setting = .ok name)
    (he : Encoding.ofName? name = some e) (hread : files.read path = .ok content) :
    scan files path setting = .ok (scanBytes e content.data) := by
  simp [scan, opened, hname, hread, encodingOf, he, dataOf, bind, Except.bind, pure, Except.pure]

/-- A file in a known encoding is scanned as the one text that it holds, with its line ends unified.
If it holds no text, then reading fails behind some whole blocks of text; the comments are those
that another one is opened behind in these blocks, and stay the same whatever the text would have
gone on with. -/
theorem scan_as_text {files : FileTree} {path : Path} {setting : Value} {name : String}
    {e : Encoding} {content : Content} (hname : encodingName setting = .ok name)
    (he : Encoding.ofName? name = some e) (hread : files.read path = .ok content) :
    (∀ text, e.Encodes text content.data →
        scan files path setting = .ok ⟨Comment.scan (String.ofList (Text.unified text)), none⟩) ∧
      ((∀ text, ¬ e.Encodes text content.data) →
        ∃ blocks comments, e.read content.data = .failed blocks ∧
          (∀ block ∈ blocks, block.length = Encoding.blockSize) ∧
          blocks.flatten <+: Text.unified (e.decode content.data).text ∧
          scan files path setting = .ok ⟨comments, some undecodable⟩ ∧
          comments = Comment.completed blocks.flatten ∧
          ∀ more, comments <+: Comment.scan (String.ofList (blocks.flatten ++ more))) := by
  rw [scan_eq hname he hread]
  refine ⟨fun text htext => ?_, fun hnone => ?_⟩
  · rw [scanBytes, htext.read_eq, scanReading_complete, Text.flatten_blocks]
  · obtain ⟨blocks, hblocks, hlength, htext⟩ := Encoding.exists_read_failed hnone
    refine ⟨blocks, _, hblocks, hlength, htext, ?_, rfl, completed_prefix_scan blocks.flatten⟩
    rw [scanBytes, hblocks, scanReading_failed]

/-- A text with a line end of two characters in its comment. -/
def wholeText : List Char := "/**é\r\n*/x".toList

/-- Its bytes in UTF-8. -/
def wholeBytes : List UInt8 := [0x2F, 0x2A, 0x2A, 0xC3, 0xA9, 0x0D, 0x0A, 0x2A, 0x2F, 0x78]

/-- Two comments. -/
def twoComments : List Char := "/** A */ a\n/** B */\n".toList

/-- The characters of the first 8192 bytes of a file. They are half a block only. -/
def halfBlock : List Char := twoComments ++ List.replicate 4086 'é'

/-- Their bytes in UTF-8. -/
def halfBlockBytes : List UInt8 :=
  twoComments.map (fun c => UInt8.ofNat c.toNat) ++ (List.replicate 4086 [0xC3, 0xA9]).flatten

/-- The file goes on with 8192 bytes that end inside a surrogate. The first block of characters is
read with these, before the third byte of the surrogate is refused. -/
def cutBytes : List UInt8 :=
  halfBlockBytes ++ (List.replicate 8190 [0x78]).flatten ++ [0xED, 0xA0, 0x80, 0x20]

/-- The first block of the file. -/
def firstBlock : List Char := halfBlock ++ List.replicate 4086 'x'

section

variable {half rest : List Char} {halfBytes restBytes : List UInt8}

theorem decode_surrogate (h : Encoding.utf8.Encodes half halfBytes) :
    Encoding.utf8.decode (halfBytes ++ [0xED, 0xA0, 0x80, 0x20]) =
        ⟨half, some (halfBytes.length + 2)⟩ ∧
      (Encoding.utf8.decode (halfBytes ++ [0xED, 0xA0])).text = half := by
  rw [h.decode_append, h.decode_append]
  simp [Encoding.decodeFrom, Encoding.step, Encoding.utf8First, Encoding.utf8Next,
    Encoding.isSurrogate]

/-- Half a block is decoded with the first 8192 bytes and the rest of a block with the next ones,
which end inside a surrogate. So the block is read before the surrogate is refused. -/
theorem read_surrogate (hhalf : Encoding.utf8.Encodes half halfBytes)
    (hrest : Encoding.utf8.Encodes rest restBytes) (hhalfBytes : halfBytes.length = 8192)
    (hrestBytes : restBytes.length = 8190) (hhalfLength : half.length = 4106)
    (hrestLength : rest.length = 8190) (hreturn : '\r' ∉ half ++ rest) :
    Encoding.utf8.read (halfBytes ++ restBytes ++ [0xED, 0xA0, 0x80, 0x20]) =
      .failed [(half ++ rest).take 8192] := by
  obtain ⟨hdecode, htext⟩ := decode_surrogate (hhalf.append hrest)
  rw [List.length_append, hhalfBytes, hrestBytes] at hdecode
  generalize hbytes : halfBytes ++ restBytes ++ [0xED, 0xA0, 0x80, 0x20] = bytes at hdecode ⊢
  have hlength : bytes.length = 16386 := by
    rw [← hbytes, List.length_append, List.length_append, hhalfBytes, hrestBytes]
    rfl
  have hfirst : Encoding.utf8.decoded (bytes.take 8192) = half := by
    have htake : bytes.take 8192 = halfBytes := by
      rw [← hbytes, List.append_assoc]
      exact List.take_left' hhalfBytes
    rw [htake]
    exact Encoding.decoded_eq (by rw [hhalf.decode_eq]) fun h => hreturn (List.mem_append_left _ h)
  have hsecond : Encoding.utf8.decoded (bytes.take 16384) = half ++ rest := by
    have htake : bytes.take 16384 = halfBytes ++ restBytes ++ [0xED, 0xA0] := by
      rw [← hbytes, List.take_append, List.length_append, hhalfBytes, hrestBytes,
        List.take_of_length_le (by rw [List.length_append]; omega)]
      rfl
    rw [htake]
    exact Encoding.decoded_eq htext hreturn
  have hbefore : Encoding.utf8.decodedBefore bytes 16384 (0, 0) 0 = 16384 := by
    have hnone : Encoding.utf8.decoded (bytes.take 0) = [] := rfl
    have hsize : Encoding.chunkSize (8192 - 0) (half.length - 0)
        (Encoding.blockSize - half.length % Encoding.blockSize) = 8192 := by
      rw [hhalfLength]
      decide +kernel
    have hsize₀ : Encoding.chunkSize (0 - 0) (0 - 0) (Encoding.blockSize - 0) = 8192 := by
      decide +kernel
    rw [Encoding.decodedBefore_of_le hnone hsize₀ (by omega),
      Encoding.decodedBefore_of_le hfirst hsize (by omega)]
    exact Encoding.decodedBefore_of_lt (by decide)
  have hone : (half ++ rest).length / Encoding.blockSize * Encoding.blockSize = 8192 := by
    rw [List.length_append, hhalfLength, hrestLength]
    rfl
  have hblock : ((half ++ rest).take 8192).length = 8191 + 1 := by
    rw [List.length_take, List.length_append, hhalfLength, hrestLength]
    rfl
  simp only [Encoding.read, hdecode, hlength]
  rw [if_pos (by decide), hbefore, hsecond, Encoding.wholeBlocks, hone]
  exact congrArg _ (Text.blocks_of_length hblock)

end

theorem halfBlock_encodes : Encoding.utf8.Encodes halfBlock halfBlockBytes := by
  have hcomments : Encoding.utf8.Encodes twoComments
      (twoComments.map fun c => UInt8.ofNat c.toNat) :=
    Encoding.decode_eq_iff.mp (by decide +kernel)
  exact hcomments.append (Encoding.encodes_replicate (by decide +kernel) 4086)

theorem cutBytes_read : Encoding.utf8.read cutBytes = .failed [firstBlock] := by
  have hcomments : twoComments.length = 20 := rfl
  have hhalf : halfBlock.length = 4106 := by
    rw [halfBlock, List.length_append, hcomments, List.length_replicate]
  have hhalfBytes : halfBlockBytes.length = 8192 := by
    rw [halfBlockBytes, List.length_append, List.length_map, hcomments, List.length_flatten,
      List.map_replicate, List.sum_replicate_nat]
    rfl
  have hreturn : '\r' ∉ halfBlock ++ List.replicate 8190 'x' := by
    have hnot : '\r' ∉ twoComments := by decide +kernel
    simp only [halfBlock, List.mem_append, List.mem_replicate, not_or]
    exact ⟨⟨hnot, by decide⟩, by decide⟩
  have hrest := @Encoding.encodes_replicate .utf8 'x' [0x78] (by decide +kernel) 8190
  have hrestBytes : (List.replicate 8190 [(0x78 : UInt8)]).flatten.length = 8190 := by
    rw [List.length_flatten, List.map_replicate, List.sum_replicate_nat]
    rfl
  have hread := read_surrogate halfBlock_encodes hrest hhalfBytes hrestBytes hhalf
    List.length_replicate hreturn
  rw [cutBytes, hread, List.take_append, hhalf, List.take_of_length_le (by omega),
    List.take_replicate, firstBlock]
  rfl

/-- Another comment is opened behind the first one only. -/
theorem completed_twoComments {rest : List Char} (h : '/' ∉ rest) :
    Comment.completed (twoComments ++ rest) = [⟨" A ", "a", ""⟩] := by
  have hopen : Text.cut? Comment.opening (twoComments ++ rest) =
      some ([], " A */ a\n/** B */\n".toList ++ rest) :=
    @Text.cut?_append Comment.opening [] (by decide) (by decide) _
  have hclose : Text.cut? Comment.closing (" A */ a\n/** B */\n".toList ++ rest) =
      some (" A ".toList, " a\n/** B */\n".toList ++ rest) :=
    @Text.cut?_append Comment.closing " A ".toList (by decide) (by decide) _
  have hopen' : Text.cut? Comment.opening (" a\n/** B */\n".toList ++ rest) =
      some (" a\n".toList, " B */\n".toList ++ rest) :=
    @Text.cut?_append Comment.opening " a\n".toList (by decide) (by decide) _
  have hclose' : Text.cut? Comment.closing (" B */\n".toList ++ rest) =
      some (" B ".toList, "\n".toList ++ rest) :=
    @Text.cut?_append Comment.closing " B ".toList (by decide) (by decide) _
  have hfree : Text.cut? Comment.opening ("\n".toList ++ rest) = none := by
    refine Text.cut?_eq_none_of_free (by decide) fun hinfix => ?_
    have hmem : '/' ∈ "\n".toList ++ rest := hinfix.subset (by decide)
    rcases List.mem_append.mp hmem with hmem | hmem
    · exact absurd hmem (by decide)
    · exact h hmem
  have hwords : Comment.before " A ".toList " a\n".toList = ⟨" A ", "a", ""⟩ := by decide +kernel
  rw [Comment.completed_eq hopen hclose, hopen', Comment.completed_eq hopen' hclose', hfree]
  exact congrArg (fun c => [c]) hwords

/-- A file of each kind. -/
def mixedFiles : FileTree where
  working := []
  entries := [(["whole.js"], .file (.bytes wholeBytes)), (["cut.js"], .file (.bytes cutBytes))]

/-- The first comment of the second file is found, since it is complete in the block before the
fault. The other one still waits for its words and is not. -/
theorem mixedFiles_scanned :
    scan mixedFiles ⟨.working, ["whole.js"]⟩ .null = .ok ⟨[⟨"é\n", "x", ""⟩], none⟩ ∧
      Encoding.utf8.read cutBytes = .failed [firstBlock] ∧
      scan mixedFiles ⟨.working, ["cut.js"]⟩ .null =
        .ok ⟨[⟨" A ", "a", ""⟩], some undecodable⟩ := by
  have hname : encodingName .null = .ok "utf-8" := rfl
  have he : Encoding.ofName? "utf-8" = some .utf8 := by decide +kernel
  have hwhole : Encoding.utf8.Encodes wholeText wholeBytes :=
    Encoding.decode_eq_iff.mp (by decide +kernel)
  have hcut : ∀ text, ¬ Encoding.utf8.Encodes text cutBytes := by
    intro text h
    have hread := h.read_eq
    rw [cutBytes_read] at hread
    cases hread
  have hreadWhole : mixedFiles.read ⟨.working, ["whole.js"]⟩ = .ok (.bytes wholeBytes) := rfl
  have hreadCut : mixedFiles.read ⟨.working, ["cut.js"]⟩ = .ok (.bytes cutBytes) := rfl
  have hscan : Comment.scan (String.ofList (Text.unified wholeText)) = [⟨"é\n", "x", ""⟩] := by
    decide +kernel
  refine ⟨?_, cutBytes_read, ?_⟩
  · rw [(scan_as_text hname he hreadWhole).1 wholeText hwhole, hscan]
  · obtain ⟨blocks, comments, hblocks, -, -, hscan, rfl, -⟩ :=
      (scan_as_text hname he hreadCut).2 hcut
    obtain rfl : [firstBlock] = blocks :=
      Encoding.Reading.failed.inj (cutBytes_read.symm.trans hblocks)
    have hslash : '/' ∉ List.replicate 4086 'é' ++ List.replicate 4086 'x' := by
      simp only [List.mem_append, List.mem_replicate, not_or]
      exact ⟨by decide, by decide⟩
    rw [hscan, List.flatten_singleton, firstBlock, halfBlock, List.append_assoc,
      completed_twoComments hslash]

end SourceFile

end ClassReference
