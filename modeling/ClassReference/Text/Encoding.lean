/-!
# Text encodings

The bytes of a source file are text in one of three encodings. Bytes that cannot be text are a fault
at the byte with which they are refused; a character that the end of the bytes cuts off is a fault
at the end. In UTF-8 a byte is refused as soon as no character can have it in its place, but a
surrogate only with its last byte: until then its bytes are kept like those of any other character.
Line ends are unified: a carriage return, with or without a line feed after it, is read as one line
feed.
-/

namespace ClassReference

/-- The supported encodings. -/
inductive Encoding where
  /-- UTF-8 in its strict form. -/
  | utf8
  /-- The first 128 code points, a byte each. -/
  | ascii
  /-- The first 256 code points, a byte each. -/
  | latin1
deriving DecidableEq, Repr

/-- What decoding makes of bytes. -/
structure Decoding where
  /-- The text up to the fault, or all of it. -/
  text : List Char
  /-- The position of the byte that is refused. It is the number of bytes if the last character is
  cut off. -/
  fault : Option Nat
deriving DecidableEq, Repr

namespace Encoding

/-- Adds a character in front of the name of an encoding, of which case does not matter and all
marks but dots are alike; the flag says whether the name goes on after a mark. -/
def consName (c : Char) (rest : List Char × Bool) : List Char × Bool :=
  if c.isAlphanum || c = '.' then
    (c.toLower :: if rest.2 && !rest.1.isEmpty then '_' :: rest.1 else rest.1, false)
  else
    (rest.1, true)

/-- The name of an encoding in its plain form. -/
def plainName (name : String) : String :=
  String.ofList (name.toList.foldr consName ([], false)).1

/-- The names of UTF-8. -/
def utf8Names : List String :=
  ["utf_8", "utf8", "utf", "u8", "cp65001", "utf8_ucs2", "utf8_ucs4"]

/-- The names of the encoding of the first 128 code points. -/
def asciiNames : List String :=
  ["ascii", "us_ascii", "us", "646", "cp367", "ibm367", "csascii", "iso_ir_6", "iso646_us",
    "iso_646.irv_1991", "ansi_x3.4_1968", "ansi_x3_4_1968", "ansi_x3.4_1986"]

/-- The names of the encoding of the first 256 code points. -/
def latin1Names : List String :=
  ["latin_1", "latin1", "latin", "l1", "8859", "iso8859", "iso8859_1", "iso_8859_1",
    "iso_8859_1_1987", "iso_ir_100", "cp819", "ibm819", "csisolatin1"]

/-- The encoding with the given name. -/
def ofName? (name : String) : Option Encoding :=
  let plain := plainName name
  if utf8Names.contains plain then some utf8
  else if asciiNames.contains plain then some ascii
  else if latin1Names.contains plain then some latin1
  else none

/-- The part of a character that UTF-8 still owes. -/
structure Owed where
  /-- How many further bytes are owed. -/
  count : Nat
  /-- The least next byte. -/
  low : Nat
  /-- The greatest next byte. -/
  high : Nat
  /-- The bits of the code point so far. -/
  bits : Nat
deriving DecidableEq, Repr

/-- What a byte adds to a text. -/
inductive Step where
  /-- It completes a character. -/
  | char (c : Char)
  /-- It leaves a character incomplete. -/
  | owed (rest : Owed)
  /-- It is no part of a text here. -/
  | refused
deriving DecidableEq, Repr

/-- The first byte of a character in UTF-8. -/
def utf8First (b : Nat) : Step :=
  if b < 0x80 then .char (Char.ofNat b)
  else if 0xC2 ≤ b ∧ b ≤ 0xDF then .owed ⟨1, 0x80, 0xBF, b - 0xC0⟩
  else if b = 0xE0 then .owed ⟨2, 0xA0, 0xBF, 0⟩
  else if 0xE1 ≤ b ∧ b ≤ 0xEF then .owed ⟨2, 0x80, 0xBF, b - 0xE0⟩
  else if b = 0xF0 then .owed ⟨3, 0x90, 0xBF, 0⟩
  else if 0xF1 ≤ b ∧ b ≤ 0xF3 then .owed ⟨3, 0x80, 0xBF, b - 0xF0⟩
  else if b = 0xF4 then .owed ⟨3, 0x80, 0x8F, 4⟩
  else .refused

/-- Whether a code point is half of a surrogate pair, and so no character. -/
def isSurrogate (n : Nat) : Bool :=
  0xD800 ≤ n && n ≤ 0xDFFF

/-- A further byte of a character in UTF-8. -/
def utf8Next (o : Owed) (b : Nat) : Step :=
  if o.low ≤ b ∧ b ≤ o.high then
    let bits := o.bits * 64 + (b - 0x80)
    if 1 < o.count then .owed ⟨o.count - 1, 0x80, 0xBF, bits⟩
    else if isSurrogate bits then .refused
    else .char (Char.ofNat bits)
  else
    .refused

/-- One byte in the given encoding. -/
def step (e : Encoding) (o : Option Owed) (b : Nat) : Step :=
  match e, o with
  | utf8, none => utf8First b
  | utf8, some o => utf8Next o b
  | ascii, _ => if b < 0x80 then .char (Char.ofNat b) else .refused
  | latin1, _ => .char (Char.ofNat b)

/-- Decodes the bytes from position `i` on, after the text `done`, which is kept backwards. -/
def decodeFrom (e : Encoding) : (i : Nat) → Option Owed → (done : List Char) → List UInt8 → Decoding
  | _, none, done, [] => ⟨done.reverse, none⟩
  | i, some _, done, [] => ⟨done.reverse, some i⟩
  | i, o, done, b :: bs =>
    match step e o b.toNat with
    | .char c => decodeFrom e (i + 1) none (c :: done) bs
    | .owed rest => decodeFrom e (i + 1) (some rest) done bs
    | .refused => ⟨done.reverse, some i⟩

/-- Decodes bytes. -/
def decode (e : Encoding) (bytes : List UInt8) : Decoding :=
  decodeFrom e 0 none [] bytes

end Encoding

namespace Text

/-- Puts a character in front of unified text; the flag says whether a line feed stood first. -/
def consUnified (c : Char) (rest : List Char × Bool) : List Char × Bool :=
  if c = '\r' then (if rest.2 then rest.1 else '\n' :: rest.1, false)
  else (c :: rest.1, c = '\n')

/-- The text with its line ends unified. -/
def unifyLineEnds (s : List Char) : List Char :=
  (s.foldr consUnified ([], false)).1

/-- Cuts a text into blocks of `n + 1` characters, with what is left over in a last block. -/
def blocks (n : Nat) (s : List Char) : List (List Char) :=
  if s.isEmpty then [] else s.take (n + 1) :: blocks n (s.drop (n + 1))
termination_by s.length
decreasing_by
  rename_i h
  have : s ≠ [] := by simpa using h
  have := List.length_pos_iff.mpr this
  rw [List.length_drop]
  omega

/-- Nothing is lost between the blocks of a text. -/
@[simp] theorem flatten_blocks (n : Nat) (s : List Char) : (blocks n s).flatten = s := by
  induction h : s.length using Nat.strongRecOn generalizing s with
  | ind k ih =>
    rw [blocks]
    split
    · rename_i empty
      simp_all
    · rename_i nonempty
      have : 0 < s.length := List.length_pos_iff.mpr (by simpa using nonempty)
      rw [List.flatten_cons, ih _ (by rw [List.length_drop]; omega) _ rfl, List.take_append_drop]

end Text

/-! ## Reading a file in blocks -/

namespace Encoding

/-- How many bytes are decoded at a time, at least, and how many characters are asked for at a
time. -/
def blockSize : Nat := 8192

/-- What reading a file in blocks of characters yields. -/
inductive Reading where
  /-- All of the file, as blocks. -/
  | complete (blocks : List (List Char))
  /-- The blocks before the one whose reading failed. -/
  | failed (blocks : List (List Char))
deriving DecidableEq, Repr

/-- The text that is decoded while more may follow. A carriage return at its end is held back, as a
line feed may follow it. -/
def decoded (e : Encoding) (bytes : List UInt8) : List Char :=
  let text := (e.decode bytes).text
  Text.unifyLineEnds (if text.getLast? = some '\r' then text.dropLast else text)

/-- The blocks of a text that are complete. -/
def wholeBlocks (text : List Char) : List (List Char) :=
  Text.blocks (blockSize - 1) (text.take (text.length / blockSize * blockSize))

/-- The quotient of two numbers, of which the first is the greater one, as a numerator over a power
of two. It is rounded to 53 significant bits: to the nearest, and from the middle to the even
one. -/
def roundedQuotient (a b : Nat) : Nat × Nat :=
  let scale := 1 <<< (52 - (a / b).log2)
  let q := a * scale / b
  let r := a * scale % b
  (if b < 2 * r || (2 * r = b && q % 2 = 1) then q + 1 else q, scale)

/-- How many bytes are decoded at a time if some characters are missing: as many as these take up at
the rate of the last bytes and characters, and at least a block. A character counts as one byte or
more. -/
def chunkSize (lastBytes lastChars missing : Nat) : Nat :=
  if lastBytes ≤ lastChars || lastChars = 0 then
    max blockSize missing
  else
    let rate := roundedQuotient lastBytes lastChars
    let size := roundedQuotient (rate.1 * missing) rate.2
    max blockSize (size.1 / size.2)

theorem blockSize_le_chunkSize (lastBytes lastChars missing : Nat) :
    blockSize ≤ chunkSize lastBytes lastChars missing := by
  unfold chunkSize
  split <;> exact Nat.le_max_left _ _

theorem chunkSize_pos (lastBytes lastChars missing : Nat) :
    0 < chunkSize lastBytes lastChars missing :=
  Nat.lt_of_lt_of_le (by decide) (blockSize_le_chunkSize lastBytes lastChars missing)

/-- How many bytes are decoded before those with the fault at position `i`. The bytes up to `done`
were decoded, the last of them from position `last.1` on, when there were `last.2` characters. More
are decoded when characters are missing for the next block. -/
def decodedBefore (e : Encoding) (bytes : List UInt8) (i : Nat) (last : Nat × Nat) (done : Nat) :
    Nat :=
  let count := (e.decoded (bytes.take done)).length
  let size := chunkSize (done - last.1) (count - last.2) (blockSize - count % blockSize)
  if _h : i < done + size then done else decodedBefore e bytes i (done, count) (done + size)
termination_by i + 1 - done
decreasing_by
  have hsize : 0 < size := chunkSize_pos _ _ _
  change i + 1 - (done + size) < i + 1 - done
  omega

/-- Reads bytes as blocks of text. A fault is met when the bytes around it are decoded, so that only
what was decoded with earlier bytes is read before it. -/
def read (e : Encoding) (bytes : List UInt8) : Reading :=
  let decoding := e.decode bytes
  match decoding.fault with
  | none => .complete (Text.blocks (blockSize - 1) (Text.unifyLineEnds decoding.text))
  | some i =>
    if i < bytes.length then
      .failed (wholeBlocks (e.decoded (bytes.take (e.decodedBefore bytes i (0, 0) 0))))
    else
      .failed (wholeBlocks (e.decoded bytes))

end Encoding

end ClassReference
