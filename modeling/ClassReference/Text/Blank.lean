/-!
# Blank characters

The characters that separate words: the ASCII blanks, the information separators, and the spaces and
line separators of Unicode. Everything that reads words or trims text in this library does so by
this one class, which is wider than `Char.isWhitespace`.
-/

namespace ClassReference.Text

/-- The blank characters, as code points. -/
def blankCodes : List Nat :=
  [0x09, 0x0A, 0x0B, 0x0C, 0x0D, 0x1C, 0x1D, 0x1E, 0x1F, 0x20, 0x85, 0xA0, 0x1680,
   0x2000, 0x2001, 0x2002, 0x2003, 0x2004, 0x2005, 0x2006, 0x2007, 0x2008, 0x2009, 0x200A,
   0x2028, 0x2029, 0x202F, 0x205F, 0x3000]

/-- Whether a character separates words. -/
def isBlank (c : Char) : Bool :=
  blankCodes.contains c.toNat

/-- The text without the blanks it starts with. -/
def trimStart (s : List Char) : List Char :=
  s.dropWhile isBlank

/-- The text without the blanks it ends with. -/
def trimEnd (s : List Char) : List Char :=
  (s.reverse.dropWhile isBlank).reverse

/-- The text without the blanks around it. -/
def trim (s : List Char) : List Char :=
  trimEnd (trimStart s)

/-- The run of non-blank characters at the start of the text. -/
def takeWord (s : List Char) : List Char :=
  s.takeWhile (!isBlank ·)

/-- What follows the run of non-blank characters at the start of the text. -/
def dropWord (s : List Char) : List Char :=
  s.dropWhile (!isBlank ·)

/-- The first word of a text, and what follows it without the blanks in between or at the end. Both
are empty if the text is blank. -/
def splitWord (s : List Char) : List Char × List Char :=
  let t := trim s
  (takeWord t, trimStart (dropWord t))

/-- The trimmed text, unless nothing is left of it. -/
def nonBlank? (s : List Char) : Option String :=
  match trim s with
  | [] => none
  | t => some (String.ofList t)

end ClassReference.Text
