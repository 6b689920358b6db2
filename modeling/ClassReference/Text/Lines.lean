/-!
# Lines

A text is cut at every line break. There are ten of them: the ASCII line feed, vertical tab, form
feed and carriage return, three of the information separators, the next-line control and the Unicode
line and paragraph separators. A carriage return and the line feed after it are one break.
-/

namespace ClassReference.Text

/-- The line breaks, as code points. -/
def lineBreakCodes : List Nat :=
  [0x0A, 0x0B, 0x0C, 0x0D, 0x1C, 0x1D, 0x1E, 0x85, 0x2028, 0x2029]

/-- Whether a character ends a line. -/
def isLineBreak (c : Char) : Bool :=
  lineBreakCodes.contains c.toNat

/-- Puts a character in front of the first of the lines, which it starts if there is none. -/
def consLine (c : Char) : List (List Char) → List (List Char)
  | [] => [[c]]
  | line :: lines => (c :: line) :: lines

/-- The lines of a text without their breaks. A break at the very end opens no further line. -/
def lines : List Char → List (List Char)
  | [] => []
  | '\r' :: '\n' :: rest => [] :: lines rest
  | c :: rest => if isLineBreak c then [] :: lines rest else consLine c (lines rest)

/-- Lines put together again with a line feed between each two. -/
def joinLines (ls : List (List Char)) : List Char :=
  List.intercalate ['\n'] ls

end ClassReference.Text
