import ClassReference.Text.Quoted

/-!
# JSON

JSON data, and how it is written: with plain ASCII characters only, two spaces for each level of
nesting, and the entries of every mapping in the order of their keys. All other characters are
written as escapes of four hexadecimal digits; those beyond U+FFFF as two such escapes, a high and a
low surrogate.

A text of JSON data is a sequence of code points. Surrogates are code points and no characters, and
are written like any other: so two of them may be written as one character is.
-/

namespace ClassReference

/-- A code point: a character or a surrogate. -/
abbrev CodePoint := Fin 0x110000

namespace CodePoint

/-- The code point with the given number. -/
def ofNat (n : Nat) : CodePoint :=
  ⟨n % 0x110000, Nat.mod_lt _ (by decide)⟩

/-- The code point of a character. -/
def ofChar (c : Char) : CodePoint :=
  ⟨c.toNat, by rcases c.valid with h | h <;> simp only [Char.toNat] <;> omega⟩

/-- Whether a code point is a high surrogate. -/
def isHigh (n : CodePoint) : Bool :=
  0xD800 ≤ n.val && n.val < 0xDC00

/-- Whether a code point is a low surrogate. -/
def isLow (n : CodePoint) : Bool :=
  0xDC00 ≤ n.val && n.val < 0xE000

/-- The character that a high and a low surrogate stand for together. -/
def join (high low : CodePoint) : CodePoint :=
  ofNat (0x10000 + (high.val - 0xD800) * 0x400 + (low.val - 0xDC00))

end CodePoint

/-- The code points of a text. -/
def Text.codes (s : String) : List CodePoint :=
  s.toList.map CodePoint.ofChar

/-- Whether a text comes before another or is the same, by their code points. -/
def Text.isAtMost : List CodePoint → List CodePoint → Bool
  | [], _ => true
  | _ :: _, [] => false
  | a :: s, b :: t => a.val < b.val || (a.val == b.val && Text.isAtMost s t)

/-- A piece of JSON data. -/
inductive Json where
  /-- Nothing. -/
  | null
  /-- A truth value. -/
  | bool (b : Bool)
  /-- A whole number. -/
  | int (n : Int)
  /-- Any other number, as it is written. -/
  | real (text : String)
  /-- A text. -/
  | str (s : List CodePoint)
  /-- A list. -/
  | list (items : List Json)
  /-- A mapping from keys to values. -/
  | map (entries : List (List CodePoint × Json))
deriving Repr, BEq, Inhabited

namespace Json

/-- An escape of four hexadecimal digits. -/
def unitEscape (n : Nat) : List Char :=
  '\\' :: 'u' :: Text.hexDigits 4 n

/-- A code point as it is written in a text. -/
def codeText (n : CodePoint) : List Char :=
  if n.val = 0x22 then ['\\', Text.doubleQuote]
  else if n.val = 0x5C then ['\\', '\\']
  else if n.val = 0x0A then ['\\', 'n']
  else if n.val = 0x0D then ['\\', 'r']
  else if n.val = 0x09 then ['\\', 't']
  else if n.val = 0x0C then ['\\', 'f']
  else if n.val = 0x08 then ['\\', 'b']
  else if 0x20 ≤ n.val ∧ n.val < 0x7F then [Char.ofNat n.val]
  else if n.val < 0x10000 then unitEscape n.val
  else
    unitEscape (0xD800 + (n.val - 0x10000) / 0x400) ++
      unitEscape (0xDC00 + (n.val - 0x10000) % 0x400)

/-- A text as it is written. -/
def stringText (s : List CodePoint) : List Char :=
  Text.doubleQuote :: s.flatMap codeText ++ [Text.doubleQuote]

/-- A line break and the blanks of a level of nesting. -/
def breakText (depth : Nat) : List Char :=
  '\n' :: List.replicate (2 * depth) ' '

mutual

/-- The data with the entries of every mapping in the order of their keys. -/
def ordered : Json → Json
  | list items => list (orderedItems items)
  | map entries => map ((orderedEntries entries).mergeSort fun a b => Text.isAtMost a.1 b.1)
  | d => d

/-- Orders each item of a list. -/
def orderedItems : List Json → List Json
  | [] => []
  | d :: ds => ordered d :: orderedItems ds

/-- Orders the value of each entry. -/
def orderedEntries : List (List CodePoint × Json) → List (List CodePoint × Json)
  | [] => []
  | (k, d) :: es => (k, ordered d) :: orderedEntries es

end

mutual

/-- Data as it is written at the given depth. -/
def textAt (depth : Nat) : Json → List Char
  | null => ['n', 'u', 'l', 'l']
  | bool true => ['t', 'r', 'u', 'e']
  | bool false => ['f', 'a', 'l', 's', 'e']
  | int n => (toString n).toList
  | real text => text.toList
  | str s => stringText s
  | list [] => ['[', ']']
  | list (d :: ds) =>
    '[' :: breakText (depth + 1) ++ textAt (depth + 1) d ++ itemsText (depth + 1) ds
      ++ breakText depth ++ [']']
  | map [] => ['{', '}']
  | map ((k, d) :: es) =>
    '{' :: breakText (depth + 1) ++ stringText k ++ [':', ' '] ++ textAt (depth + 1) d
      ++ entriesText (depth + 1) es ++ breakText depth ++ ['}']

/-- The further items of a list as they are written. -/
def itemsText (depth : Nat) : List Json → List Char
  | [] => []
  | d :: ds => ',' :: breakText depth ++ textAt depth d ++ itemsText depth ds

/-- The further entries of a mapping as they are written. -/
def entriesText (depth : Nat) : List (List CodePoint × Json) → List Char
  | [] => []
  | (k, d) :: es =>
    ',' :: breakText depth ++ stringText k ++ [':', ' '] ++ textAt depth d ++ entriesText depth es

end

/-- Data as it is written. -/
def write (d : Json) : String :=
  String.ofList (textAt 0 d.ordered)

end Json

end ClassReference
