import ClassReference.Tag
import ClassReference.Text.Blank
import ClassReference.Text.Cut

/-!
# Reading a tag

The text of a tag runs from its name to the next tag and may have several lines. How it is read
depends on the name alone: as a word and the rest, as a typed item, as a type and the rest, or as it
stands. Blanks around the text never matter.
-/

namespace ClassReference

namespace Titled

/-- The first word, and the rest as description. -/
def read (text : List Char) : Titled :=
  let (word, rest) := Text.splitWord text
  { name := String.ofList word, description := Text.nonBlank? rest }

end Titled

namespace Item

/-- The type between braces that a text starts with, and what follows. A brace that is never closed
opens no type. -/
def readType (text : List Char) : Option (List Char × List Char) :=
  match Text.trimStart text with
  | '{' :: rest =>
    match Text.cutFirst '}' rest with
    | (type, some after) => some (type, after)
    | (_, none) => none
  | _ => none

/-- The name between square brackets. -/
def readBracketed : List Char → Option (List Char)
  | '[' :: rest => if rest.getLast? = some ']' then some rest.dropLast else none
  | _ => none

/-- The name before a question mark. -/
def readQuestioned (name : List Char) : Option (List Char) :=
  if name.getLast? = some '?' then some name.dropLast else none

/-- Whether a character spells a lower-case letter of the mark for optional items, in any case. The
dotted and the dotless letter count as spellings of `i`. -/
def spells (letter c : Char) : Bool :=
  c.toLower == letter || (letter == 'i' && (c.toNat == 0x130 || c.toNat == 0x131))

/-- The mark in words that an item is optional. -/
def optionalMark : List Char := "(optional)".toList

/-- What follows the mark in words, if the description starts with it. -/
def dropMark : (mark description : List Char) → Option (List Char)
  | [], rest => some rest
  | letter :: mark, c :: rest => if spells letter c then dropMark mark rest else none
  | _ :: _, [] => none

/-- A typed item: a type between braces, which may be missing, a name, and a description. The name
in square brackets, a question mark after it, or the mark in words before the description make the
item optional. -/
def read (text : List Char) : Item :=
  let (type, rest) := match readType text with
    | some (type, rest) => (Text.nonBlank? type, rest)
    | none => (none, text)
  let rest := Text.trimStart rest
  let name := Text.takeWord rest
  let description := Text.trim (Text.dropWord rest)
  let bracketed := readBracketed name
  let name := bracketed.getD name
  let questioned := readQuestioned name
  let name := questioned.getD name
  let marked := dropMark optionalMark description
  { name := String.ofList name
    type
    description := Text.nonBlank? (marked.getD description)
    optional := bracketed.isSome || questioned.isSome || marked.isSome }

end Item

namespace Tag

/-- The type of a type tag: all of the text, without a pair of braces around it. -/
def readWholeType (text : List Char) : Option String :=
  match Text.trim text with
  | '{' :: rest => if rest.getLast? = some '}' then Text.nonBlank? rest.dropLast
    else Text.nonBlank? ('{' :: rest)
  | t => Text.nonBlank? t

/-- A return tag: a type between braces, which may be missing, and a description. -/
def readReturns (text : List Char) : Tag :=
  match Item.readType text with
  | some (braced, rest) => returns (Text.nonBlank? braced) (Text.nonBlank? rest)
  | none => returns none (Text.nonBlank? text)

/-- A member tag: the owner, and the member after a number sign. An empty member name counts as
none. -/
def readMember (text : List Char) : Tag :=
  match Text.cutFirst '#' (Text.splitWord text).1 with
  | (owner, some (c :: name)) => member (String.ofList owner) (some (String.ofList (c :: name)))
  | (owner, _) => member (String.ofList owner) none

/-- A word that may be missing. -/
def readWord? (text : List Char) : Option String :=
  match (Text.splitWord text).1 with
  | [] => none
  | word => some (String.ofList word)

/-- The tag with the given name, without the `@`, and the given text. -/
def read (name : String) (text : List Char) : Tag :=
  match name with
  | "class" => declares (Titled.read text)
  | "extends" => inherits (Titled.read text)
  | "cfg" => cfg (Item.read text)
  | "param" => param (Item.read text)
  | "property" => property (readWord? text) (Titled.read text).description
  | "method" => method (readWord? text)
  | "event" => event (Titled.read text)
  | "return" => readReturns text
  | "returns" => readReturns text
  | "type" => type (readWholeType text)
  | "member" => readMember text
  | _ =>
    let text := String.ofList (Text.trim text)
    match Flag.ofName? name with
    | some f => flag f text
    | none => unknown name text

end Tag

end ClassReference
