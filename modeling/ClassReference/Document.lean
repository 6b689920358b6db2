import ClassReference.FileTree
import ClassReference.Text.Encoding
import ClassReference.Value

/-!
# Documents

Files that hold structured data. The notation of such data is out of scope: a document carries its
data beside its text, and one that is malformed is known to be. Of a file that is given by its text
alone it can only be said that there is no data in it if it is blank.
-/

namespace ClassReference

/-- Why a file could not be read as structured data. -/
inductive DocumentFault where
  /-- The file could not be read at all. -/
  | file (cause : FileCause)
  /-- The file is no text. -/
  | noText
  /-- The text has characters that structured data cannot have. -/
  | unprintable
  /-- The text is no structured data. -/
  | malformed
  /-- The text is given without the data that it may stand for. -/
  | unknown
deriving DecidableEq, Repr

/-- What is said about a file that holds no structured data. -/
def DocumentFault.reason : DocumentFault → String
  | file cause => cause.reason
  | noText => "the text cannot be decoded"
  | unprintable => "special characters are not allowed"
  | malformed => "the data cannot be read"
  | unknown => "the data is not known"

namespace Content

/-- The text of a file in UTF-8, with its line ends unified; `none` if it is no text. -/
def text? (c : Content) : Option String :=
  let decoding := Encoding.utf8.decode c.data
  match decoding.fault with
  | none => some (String.ofList (Text.unifyLineEnds decoding.text))
  | some _ => none

/-- Whether a character may stand in structured data. -/
def mayStand (c : Char) : Bool :=
  let n := c.toNat
  n = 0x09 || n = 0x0A || n = 0x0D || n = 0x85 || (0x20 ≤ n && n ≤ 0x7E)
    || (0xA0 ≤ n && n ≤ 0xFFFD) || 0x10000 ≤ n

/-- The structured data that a text stands for by itself: nothing if it is blank. -/
def valueOf (s : String) : Except DocumentFault Value :=
  if !s.toList.all mayStand then .error .unprintable
  else if s.toList.all fun c => c = ' ' || c = '\n' then .ok .null
  else .error .unknown

/-- The structured data that a file holds. -/
def toValue : Content → Except DocumentFault Value
  | document value _ => .ok value
  | malformed _ => .error .malformed
  | c =>
    match c.text? with
    | some s => valueOf s
    | none => .error .noText

end Content

/-- Reads a file that holds structured data. -/
def FileTree.readDocument (files : FileTree) (p : Path) : Except DocumentFault Value :=
  match files.read p with
  | .ok content => content.toValue
  | .error cause => .error (.file cause)

end ClassReference
