import ClassReference.Tag.Reading
import ClassReference.Text.Alphanumeric
import ClassReference.Text.Lines

/-!
# Documentation blocks

The body of a documentation comment, read line by line. A line loses the decoration it starts with;
it is then a tag line if it starts with `@` and a letter, and plain text otherwise. Text before the
first tag is the description, and text after a tag belongs to that tag.
-/

namespace ClassReference

/-- A comment body as description and tags. -/
structure DocBlock where
  /-- The text before the first tag, trimmed. -/
  description : String := ""
  /-- The tags in order. -/
  tags : List Tag := []
deriving DecidableEq, Repr

/-- A line of a comment body, without its decoration. -/
inductive BodyLine where
  /-- A line that starts a tag with this name; `rest` is what follows the name. -/
  | tag (name rest : List Char)
  /-- Any other line. -/
  | text (line : List Char)
deriving DecidableEq, Repr

namespace BodyLine

/-- A line without its decoration: the blanks at its start, and asterisks after them with one
space. -/
def undecorated (line : List Char) : List Char :=
  match Text.trimStart line with
  | '*' :: rest =>
    match rest.dropWhile (· == '*') with
    | ' ' :: rest => rest
    | rest => rest
  | rest => rest

/-- Whether a character may start the name of a tag. -/
def startsName (c : Char) : Bool :=
  c.isAlpha

/-- A line without decoration as a tag line or as text. -/
def ofUndecorated (line : List Char) : BodyLine :=
  match Text.trimStart line with
  | '@' :: c :: rest =>
    if startsName c then
      tag (c :: rest.takeWhile Text.isIdentifierChar) (rest.dropWhile Text.isIdentifierChar)
    else
      text line
  | _ => text line

/-- Reads a line of a comment body. -/
def read (line : List Char) : BodyLine :=
  ofUndecorated (undecorated line)

end BodyLine

namespace DocBlock

/-- The text lines before the first tag, and the tags with their name and lines. -/
def gather : List BodyLine → List (List Char) × List (List Char × List (List Char))
  | [] => ([], [])
  | .text line :: rest =>
    let (lines, tags) := gather rest
    (line :: lines, tags)
  | .tag name first :: rest =>
    let (lines, tags) := gather rest
    ([], (name, first :: lines) :: tags)

/-- The block with the given lines. -/
def ofLines (lines : List BodyLine) : DocBlock :=
  let (description, tags) := gather lines
  { description := String.ofList (Text.trim (Text.joinLines description))
    tags := tags.map fun t => Tag.read (String.ofList t.1) (Text.joinLines t.2) }

/-- Reads the body of a documentation comment. -/
def read (body : String) : DocBlock :=
  ofLines ((Text.lines body.toList).map BodyLine.read)

/-! ## Looking up tags -/

variable (b : DocBlock)

/-- All tags of a shape, in order. -/
def ofKind (k : TagKind) : List Tag := b.tags.filter (·.kind == k)

/-- The classes that the block declares. -/
def declared : List Titled := b.tags.filterMap fun | .declares t => some t | _ => none

/-- The parents that the block names. -/
def inherited : List Titled := b.tags.filterMap fun | .inherits t => some t | _ => none

/-- The config options. -/
def cfgs : List Item := b.tags.filterMap fun | .cfg i => some i | _ => none

/-- The parameters. -/
def params : List Item := b.tags.filterMap fun | .param i => some i | _ => none

/-- The property tags, each with its name and description. -/
def properties : List (Option String × Option String) :=
  b.tags.filterMap fun | .property n d => some (n, d) | _ => none

/-- The method tags, each with its name. -/
def methods : List (Option String) := b.tags.filterMap fun | .method n => some n | _ => none

/-- The event tags. -/
def events : List Titled := b.tags.filterMap fun | .event t => some t | _ => none

/-- The return tags, each with its type and description. -/
def returns : List (Option String × Option String) :=
  b.tags.filterMap fun | .returns t d => some (t, d) | _ => none

/-- The type tags. -/
def types : List (Option String) := b.tags.filterMap fun | .type t => some t | _ => none

/-- The member tags, each with its owner and name. -/
def members : List (String × Option String) :=
  b.tags.filterMap fun | .member o n => some (o, n) | _ => none

/-- The texts of the tags with the given flag. -/
def flagged (f : Flag) : List String :=
  b.tags.filterMap fun | .flag g text => if g = f then some text else none | _ => none

/-- Whether the flag is present. -/
def has (f : Flag) : Bool := !(b.flagged f).isEmpty

end DocBlock

end ClassReference
