import ClassReference.Link
import ClassReference.Log

/-!
# Inline links in a text

Inside a description, a link is written between an opening brace with `@link` and the next closing
brace. Such a text falls into parts in one way only: the links, each with the text before it, and
the text after the last link. Expanding the links replaces them by hyperlinks in one form of the
text and by their labels in the other, and leaves the rest alone.
-/

namespace ClassReference

/-- A text divided at its inline links. -/
structure LinkedText where
  /-- The links in order, each as the text before it and what stands between its braces. -/
  links : List (List Char × List Char)
  /-- The text after the last link. -/
  rest : List Char
deriving DecidableEq, Repr

namespace LinkedText

/-- What opens an inline link. -/
def marker : List Char := ['{', '@', 'l', 'i', 'n', 'k']

/-- Divides a text at its inline links. A link that is never closed is not one. -/
def read (s : List Char) : LinkedText :=
  match _h : Text.cut? marker s with
  | none => ⟨[], s⟩
  | some (before, inside) =>
    match _h' : Text.cutFirst '}' inside with
    | (_, none) => ⟨[], s⟩
    | (content, some after) =>
      let more := read after
      ⟨(before, content) :: more.links, more.rest⟩
termination_by s.length
decreasing_by
  have := Text.length_of_cut? _h
  have := Text.length_of_cutFirst _h'
  omega

/-- Whether a link is opened and never closed. -/
def unterminated (t : LinkedText) : Bool :=
  (Text.cut? marker t.rest).isSome

/-- Puts a text together again, with each link replaced. Blank links are kept as they were
written. -/
def replace (f : Link → List Char) (currentClass : String) (t : LinkedText) : List Char :=
  t.links.flatMap (fun (before, content) =>
    before ++ match Link.read? content currentClass with
      | some link => f link
      | none => marker ++ content ++ ['}']) ++ t.rest

end LinkedText

/-- A text with its inline links as hyperlinks, and the same text with their labels only. -/
structure Expansion where
  /-- The text with hyperlinks. -/
  long : String
  /-- The text with labels. -/
  plain : String
deriving DecidableEq, Repr

namespace Expansion

/-- Expands the inline links of a text that belongs to the given class. -/
def ofText (style : LinkStyle) (text currentClass : String) : Logged Expansion := do
  let parts := LinkedText.read text.toList
  if parts.unterminated then
    Logged.tell .warning Log.linking ("Unterminated inline link in " ++ currentClass)
  return {
    long := String.ofList (parts.replace (fun link => (link.render style).toList) currentClass)
    plain := String.ofList (parts.replace (fun link => link.label.toList) currentClass) }

end Expansion

end ClassReference
