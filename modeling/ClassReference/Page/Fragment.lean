import ClassReference.Link

/-!
# Fragments of a page

A page is written as a sequence of fragments. Hyperlinks to class pages and anchors of members are
fragments of their own, apart from the texts around them, so that it can be said where a page leads
and what can be reached on it.
-/

namespace ClassReference

/-- A fragment of a page. -/
inductive Fragment where
  /-- A text, written as it is. -/
  | text (s : String)
  /-- A hyperlink to the page of a class. -/
  | pageLink (className label : String)
  /-- The anchor of a member of a class, as an attribute. -/
  | anchor (className memberName : String)
deriving DecidableEq, Repr

namespace Fragment

/-- A fragment as it is written on a page. -/
def write (extension : String) : Fragment → String
  | text s => s
  | pageLink className label =>
    "<a href=\"" ++ pageName extension className ++ "\">" ++ label ++ "</a>"
  | anchor className memberName => "id=\"" ++ anchorName className memberName ++ "\""

/-- Fragments as they are written on a page. -/
def writeAll (extension : String) (fs : List Fragment) : String :=
  String.join (fs.map (write extension))

end Fragment

end ClassReference
