/-!
# Descriptions

What is said about an entity, in two forms: the long one, in which inline links are hyperlinks, and
a plain summary on one line for those entities that need one.
-/

namespace ClassReference

/-- A description ready to be shown. -/
structure Description where
  /-- The full text with inline links expanded to markup. -/
  long : String := ""
  /-- The plain summary on one line, where one is needed. -/
  short : Option String := none
deriving DecidableEq, Repr, Inhabited

end ClassReference
