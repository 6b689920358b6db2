/-!
# Documentation comments

A documentation comment stands between the markers `/**` and `*/`. Besides its body, the first two
words of the code that follows it are kept: they name the thing that the comment documents when the
body does not.
-/

namespace ClassReference

/-- A documentation comment as found in source text. -/
structure Comment where
  /-- The text between the markers. -/
  body : String
  /-- The first word of the code after the comment, empty if there is none. -/
  first : String := ""
  /-- The second word of the code after the comment, empty if there is none. -/
  second : String := ""
deriving DecidableEq, Repr

namespace Comment

/-- The marker that opens a comment. -/
def opening : List Char := ['/', '*', '*']

/-- The marker that closes a comment. -/
def closing : List Char := ['*', '/']

end Comment

end ClassReference
