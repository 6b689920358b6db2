import ClassReference.Description
import ClassReference.Link.Expansion

/-!
# Summaries

A summary is the plain form of a text without markup, on one line. It is cut when it is longer than
the limit of the style.
-/

namespace ClassReference

namespace Text

/-- The text without its markup, that is, without each `<` and what follows it up to the next `>`. A
`<` that no `>` follows is no markup. -/
def stripMarkup : List Char → List Char
  | [] => []
  | c :: rest =>
    if c = '<' then
      match _h : cutFirst '>' rest with
      | (_, some after) => stripMarkup after
      | (_, none) => c :: rest
    else
      c :: stripMarkup rest
termination_by s => s.length
decreasing_by
  · have := length_of_cutFirst _h
    simp only [List.length_cons]
    omega
  · simp

/-- Line feeds, carriage returns and tabs as spaces. -/
def flatten (c : Char) : Char :=
  if c = '\n' || c = '\r' || c = '\t' then ' ' else c

/-- The first `n` characters; all but the last `-n` if `n` is negative. -/
def clip (n : Int) (s : List Char) : List Char :=
  match n with
  | .ofNat k => s.take k
  | .negSucc k => s.take (s.length - (k + 1))

end Text

namespace Description

/-- A plain text without markup, on one line. -/
def lineOf (plain : String) : List Char :=
  (Text.stripMarkup plain.toList).map Text.flatten

/-- Whether the summary of a plain text is cut. -/
def isCut (style : LinkStyle) (plain : String) : Bool :=
  ((lineOf plain).length : Int) > style.limit

/-- The summary of a plain text. There is none if the text fits and none is asked for. -/
def summary? (style : LinkStyle) (plain : String) (always : Bool) : Option String :=
  if isCut style plain then
    some (String.ofList (Text.clip style.limit (lineOf plain)) ++ style.ellipsis)
  else if always then
    some (String.ofList (lineOf plain))
  else
    none

/-- The summary of a plain text as a step of work, which uses the limit of the style, and its
ellipsis if the summary is cut. -/
def summarize (style : LinkStyle) (plain : String) (always : Bool) : Logged (Option String) := do
  Logged.rely LinkStyle.limitKey
  if isCut style plain then
    Logged.rely LinkStyle.ellipsisKey
  return summary? style plain always

@[simp] theorem value_summarize (style : LinkStyle) (plain : String) (always : Bool) :
    (summarize style plain always).value = summary? style plain always := by
  unfold summarize
  split <;> rfl

/-- The description of something that belongs to the given class. A missing text counts as empty. -/
def ofText (style : LinkStyle) (text : Option String) (currentClass : String)
    (always : Bool := false) :
    Logged Description := do
  let expansion ← Expansion.ofText style (text.getD "") currentClass
  return { long := expansion.long, short := ← summarize style expansion.plain always }

end Description

end ClassReference
