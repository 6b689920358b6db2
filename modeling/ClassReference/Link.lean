import ClassReference.Text.Blank
import ClassReference.Text.Cut

/-!
# Links between class pages

A link names a class, a member of a class, or a member of the class at hand. Each class has a page
of its own, and each member an anchor on it, so that a link is a page name with or without an
anchor.
-/

namespace ClassReference

/-- How links and summaries are written. -/
structure LinkStyle where
  /-- The extension of class pages. -/
  pageExtension : String := "html"
  /-- How many characters of a summary are kept. A negative number counts those that are cut off. -/
  limit : Int := 117
  /-- What is put after a summary that was cut. -/
  ellipsis : String := "..."
deriving DecidableEq, Repr

/-- The key of the setting for the limit of summaries. -/
def LinkStyle.limitKey : String := "short_description_length"

/-- The key of the setting for what ends a summary that was cut. -/
def LinkStyle.ellipsisKey : String := "ellipsis"

/-- The page of a class. -/
def pageName (extension className : String) : String :=
  className ++ "." ++ extension

/-- The anchor of a member on the page of a class. -/
def anchorName (className memberName : String) : String :=
  className ++ "-" ++ memberName

/-- A link to a class or to one of its members. -/
structure Link where
  /-- The class that the link leads to. -/
  className : String
  /-- The member that the link leads to, if it does not lead to the class as a whole. -/
  memberName : Option String
  /-- The text shown for the link. -/
  label : String
deriving DecidableEq, Repr

namespace Link

/-- Reads what stands between the braces of an inline link: a target and maybe a label. A target
that starts with a number sign is a member of the current class. A blank text is no link. -/
def read? (content : List Char) (currentClass : String) : Option Link :=
  let (target, label) := Text.splitWord content
  if target.isEmpty then
    none
  else
    let labelOr (default : List Char) := String.ofList (if label.isEmpty then default else label)
    match Text.cutFirst '#' target with
    | (_, none) =>
      some { className := String.ofList target, memberName := none, label := labelOr target }
    | ([], some name) =>
      some { className := currentClass, memberName := some (String.ofList name),
             label := labelOr name }
    | (owner, some name) =>
      some { className := String.ofList owner, memberName := some (String.ofList name),
             label := labelOr (owner ++ '.' :: name) }

/-- A link as a hyperlink. -/
def render (style : LinkStyle) (link : Link) : String :=
  let page := pageName style.pageExtension link.className
  match link.memberName with
  | none =>
    "<a href=\"" ++ page ++ "\" data-cls=\"" ++ link.className ++ "\">" ++ link.label ++ "</a>"
  | some name =>
    "<a href=\"" ++ page ++ "#" ++ anchorName link.className name ++ "\" data-cls=\""
      ++ link.className
      ++ "\" data-member=\"" ++ name ++ "\">" ++ link.label ++ "</a>"

end Link

end ClassReference
