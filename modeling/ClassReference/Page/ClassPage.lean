import ClassReference.Model
import ClassReference.Page.Fragment

/-!
# Class pages

The page of a class: its ancestors, a table of facts, its description, its constructor, and a table
for each kind of members. Members that it inherits are marked and lead to the page of the class that
declares them.
-/

namespace ClassReference.ClassPage

open Fragment

/-! ## Parts shared by several tables -/

/-- A type after a colon, where one is given. -/
def typeSuffix (type : Option String) : String :=
  match type with
  | some t => if t = "" then "" else " : " ++ t
  | none => ""

/-- A parameter as an item of a list. -/
def paramItem (p : Param) : String :=
  "  <li><code>" ++ p.name ++ "</code>" ++ typeSuffix p.type
    ++ (if p.optional then " (optional)" else "") ++ " " ++ p.description.long ++ "</li>\n"

/-- Parameters as a list; nothing if there are none. -/
def paramList (ps : List Param) : String :=
  if ps.isEmpty then ""
  else "<ul class=\"params\">\n" ++ String.join (ps.map paramItem) ++ "</ul>\n"

/-- The names of parameters between parentheses. -/
def paramNames (ps : List Param) : String :=
  "(" ++ String.intercalate ", " (ps.map (·.name)) ++ ")"

/-- The summary of a description, or all of it where there is none. -/
def summary (d : Description) : String :=
  d.short.getD d.long

/-- The class that declares a member: a link, unless it is the class of the page. -/
def ownerCell {α : Type} (e : ClassEntry) (m : Member α) : Fragment :=
  if m.owner.full = e.name.full then text e.name.short else pageLink m.owner.full m.owner.short

/-- The start of the row of a member. -/
def rowStart {α : Type} (e : ClassEntry) (m : Member α) : List Fragment :=
  [text "  <tr ", anchor e.name.full m.name,
    text (if m.owner.full = e.name.full then ">\n" else " class=\"inherited\">\n")]

/-- The end of the row of a member. -/
def rowEnd {α : Type} (e : ClassEntry) (m : Member α) : List Fragment :=
  [text "    <td>", ownerCell e m, text "</td>\n  </tr>\n"]

/-- A table of members; nothing if there are none. -/
def table {α : Type} (title column : String) (row : Member α → List Fragment)
    (ms : List (Member α)) :
    List Fragment :=
  if ms.isEmpty then []
  else
    text ("<h2>" ++ title ++ "</h2>\n<table class=\"members\">\n  <tr><th>" ++ column
      ++ "</th><th>Description</th><th>Defined by</th></tr>\n")
      :: ms.flatMap row ++ [text "</table>\n"]

/-! ## The tables -/

/-- The row of a config option. -/
def cfgRow (e : ClassEntry) (m : Cfg) : List Fragment :=
  rowStart e m ++ [text ("    <td><code>" ++ m.name ++ "</code>" ++ typeSuffix m.detail.type
    ++ "</td>\n    <td>" ++ m.description.long ++ "</td>\n")] ++ rowEnd e m

/-- The row of a property. -/
def propertyRow (e : ClassEntry) (m : Property) : List Fragment :=
  rowStart e m ++ [text ("    <td><code>" ++ m.name ++ "</code>" ++ typeSuffix m.detail.type
    ++ "</td>\n    <td>" ++ m.description.long ++ "</td>\n")] ++ rowEnd e m

/-- What is said about what a method returns. -/
def returned (d : Option Description) : String :=
  match d with
  | some d => "<div class=\"returns\">Returns: " ++ d.long ++ "</div>"
  | none => ""

/-- The descriptions of a member in both forms, and its parameters. -/
def details (d : Description) (ps : List Param) : String :=
  "    <td>\n      <div class=\"short\">" ++ summary d
    ++ "</div>\n      <div class=\"long\">" ++ d.long
    ++ "</div>\n      " ++ paramList ps ++ "\n"

/-- The row of a method. -/
def methodRow (e : ClassEntry) (m : Method) : List Fragment :=
  rowStart e m ++ [text ("    <td><code>" ++ (if m.static then "static " else "") ++ m.name
    ++ paramNames m.detail.params ++ "</code>" ++ typeSuffix m.detail.returnType ++ "</td>\n"
    ++ details m.description m.detail.params ++ returned m.detail.returnDescription
    ++ "    </td>\n")] ++ rowEnd e m

/-- The row of an event. -/
def eventRow (e : ClassEntry) (m : Event) : List Fragment :=
  rowStart e m ++ [text ("    <td><code>" ++ m.name ++ "</code> : " ++ paramNames m.detail.params
    ++ "</td>\n" ++ details m.description m.detail.params ++ "    </td>\n")] ++ rowEnd e m

/-! ## The parts above the tables -/

/-- The ancestors of the class, those that are listed as links; nothing if there are none. -/
def ancestorList (model : Model) (e : ClassEntry) : List Fragment :=
  if e.superClasses.isEmpty then []
  else
    text "<ul class=\"hierarchy\">\n" :: e.superClasses.flatMap (fun c =>
        [text "  <li>", if (model.get? c.full).isSome then pageLink c.full c.short
          else text c.short,
          text "</li>\n"])
      ++ [text ("  <li><strong>" ++ e.name.short ++ "</strong></li>\n</ul>\n")]

/-- The subclasses as links with commas between them. -/
def subclassLinks : List ClassName → List Fragment
  | [] => []
  | [c] => [pageLink c.full c.short]
  | c :: cs => pageLink c.full c.short :: text ", " :: subclassLinks cs

/-- The row of subclasses; nothing if there are none. -/
def subclassRow (e : ClassEntry) : List Fragment :=
  if e.subClasses.isEmpty then []
  else
    text "  <tr><th>Subclasses</th><td>\n" :: subclassLinks e.subClasses ++ [text "  </td></tr>\n"]

/-- The row of the parent: a link if it is listed, its name if it is only named. -/
def parentRow (parent : Option ClassEntry) (e : ClassEntry) : List Fragment :=
  match parent with
  | some p =>
    [text "  <tr><th>Extends</th><td>", pageLink p.name.full p.name.full, text "</td></tr>\n"]
  | none =>
    match e.parentName with
    | some n => if n = "" then [] else [text ("  <tr><th>Extends</th><td>" ++ n ++ "</td></tr>\n")]
    | none => []

/-- The constructor; nothing if it is not documented. -/
def constructorPart (e : ClassEntry) : String :=
  if e.hasConstructor then
    "<h2>Constructor</h2>\n<div>" ++ (e.constructorDescription.map (·.long)).getD "" ++ "</div>\n"
      ++ paramList e.params ++ "\n"
  else ""

/-! ## The page -/

/-- The start of the page. -/
def head (e : ClassEntry) : String :=
  "<!DOCTYPE html>\n<html>\n<head>\n  <meta charset=\"utf-8\">\n  <title>" ++ e.name.full
    ++ "</title>\n  <link rel=\"stylesheet\" href=\"../resources/css/apidoc.css\">\n"
    ++ "</head>\n<body>\n<h1>"
    ++ e.name.short ++ " <small>" ++ e.name.full ++ "</small></h1>\n\n"

/-- The first rows of the table of facts. -/
def facts (e : ClassEntry) : String :=
  "\n<table class=\"meta\">\n  <tr><th>Package</th><td>"
    ++ (if e.packageName = "" then "(global)" else e.packageName)
    ++ "</td></tr>\n  <tr><th>Defined in</th><td>" ++ e.definedIn
    ++ "</td></tr>\n  <tr><th>Class</th><td>" ++ e.name.short
    ++ (if e.singleton then " (singleton)" else "") ++ "</td></tr>\n"

/-- The page of a class with the given listed parent. -/
def fragments (model : Model) (parent : Option ClassEntry) (e : ClassEntry) : List Fragment :=
  text (head e) :: ancestorList model e
    ++ text (facts e) :: subclassRow e
    ++ parentRow parent e
    ++ text ("</table>\n\n<div class=\"description\">" ++ e.description.long ++ "</div>\n\n"
        ++ constructorPart e ++ "\n")
      :: table "Config Options" "Name" (cfgRow e) e.members.cfgs
    ++ text "\n" :: table "Public Properties" "Name" (propertyRow e) e.members.properties
    ++ text "\n" :: table "Public Methods" "Method" (methodRow e) e.members.methods
    ++ text "\n" :: table "Public Events" "Event" (eventRow e) e.members.events
    ++ [text "</body>\n</html>"]

/-- The page of a class as text. -/
def render (extension : String) (model : Model) (parent : Option ClassEntry) (e : ClassEntry) :
    String :=
  Fragment.writeAll extension (fragments model parent e)

end ClassReference.ClassPage
