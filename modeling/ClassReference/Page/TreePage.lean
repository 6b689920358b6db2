import ClassReference.Link
import ClassReference.Model

/-!
# The tree page

The entry page of a reference: all packages and classes as nested lists, each class with a link to
its page.
-/

namespace ClassReference.TreePage

/-- How the tree page leads to class pages. -/
structure Target where
  /-- The directory of the class pages, as seen from the tree page. -/
  directory : String
  /-- The extension of class pages. -/
  extension : String
deriving DecidableEq, Repr

/-- A class as an item of a list. -/
def classItem (t : Target) (c : ClassName) : String :=
  "  <li class=\"class\"><a href=\"" ++ t.directory ++ "/" ++ pageName t.extension c.full
    ++ "\">" ++ c.short
    ++ "</a></li>\n"

mutual

/-- A package as a list of its packages and classes. -/
def packageList (t : Target) : Package → String
  | ⟨_, _, packages, classes⟩ =>
    "<ul>\n" ++ packageItems t packages ++ String.join (classes.map (classItem t)) ++ "</ul>\n"

/-- Packages as items of a list. -/
def packageItems (t : Target) : List Package → String
  | [] => ""
  | p :: ps =>
    "  <li class=\"package\">" ++ p.name ++ packageList t p ++ "</li>\n" ++ packageItems t ps

end

/-- The tree page as text. -/
def render (t : Target) (model : Model) : String :=
  "<!DOCTYPE html>\n<html>\n<head>\n  <meta charset=\"utf-8\">\n  <title>"
    ++ "API Documentation</title>\n"
    ++ "  <link rel=\"stylesheet\" href=\"resources/css/apidoc.css\">\n</head>\n<body>\n"
    ++ "<h1>API Documentation</h1>\n<p>" ++ toString model.classes.length
    ++ " classes</p>\n<div class=\"tree\">\n" ++ packageList t model.tree
    ++ "\n</div>\n</body>\n</html>"

end ClassReference.TreePage
