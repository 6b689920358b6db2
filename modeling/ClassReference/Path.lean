import ClassReference.Text.Cut

/-!
# Paths

A path is a starting point and the names to follow from it. It is written with slashes. Empty names
and single dots say nothing and are dropped when a path is read; double dots are kept, as only the
files decide where they lead.
-/

namespace ClassReference

/-- Where a path starts. -/
inductive Anchor where
  /-- The working directory. -/
  | working
  /-- The root. -/
  | root
  /-- The root, written with two slashes. -/
  | doubleRoot
  /-- The templates that come with the program. -/
  | builtin
deriving DecidableEq, Repr

/-- A path to a file or directory. -/
structure Path where
  /-- Where it starts. -/
  anchor : Anchor := .working
  /-- The names to follow. -/
  parts : List String := []
deriving DecidableEq, Repr, Inhabited

namespace Path

/-- How the directory of the templates that come with the program is written. -/
def builtinName : String := "<default>"

/-- The names of a path, without those that say nothing. -/
def partsOf (s : List Char) : List String :=
  ((Text.segments '/' s).map String.ofList).filter fun n => n != "" && n != "."

/-- Reads a path. -/
def ofString (s : String) : Path :=
  match s.toList with
  | '/' :: '/' :: '/' :: rest => ⟨.root, partsOf rest⟩
  | '/' :: '/' :: rest => ⟨.doubleRoot, partsOf rest⟩
  | '/' :: rest => ⟨.root, partsOf rest⟩
  | cs =>
    match partsOf cs with
    | first :: rest => if first = builtinName then ⟨.builtin, rest⟩ else ⟨.working, first :: rest⟩
    | [] => ⟨.working, []⟩

/-- The names with slashes between them. -/
def written (parts : List String) : String :=
  String.intercalate "/" parts

/-- A path as it is written. -/
def toString (p : Path) : String :=
  match p.anchor, p.parts with
  | .working, [] => "."
  | .working, parts => written parts
  | .root, parts => "/" ++ written parts
  | .doubleRoot, parts => "//" ++ written parts
  | .builtin, [] => builtinName
  | .builtin, parts => builtinName ++ "/" ++ written parts

instance : ToString Path := ⟨toString⟩

/-- The second path as seen from the first. It replaces the first if it starts at the root. The name
of the directory of templates is a name like any other here. -/
def join (p q : Path) : Path :=
  match q.anchor with
  | .working => { p with parts := p.parts ++ q.parts }
  | .builtin => { p with parts := p.parts ++ builtinName :: q.parts }
  | _ => q

instance : Div Path := ⟨join⟩

/-- The path without its last name. -/
def parent (p : Path) : Path :=
  { p with parts := p.parts.dropLast }

/-- The last name of a path, empty if it has none. -/
def name (p : Path) : String :=
  p.parts.getLast?.getD ""

/-- Whether a path has a null character in it. -/
def hasNull (p : Path) : Bool :=
  p.parts.any fun n => n.toList.contains (Char.ofNat 0)

/-- The names of a path, with the start in front of them if it is the root. -/
def allParts (p : Path) : List String :=
  match p.anchor with
  | .root => "/" :: p.parts
  | .doubleRoot => "//" :: p.parts
  | _ => p.parts

end Path

end ClassReference
