import ClassReference.Entity
import ClassReference.Value

/-!
# Packages

Classes are arranged by the dotted names of their packages. A package holds the classes that are
directly in it and its child packages, each under a different name. The root is the package without
a name.
-/

namespace ClassReference

/-- A package with the classes and packages in it. -/
structure Package where
  /-- The last segment of its name, empty for the root. -/
  name : String := ""
  /-- Its dotted name, empty for the root. -/
  fullName : String := ""
  /-- The packages in it. -/
  packages : List Package := []
  /-- The classes directly in it. -/
  classes : List ClassName := []
deriving Repr, Inhabited

namespace Package

/-- The segments of a dotted package name; none for the empty name. -/
def pathOf (packageName : String) : List String :=
  if packageName = "" then [] else (Text.segments '.' packageName.toList).map String.ofList

/-- The empty child of a package with the given name. -/
def newChild (p : Package) (name : String) : Package where
  name := name
  fullName := if p.fullName = "" then name else p.fullName ++ "." ++ name

/-- Changes the first of the packages that has the given name; `fresh` is changed and put behind the
others if there is none. -/
def modifyNamed (name : String) (f : Package → Package) (fresh : Package) :
    List Package → List Package
  | [] => [f fresh]
  | p :: ps => if p.name = name then f p :: ps else p :: modifyNamed name f fresh ps

/-- Changes the child with the given name, which is made if there is none. -/
def modifyChild (name : String) (f : Package → Package) (p : Package) : Package :=
  { p with packages := modifyNamed name f (p.newChild name) p.packages }

/-- Changes the package that is reached by the given segments. Missing packages on the way are
made. -/
def modifyAt (f : Package → Package) : List String → Package → Package
  | [] => f
  | name :: path => modifyChild name (modifyAt f path)

/-- Puts a class behind those of a package. -/
def addClass (c : ClassName) (p : Package) : Package :=
  { p with classes := p.classes ++ [c] }

/-- Places a class in the package that is reached by the given segments. -/
def place (root : Package) (path : List String) (c : ClassName) : Package :=
  modifyAt (addClass c) path root

/-- The child with the given name. -/
def child? (p : Package) (name : String) : Option Package :=
  p.packages.find? (·.name == name)

/-- The package that is reached by the given segments. -/
def descend : List String → Package → Option Package
  | [], p => some p
  | name :: path, p => (p.child? name).bind (descend path)

/-- The package with the given dotted name. -/
def find (root : Package) (fullName : String) : Option Package :=
  descend (pathOf fullName) root

mutual

/-- The package with packages and classes in the order of their names, all the way down. -/
def sorted : Package → Package
  | ⟨name, fullName, packages, classes⟩ =>
    { name
      fullName
      packages := (sortedAll packages).mergeSort fun a b => decide (a.name ≤ b.name)
      classes := classes.mergeSort fun a b => decide (a.full ≤ b.full) }

/-- Sorts each of the packages. -/
def sortedAll : List Package → List Package
  | [] => []
  | p :: ps => sorted p :: sortedAll ps

end

/-- The tree of packages that the classes are in. -/
def ofClasses (classes : List ClassEntry) : Package :=
  (classes.foldl (fun (root : Package) e => root.place (pathOf e.packageName) e.name) {}).sorted

mutual

/-- A package as data. -/
def toValue : Package → Value
  | ⟨name, fullName, packages, classes⟩ =>
    .map [("name", .str name), ("full_name", .str fullName),
      ("packages", .list (toValues packages)),
      ("classes", .list (classes.map fun c =>
        .map [("class_name", .str c.full), ("short_class_name", .str c.short)]))]

/-- Packages as data. -/
def toValues : List Package → List Value
  | [] => []
  | p :: ps => toValue p :: toValues ps

end

end Package

end ClassReference
