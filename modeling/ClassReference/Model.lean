import ClassReference.Entity.Data
import ClassReference.Package
import ClassReference.Value.Json

/-!
# The model of a reference

What a finished reference shows: the listed classes in the order of their names, and the packages
that they are in.
-/

namespace ClassReference

/-- The classes and packages of a reference. -/
structure Model where
  /-- The listed classes. -/
  classes : List ClassEntry := []
  /-- The packages. -/
  tree : Package := {}
deriving Repr, Inhabited

/-- A class points to a parent position at which there is no class. -/
structure StaleParent where
  /-- The position. -/
  index : Nat
deriving DecidableEq, Repr

namespace Model

variable (m : Model)

/-- The class with the given full name. -/
def get? (full : String) : Option ClassEntry :=
  m.classes.find? (·.name.full == full)

/-- The listed parent of a class. -/
def parent (e : ClassEntry) : Except StaleParent (Option ClassEntry) :=
  match e.parentIndex with
  | none => .ok none
  | some i =>
    match m.classes[i]? with
    | some p => .ok (some p)
    | none => .error ⟨i⟩

/-- A model as data. -/
def toValue : Value :=
  .map [("classes", .list (m.classes.map ClassEntry.toValue)), ("tree", m.tree.toValue)]

/-- The JSON dump of a model, whose texts may be spelled with other code points than their own. -/
def toJson (spell : String → List CodePoint := Text.codes) : String :=
  m.toValue.toJson spell

end Model

end ClassReference
