import ClassReference.Entity
import ClassReference.Log

/-!
# Selection of class definitions

A class may be defined more than once. Of the definitions of a name one is selected: the first
public one, or, if excluded classes may pass on members and there is no public definition, the first
excluded one.
-/

namespace ClassReference

namespace Hierarchy

/-- How a hierarchy is resolved. -/
structure Rules where
  /-- The class whose descendants are components; none if no class has this role. -/
  componentClass : Option String := some "Ext.Component"
  /-- Whether excluded classes pass on members. They are never listed themselves. -/
  inheritFromExcluded : Bool := false
deriving DecidableEq, Repr

/-- A class definition with its position in the catalogue. -/
structure Slot where
  /-- The position in the catalogue. -/
  position : Nat
  /-- The definition. -/
  entry : ClassEntry
deriving DecidableEq, Repr

/-- Takes in one more definition. -/
def selectNext (rules : Rules) (chosen : List Slot) (slot : Slot) : Logged (List Slot) := do
  let e := slot.entry
  if e.excluded && !rules.inheritFromExcluded then
    Logged.tell .debug Log.resolving ("Excluding class " ++ e.name.full)
    return chosen
  match chosen.find? (·.entry.name.full == e.name.full) with
  | none => return chosen ++ [slot]
  | some current =>
    if current.entry.excluded && !e.excluded then
      Logged.tell .debug Log.resolving
        ("Public class " ++ e.name.full ++ " in " ++ e.definedIn ++ " replaces excluded definition")
      return chosen.map fun s => if s.entry.name.full == e.name.full then slot else s
    else
      Logged.tell .warning Log.resolving
        ("Duplicate class " ++ e.name.full ++ " in " ++ e.definedIn ++ ", keeping definition from "
          ++ current.entry.definedIn)
      return chosen

/-- Takes in definitions in order. -/
def selectFrom (rules : Rules) : List Slot → List Slot → Logged (List Slot)
  | chosen, [] => return chosen
  | chosen, slot :: slots => do selectFrom rules (← selectNext rules chosen slot) slots

/-- The definitions of a catalogue with their positions. -/
def slots (classes : List ClassEntry) : List Slot :=
  classes.zipIdx.map fun (e, i) => ⟨i, e⟩

/-- The selected definitions, one for each name, in the order of the names. -/
def select (rules : Rules) (classes : List ClassEntry) : Logged (List Slot) := do
  let chosen ← selectFrom rules [] (slots classes)
  return chosen.mergeSort fun a b => decide (a.entry.name.full ≤ b.entry.name.full)

end Hierarchy

end ClassReference
