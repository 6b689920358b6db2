import ClassReference.Hierarchy.Ancestors
import ClassReference.Hierarchy.Inheritance
import ClassReference.Hierarchy.Selection

/-!
# Resolution of the hierarchy

Resolving a catalogue gives every selected class its place: its parent and subclasses, its
ancestors, and its members with those that it inherits. It starts from the declared halves of the
entries only; whatever an earlier resolution has filled in is overwritten.

The classes are settled one by one in the order of their names. If the parents of one of them run in
a cycle, the resolution stops there: the classes before it are settled, and it and the classes after
it are linked and hold the members that they declare.
-/

namespace ClassReference

namespace Hierarchy

/-! ## Linking -/

/-- The position of the class with the given full name. -/
def positionOf (arena : List ClassEntry) (full : String) : Option Nat :=
  arena.findIdx? (·.name.full == full)

/-- The listed classes whose parent has the given full name. -/
def childrenOf (arena : List ClassEntry) (full : String) : List ClassName :=
  (arena.filter fun c => !c.excluded && c.parentName == some full).map (·.name)

/-- An entry with its links to parent and subclasses, and the members that it declares. -/
def linkEntry (arena : List ClassEntry) (members : Members) (e : ClassEntry) : ClassEntry :=
  { e with
    parentIndex := e.parentName.bind (positionOf arena)
    subClasses := childrenOf arena e.name.full
    superClasses := []
    component := false
    members := members.declaredBy e.name.full }

/-- Every entry with its links and declared members. -/
def link (arena : List ClassEntry) (members : Members) : List ClassEntry :=
  arena.map (linkEntry arena members)

/-- Reports the parents that are not documented. -/
def reportParents (arena : List ClassEntry) : Logged Unit :=
  Logged.sendAll (arena.filterMap fun e =>
    match e.parentName with
    | some p =>
      if (positionOf arena p).isNone then
        some ⟨.debug, Log.resolving, "Parent " ++ p ++ " of " ++ e.name.full ++
          " is not documented"⟩
      else
        none
    | none => none)

/-- Reports the members of classes that are not documented. -/
def reportMembers (arena : List ClassEntry) (members : Members) : Logged Unit :=
  Logged.sendAll (members.labels.filterMap fun (owner, name) =>
    if (positionOf arena owner).isNone then
      some ⟨.debug, Log.resolving, "No class " ++ owner ++ " for member " ++ name⟩
    else
      none)

/-! ## Settling -/

/-- The class at `i` with its ancestors and inherited members. -/
def settleEntry (rules : Rules) (linked : List ClassEntry) (i : Nat) (e : ClassEntry) :
    Except Cycle ClassEntry := do
  let chain := (← ancestors linked i).filterMap (linked[·]?)
  return { e with
    superClasses := (chain.map (·.name)).reverse
    component := chain.any fun a => rules.componentClass == some a.name.full
    members := (chain.foldl (fun ms a => ms.inherit a.members) e.members).listed
    subClasses := e.subClasses.mergeSort fun a b => decide (a.full ≤ b.full) }

/-- Settles classes in order up to the first whose parents run in a cycle. -/
def settleFrom (rules : Rules) (linked : List ClassEntry) :
    (i : Nat) → List ClassEntry → List ClassEntry × Option Cycle
  | _, [] => ([], none)
  | i, e :: rest =>
    match settleEntry rules linked i e with
    | .error cycle => (e :: rest, some cycle)
    | .ok settled =>
      let (more, cycle) := settleFrom rules linked (i + 1) rest
      (settled :: more, cycle)

/-! ## Detaching excluded classes -/

/-- The position that a class has once the excluded ones are gone. -/
def detachedIndex (arena : List ClassEntry) (i : Nat) : Option Nat :=
  match arena[i]? with
  | some e => if e.excluded then none else some ((arena.take i).countP (!·.excluded))
  | none => none

/-- Listed classes point to their parent by its position among the listed classes. -/
def detach (arena : List ClassEntry) : List ClassEntry :=
  arena.map fun e =>
    if e.excluded then e else { e with parentIndex := e.parentIndex.bind (detachedIndex arena) }

/-! ## The whole -/

/-- The selected definitions as resolution leaves them, and the cycle that stopped it, if one
did. -/
structure Resolution where
  /-- The selected definitions. -/
  slots : List Slot
  /-- The cycle that stopped the resolution. -/
  cycle : Option Cycle
deriving DecidableEq, Repr

namespace Resolution

/-- The selected definitions that are listed. -/
def listedSlots (r : Resolution) : List Slot :=
  r.slots.filter (!·.entry.excluded)

/-- The listed classes, or the cycle that stopped the resolution. -/
def outcome (r : Resolution) : Except Cycle (List ClassEntry) :=
  match r.cycle with
  | some cycle => .error cycle
  | none => .ok (r.listedSlots.map (·.entry))

end Resolution

/-- Resolves the hierarchy of a catalogue. -/
def resolve (rules : Rules) (catalog : Catalog) : Logged Resolution := do
  let selected ← select rules catalog.classes
  let arena := selected.map (·.entry)
  reportParents arena
  reportMembers arena catalog.members
  let linked := link arena catalog.members
  let (settled, cycle) := settleFrom rules linked 0 linked
  let positions := selected.map (·.position)
  match cycle with
  | some cycle => return ⟨positions.zipWith Slot.mk settled, some cycle⟩
  | none =>
    let listed := settled.countP (!·.excluded)
    Logged.tell .info Log.resolving
      ("Resolved hierarchy of " ++ toString listed ++ " classes ("
        ++ toString (settled.length - listed) ++ " excluded)")
    return ⟨positions.zipWith Slot.mk (detach settled), none⟩

end Hierarchy

/-- The catalogue with the given definitions in their positions. -/
def Catalog.update (c : Catalog) (slots : List Hierarchy.Slot) : Catalog :=
  { c with classes := slots.foldl (fun classes s => classes.set s.position s.entry) c.classes }

end ClassReference
