import ClassReference.Entity

/-!
# Inheritance of members

A class takes over the members that an ancestor declares, except those that are static and those
that it already has by the same simple name. Members without a name override nothing and are never
overridden. Hidden members take part in all this and are dropped only at the end, so that a hidden
member also hides what it overrides.
-/

namespace ClassReference

namespace Member

variable {α : Type}

/-- Whether a member is overridden by one of those that are already there. -/
def overriddenBy (m : Member α) (present : List (Member α)) : Bool :=
  let simple := m.simpleName
  m.name != "" && present.any fun o => o.name != "" && o.simpleName == simple

/-- The members that are there, and behind them those that an ancestor passes on. -/
def inherit (present declared : List (Member α)) : List (Member α) :=
  declared.foldl (fun acc m => if m.static || m.overriddenBy acc then acc else acc ++ [m]) present

/-- The order in which members are listed: by name, then by the class that declares them. -/
def listedBefore (a b : Member α) : Bool :=
  a.name < b.name || (a.name == b.name && a.owner.full ≤ b.owner.full)

/-- The members that are not hidden, in the order in which they are listed. -/
def listed (ms : List (Member α)) : List (Member α) :=
  (ms.filter (!·.hidden)).mergeSort listedBefore

end Member

namespace Members

/-- The members that are there, and those that an ancestor passes on, kind by kind. -/
def inherit (present declared : Members) : Members where
  cfgs := Member.inherit present.cfgs declared.cfgs
  properties := Member.inherit present.properties declared.properties
  methods := Member.inherit present.methods declared.methods
  events := Member.inherit present.events declared.events

/-- The members that are not hidden, kind by kind in the order in which they are listed. -/
def listed (ms : Members) : Members where
  cfgs := Member.listed ms.cfgs
  properties := Member.listed ms.properties
  methods := Member.listed ms.methods
  events := Member.listed ms.events

/-- The members that the class with the given full name declares. -/
def declaredBy (ms : Members) (full : String) : Members where
  cfgs := ms.cfgs.filter (·.owner.full == full)
  properties := ms.properties.filter (·.owner.full == full)
  methods := ms.methods.filter (·.owner.full == full)
  events := ms.events.filter (·.owner.full == full)

/-- The owner and the name of every member, kind after kind. -/
def labels (ms : Members) : List (String × String) :=
  ms.cfgs.map (fun m => (m.owner.full, m.name))
    ++ ms.properties.map (fun m => (m.owner.full, m.name))
    ++ ms.methods.map (fun m => (m.owner.full, m.name))
    ++ ms.events.map (fun m => (m.owner.full, m.name))

end Members

end ClassReference
