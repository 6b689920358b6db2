import ClassReference.Description
import ClassReference.Text.Cut

/-!
# Documented entities

The things that a reference documents: classes and, for each class, its config options, properties,
methods and events. The four kinds of members share a name, an owner, a description and two flags,
and differ in a detail; whatever is said about members in general is said once, for every detail.

A class entry has two halves. What its comment says is fixed when the entry is made. Its place in
the hierarchy is filled in when the hierarchy is resolved, and says nothing before.
-/

namespace ClassReference

/-- The name of a class, with and without its package. -/
structure ClassName where
  /-- The full dotted name. -/
  full : String
  /-- The name without the package. -/
  short : String
deriving DecidableEq, Repr, Inhabited

namespace ClassName

/-- The package of a class with this full name: all before the last dot, empty if there is no
dot. -/
def packageOf (full : String) : String :=
  String.ofList (Text.cutLast '.' full.toList).1

/-- The name of a class with this full name without the package: all after the last dot. -/
def shortOf (full : String) : String :=
  String.ofList (Text.cutLast '.' full.toList).2

/-- The name of the class with this full name. -/
def ofFull (full : String) : ClassName :=
  ⟨full, shortOf full⟩

/-- The name of no class. -/
def empty : ClassName := ⟨"", ""⟩

end ClassName

/-- A parameter of a constructor, a method or an event. -/
structure Param where
  /-- The name. -/
  name : String
  /-- The type, if one is given. -/
  type : Option String := none
  /-- What is said about it. -/
  description : Description := {}
  /-- Whether it may be left out. -/
  optional : Bool := false
deriving DecidableEq, Repr

/-- A member of a class, with a detail that depends on the kind of member. -/
structure Member (α : Type) where
  /-- The name, which may be dotted. -/
  name : String
  /-- The class that declares the member. -/
  owner : ClassName := ClassName.empty
  /-- What is said about it. -/
  description : Description := {}
  /-- Whether it is kept out of the reference. -/
  hidden : Bool := false
  /-- Whether it belongs to the class itself and is not inherited. -/
  static : Bool := false
  /-- What only this kind of member has. -/
  detail : α
deriving DecidableEq, Repr

/-- The last dotted segment of a member's name, by which it overrides inherited members. -/
def Member.simpleName {α : Type} (m : Member α) : String :=
  String.ofList (Text.cutLast '.' m.name.toList).2

/-- What only config options have. -/
structure CfgDetail where
  /-- The type, if one is given. -/
  type : Option String := none
  /-- Whether it may be left out. -/
  optional : Bool := false
deriving DecidableEq, Repr

/-- What only properties have. -/
structure PropertyDetail where
  /-- The type, if one is given. -/
  type : Option String := none
deriving DecidableEq, Repr

/-- What only methods have. -/
structure MethodDetail where
  /-- The parameters in order. -/
  params : List Param := []
  /-- The type of what is returned, if it is given. -/
  returnType : Option String := none
  /-- What is said about what is returned. -/
  returnDescription : Option Description := none
deriving DecidableEq, Repr

/-- What only events have. -/
structure EventDetail where
  /-- What listeners are given, in order. -/
  params : List Param := []
deriving DecidableEq, Repr

/-- A config option. -/
abbrev Cfg := Member CfgDetail

/-- A property. -/
abbrev Property := Member PropertyDetail

/-- A method. -/
abbrev Method := Member MethodDetail

/-- An event. -/
abbrev Event := Member EventDetail

/-- The members of a class, kind by kind. -/
structure Members where
  /-- The config options. -/
  cfgs : List Cfg := []
  /-- The properties. -/
  properties : List Property := []
  /-- The methods. -/
  methods : List Method := []
  /-- The events. -/
  events : List Event := []
deriving DecidableEq, Repr

/-- A class as its comment declares it, and its place in the hierarchy. -/
structure ClassEntry where
  /-- The name. -/
  name : ClassName
  /-- The dotted package, empty for a class without one. -/
  packageName : String := ""
  /-- The file that declares the class. -/
  definedIn : String := ""
  /-- Whether there is only one instance. -/
  singleton : Bool := false
  /-- What is said about it. -/
  description : Description := {}
  /-- The full name of its parent, if it has one. -/
  parentName : Option String := none
  /-- Whether its constructor is documented. -/
  hasConstructor : Bool := false
  /-- What is said about its constructor. -/
  constructorDescription : Option Description := none
  /-- The parameters of its constructor. -/
  params : List Param := []
  /-- Whether the class is private or ignored. -/
  excluded : Bool := false
  /-- Its members, own and inherited. -/
  members : Members := {}
  /-- The classes whose parent it is. -/
  subClasses : List ClassName := []
  /-- Its ancestors, the root first and its parent last. -/
  superClasses : List ClassName := []
  /-- The position of its parent among the resolved classes. -/
  parentIndex : Option Nat := none
  /-- Whether the component class is an ancestor. -/
  component : Bool := false
deriving DecidableEq, Repr

/-- An entity of any kind. -/
inductive Entity where
  | ofClass (entry : ClassEntry)
  | cfg (member : Cfg)
  | property (member : Property)
  | method (member : Method)
  | event (member : Event)
deriving DecidableEq, Repr

/-- All entities collected so far, kind by kind, in the order of collection. -/
structure Catalog where
  /-- The class definitions; a name may occur more than once. -/
  classes : List ClassEntry := []
  /-- The members of all classes. -/
  members : Members := {}
deriving DecidableEq, Repr

namespace Members

/-- The members of both, kind by kind. -/
def append (a b : Members) : Members where
  cfgs := a.cfgs ++ b.cfgs
  properties := a.properties ++ b.properties
  methods := a.methods ++ b.methods
  events := a.events ++ b.events

instance : Append Members := ⟨append⟩

end Members

namespace Catalog

/-- Adds an entity behind those of its kind. -/
def add (c : Catalog) : Entity → Catalog
  | .ofClass e => { c with classes := c.classes ++ [e] }
  | .cfg m => { c with members.cfgs := c.members.cfgs ++ [m] }
  | .property m => { c with members.properties := c.members.properties ++ [m] }
  | .method m => { c with members.methods := c.members.methods ++ [m] }
  | .event m => { c with members.events := c.members.events ++ [m] }

/-- The catalogue of the given entities. -/
def ofEntities (entities : List Entity) : Catalog :=
  entities.foldl add {}

/-- The entities of both catalogues, kind by kind. -/
def append (a b : Catalog) : Catalog where
  classes := a.classes ++ b.classes
  members := a.members ++ b.members

instance : Append Catalog := ⟨append⟩

end Catalog

end ClassReference
