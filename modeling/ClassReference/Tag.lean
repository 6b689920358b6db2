/-!
# Tags

A tag is a line of a documentation comment that starts with `@` and a name, together with the text
up to the next tag. Ten of them say what is documented, six are mere flags, and every other name is
kept as it is written. `ClassReference.Tag.Reading` reads a tag from its name and text.
-/

namespace ClassReference

/-- A name with what is said about it: what the class, parent and event tags hold. -/
structure Titled where
  /-- The name, empty if the tag gives none. -/
  name : String
  /-- What follows the name. -/
  description : Option String := none
deriving DecidableEq, Repr

/-- A name with a type and a description: what the config and parameter tags hold. -/
structure Item where
  /-- The name, without the marks that make it optional. -/
  name : String
  /-- The type between braces. -/
  type : Option String := none
  /-- What follows the name. -/
  description : Option String := none
  /-- Whether the item may be left out. -/
  optional : Bool := false
deriving DecidableEq, Repr

/-- The tags whose presence is what counts. -/
inductive Flag where
  /-- The member belongs to the class itself and is not inherited. -/
  | static
  /-- The thing is private. -/
  | secret
  /-- The thing is to be ignored. -/
  | ignored
  /-- The member is not shown. -/
  | hidden
  /-- The class has one instance. -/
  | singleton
  /-- The class has a documented constructor. -/
  | constructor
deriving DecidableEq, Repr

namespace Flag

/-- The name of a flag after the `@`. -/
def name : Flag → String
  | static => "static"
  | secret => "private"
  | ignored => "ignore"
  | hidden => "hide"
  | singleton => "singleton"
  | constructor => "constructor"

/-- All flags. -/
def all : List Flag := [static, secret, ignored, hidden, singleton, constructor]

/-- The flag with the given name. -/
def ofName? (name : String) : Option Flag :=
  all.find? (·.name == name)

end Flag

/-- A tag of a documentation comment. -/
inductive Tag where
  /-- `@class`: the comment documents this class. -/
  | declares (title : Titled)
  /-- `@extends`: the class has this parent. -/
  | inherits (title : Titled)
  /-- `@cfg`: a config option. -/
  | cfg (item : Item)
  /-- `@param`: a parameter. -/
  | param (item : Item)
  /-- `@property`: the comment documents a property. -/
  | property (name description : Option String)
  /-- `@method`: the comment documents a method. -/
  | method (name : Option String)
  /-- `@event`: the comment documents an event. -/
  | event (title : Titled)
  /-- `@return`: what the method returns. -/
  | returns (type description : Option String)
  /-- `@type`: the type of the property. -/
  | type (type : Option String)
  /-- `@member`: the class that the member belongs to, and maybe its name. -/
  | member (owner : String) (name : Option String)
  /-- One of the flags. -/
  | flag (flag : Flag) (text : String)
  /-- Any other tag. -/
  | unknown (name text : String)
deriving DecidableEq, Repr

/-- The shape of a tag, apart from what it holds. -/
inductive TagKind where
  | declares | inherits | cfg | param | property | method | event | returns | type | member | flag
  | unknown
deriving DecidableEq, Repr

namespace Tag

/-- The shape of a tag. -/
def kind : Tag → TagKind
  | declares .. => .declares
  | inherits .. => .inherits
  | cfg .. => .cfg
  | param .. => .param
  | property .. => .property
  | method .. => .method
  | event .. => .event
  | returns .. => .returns
  | type .. => .type
  | member .. => .member
  | flag .. => .flag
  | unknown .. => .unknown

/-- The name of a tag after the `@`. The return tag has two spellings and is known by the
shorter. -/
def name : Tag → String
  | declares .. => "class"
  | inherits .. => "extends"
  | cfg .. => "cfg"
  | param .. => "param"
  | property .. => "property"
  | method .. => "method"
  | event .. => "event"
  | returns .. => "return"
  | type .. => "type"
  | member .. => "member"
  | flag f _ => f.name
  | unknown name _ => name

end Tag

end ClassReference
