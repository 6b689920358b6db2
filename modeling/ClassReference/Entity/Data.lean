import ClassReference.Entity
import ClassReference.Value

/-!
# Entities as structured data

The shape in which entities are dumped: a mapping per entity, with a key for each of its fields.
-/

namespace ClassReference

/-- A description as data. -/
def Description.toValue (d : Description) : Value :=
  .map [("long", .str d.long), ("short", .ofOption d.short)]

/-- A description that may be missing as data. -/
def optionalDescription : Option Description → Value
  | some d => d.toValue
  | none => .null

/-- A parameter as data. -/
def Param.toValue (p : Param) : Value :=
  .map [("name", .str p.name), ("type", .ofOption p.type),
    ("description", p.description.toValue), ("optional", .bool p.optional)]

/-- Parameters as data. -/
def paramsValue (ps : List Param) : Value :=
  .list (ps.map Param.toValue)

/-- A class name as data. -/
def ClassName.toValue (n : ClassName) : Value :=
  .map [("class_name", .str n.full), ("short_class_name", .str n.short)]

/-- What is dumped for each kind of member, beyond what all members have. -/
class MemberDetail (α : Type) where
  /-- The entries for the detail. -/
  entries : α → List (String × Value)

instance : MemberDetail CfgDetail where
  entries d := [("type", .ofOption d.type), ("optional", .bool d.optional)]

instance : MemberDetail PropertyDetail where
  entries d := [("type", .ofOption d.type)]

instance : MemberDetail MethodDetail where
  entries d := [("params", paramsValue d.params), ("return_type", .ofOption d.returnType),
    ("return_description", optionalDescription d.returnDescription)]

instance : MemberDetail EventDetail where
  entries d := [("params", paramsValue d.params)]

/-- The entries of a member. -/
def Member.entries {α : Type} [MemberDetail α] (m : Member α) : List (String × Value) :=
  [("name", .str m.name), ("class_name", .str m.owner.full),
    ("short_class_name", .str m.owner.short), ("description", m.description.toValue),
    ("hide", .bool m.hidden), ("is_static", .bool m.static)] ++ MemberDetail.entries m.detail

/-- A member as data. -/
def Member.toValue {α : Type} [MemberDetail α] (m : Member α) : Value :=
  .map m.entries

/-- The entries of a class. -/
def ClassEntry.entries (e : ClassEntry) : List (String × Value) :=
  [("class_name", .str e.name.full), ("short_class_name", .str e.name.short),
    ("package_name", .str e.packageName), ("defined_in", .str e.definedIn),
    ("singleton", .bool e.singleton), ("description", e.description.toValue),
    ("parent_class_name", .ofOption e.parentName), ("has_constructor", .bool e.hasConstructor),
    ("constructor_description", optionalDescription e.constructorDescription),
    ("params", paramsValue e.params),
    ("cfgs", .list (e.members.cfgs.map Member.toValue)),
    ("properties", .list (e.members.properties.map Member.toValue)),
    ("methods", .list (e.members.methods.map Member.toValue)),
    ("events", .list (e.members.events.map Member.toValue)),
    ("sub_classes", .list (e.subClasses.map ClassName.toValue)),
    ("super_classes", .list (e.superClasses.map ClassName.toValue)),
    ("component", .bool e.component)]

/-- A class as data. -/
def ClassEntry.toValue (e : ClassEntry) : Value :=
  .map e.entries

end ClassReference
