import ClassReference.Comment
import ClassReference.Description.Summary
import ClassReference.DocBlock
import ClassReference.Entity

/-!
# Classification of comments

A documentation comment documents a class, an event, config options, a method or a property. Which
of them is decided by its tags; a comment without a telling tag documents a method if the word for
functions follows it, and a property otherwise.

A class comment also sets the context of the file: the members after it belong to that class, unless
a member tag names another. Private and ignored members are left out. Private and ignored classes
are kept and marked, because they may still pass on members.
-/

namespace ClassReference

/-- The kinds of entities that a comment can document. -/
inductive EntityKind where
  | ofClass | event | cfg | method | property
deriving DecidableEq, Repr

/-- The name of a kind of entity. -/
def EntityKind.name : EntityKind → String
  | ofClass => "class"
  | event => "event"
  | cfg => "cfg"
  | method => "method"
  | property => "property"

/-- The place in a file where a comment stands. -/
structure Context where
  /-- The name of the file. -/
  fileName : String := ""
  /-- The class that members belong to. -/
  owner : ClassName := ClassName.empty
deriving DecidableEq, Repr

/-- What a comment documents. -/
structure Classification where
  /-- The kind of entity. -/
  kind : EntityKind
  /-- The entities to collect. -/
  entities : List Entity
  /-- The context of the next comment. -/
  context : Context
deriving DecidableEq, Repr

/-- How comments are classified. -/
structure Classifier where
  /-- How links and summaries are written. -/
  style : LinkStyle := {}
  /-- The word of code that introduces a function; none if no word does. -/
  functionWord : Option String := some "function"
deriving DecidableEq, Repr

/-- Whether the entity that the block documents is private or ignored. -/
def DocBlock.excluded (b : DocBlock) : Bool :=
  b.has .secret || b.has .ignored

namespace Classifier

variable (cl : Classifier)

/-- The kind of entity that a comment documents. -/
def kindOf (b : DocBlock) (c : Comment) : EntityKind :=
  if !b.declared.isEmpty then .ofClass
  else if !b.events.isEmpty then .event
  else if !b.cfgs.isEmpty then .cfg
  else if !b.params.isEmpty || !b.returns.isEmpty || !b.methods.isEmpty then .method
  else if !b.types.isEmpty || !b.properties.isEmpty then .property
  else if cl.functionWord = some c.first || cl.functionWord = some c.second then .method
  else .property

/-- The description of something that belongs to a class. -/
def describe (text : Option String) (owner : ClassName) : Logged Description :=
  Description.ofText cl.style text owner.full

/-- The description, always with a summary, of something that belongs to a class. -/
def describeShortly (text : Option String) (owner : ClassName) : Logged Description :=
  Description.ofText cl.style text owner.full true

/-- The name that the code after a comment gives to the documented thing: its first word, or its
second if the first introduces a function. -/
def codeName (c : Comment) : String :=
  if cl.functionWord = some c.first then c.second else c.first

/-- The parameters that a block documents. -/
def params (b : DocBlock) (owner : ClassName) : Logged (List Param) :=
  b.params.mapM fun item => do
    return { name := item.name, type := item.type, optional := item.optional,
             description := ← cl.describe item.description owner }

end Classifier

/-- The class that a documented member belongs to: the one that its member tag names, and otherwise
that of the context. -/
def DocBlock.owner (b : DocBlock) (ctx : Context) : ClassName :=
  match b.members.head? with
  | some (owner, _) => if owner = "" then ctx.owner else ClassName.ofFull owner
  | none => ctx.owner

/-- The member name that a member tag gives. -/
def DocBlock.memberName? (b : DocBlock) : Option String :=
  b.members.head?.bind (·.2)

/-- A text that is neither missing nor empty. -/
def nonEmpty? (s : Option String) : Option String :=
  s.filter (· != "")

namespace Classifier

variable (cl : Classifier)

/-- The entry of a class that a block declares. Its description stands after its name, or after the
name of its parent, or before the tags. -/
def classEntry (b : DocBlock) (title : Titled) (ctx : Context) : Logged ClassEntry := do
  let name := ClassName.ofFull title.name
  let parent := b.inherited.head?
  let text := title.description <|> parent.bind (·.description) <|> some b.description
  let description ← cl.describe text name
  let entry : ClassEntry := {
    name
    packageName := ClassName.packageOf title.name
    definedIn := ctx.fileName
    singleton := b.has .singleton
    description
    parentName := nonEmpty? (parent.map (·.name))
    excluded := b.excluded }
  match (b.flagged .constructor).head? with
  | none => return entry
  | some text => do
    let constructorDescription ← cl.describe (some text) name
    let params ← cl.params b name
    return { entry with hasConstructor := true, constructorDescription, params }

/-- A config option of the given owner. Its description stands in its tag or before the tags. -/
def cfg (b : DocBlock) (item : Item) (owner : ClassName) (hidden static : Bool) : Logged Cfg := do
  let description ← cl.describe (nonEmpty? item.description <|> some b.description) owner
  return { name := item.name, owner, description, hidden, static,
           detail := { type := item.type, optional := item.optional } }

/-- The event that a block documents. -/
def event (b : DocBlock) (title : Titled) (ctx : Context) : Logged Event := do
  let owner := b.owner ctx
  let description ←
    cl.describeShortly (nonEmpty? title.description <|> some b.description) owner
  let params ← cl.params b owner
  return { name := title.name, owner, description, hidden := b.has .hidden, static := b.has .static,
           detail := { params } }

/-- The method that a block documents. It is named by its method tag, by its member tag or by the
code. -/
def method (b : DocBlock) (c : Comment) (ctx : Context) : Logged Method := do
  let owner := b.owner ctx
  let tagName := nonEmpty? (b.methods.head?.bind id)
  let description ← cl.describeShortly (some b.description) owner
  let returned := b.returns.head?
  let returnDescription ← match returned with
    | some (_, text) => some <$> cl.describe text owner
    | none => pure none
  let params ← cl.params b owner
  return { name := (tagName <|> nonEmpty? b.memberName?).getD (cl.codeName c)
           owner, description, hidden := b.has .hidden, static := b.has .static
           detail := { params, returnType := returned.bind (·.1), returnDescription } }

/-- The property that a block documents. It is named by its property tag, by its member tag or by
the code. Its description stands before the tags or in its property tag. -/
def property (b : DocBlock) (c : Comment) (ctx : Context) : Logged Property := do
  let owner := b.owner ctx
  let tag := b.properties.head?
  let text := nonEmpty? (some b.description) <|> tag.bind (·.2)
  let description ← cl.describe text owner
  return { name := (nonEmpty? (tag.bind (·.1)) <|> nonEmpty? b.memberName?).getD (cl.codeName c)
           owner, description, hidden := b.has .hidden, static := b.has .static
           detail := { type := b.types.head?.bind id } }

/-- The members of a comment that documents no class, unless the comment is private or ignored. -/
def membersOrNone {α : Type} (b : DocBlock) (kind : EntityKind) (ctx : Context)
    (wrap : Member α → Entity) (members : List (Member α)) : Logged Classification := do
  if b.excluded then
    let names := String.intercalate ", " (members.map (·.name))
    Logged.tell .debug Log.classifying ("Skipping excluded " ++ kind.name ++ " " ++ names)
    return ⟨kind, [], ctx⟩
  else
    return ⟨kind, members.map wrap, ctx⟩

/-- The entities of a class comment: the class, and the config options that its comment lists. -/
def classComment (b : DocBlock) (title : Titled) (ctx : Context) : Logged Classification := do
  let entry ← cl.classEntry b title ctx
  let ctx := { ctx with owner := entry.name }
  let cfgs ← b.cfgs.mapM fun item => cl.cfg b item ctx.owner false false
  Logged.tell .debug Log.classifying ("Class " ++ entry.name.full ++ " in " ++ ctx.fileName)
  return ⟨.ofClass, .ofClass entry :: cfgs.map .cfg, ctx⟩

/-- The entities of a comment that documents no class. -/
def memberComment (b : DocBlock) (c : Comment) (ctx : Context) : Logged Classification := do
  match cl.kindOf b c, b.events.head? with
  | .event, some title => membersOrNone b .event ctx .event [← cl.event b title ctx]
  | .cfg, _ =>
    let cfgs ← b.cfgs.mapM fun item =>
      cl.cfg b item (b.owner ctx) (b.has .hidden) (b.has .static)
    membersOrNone b .cfg ctx .cfg cfgs
  | .method, _ => membersOrNone b .method ctx .method [← cl.method b c ctx]
  | _, _ => membersOrNone b .property ctx .property [← cl.property b c ctx]

/-- Classifies a comment that stands in the given context. -/
def classify (c : Comment) (ctx : Context) : Logged Classification :=
  let b := DocBlock.read c.body
  match b.declared.head? with
  | some title => cl.classComment b title ctx
  | none => cl.memberComment b c ctx

/-- Classifies the comments of a file in order. -/
def classifyAll : List Comment → Context → Logged (List Classification)
  | [], _ => return []
  | c :: cs, ctx => do
    let result ← cl.classify c ctx
    return result :: (← classifyAll cs result.context)

/-- The entities of a file. -/
def catalog (comments : List Comment) (fileName : String) : Logged Catalog := do
  let results ← cl.classifyAll comments { fileName }
  return Catalog.ofEntities (results.flatMap (·.entities))

end Classifier

end ClassReference
