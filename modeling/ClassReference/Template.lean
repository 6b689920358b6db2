import ClassReference.Page.ClassPage
import ClassReference.Page.TreePage
import ClassReference.Template.BuiltinSet
import ClassReference.TemplateSet

/-!
# Templates

A template is one of the built-in ones, under whatever name, or a plain text, which is a page as it
stands. A template set may use the built-in templates of class pages, of the tree page and of their
shared parts; a template that is used for the wrong page lacks what it refers to. The notation of
templates is out of scope: what any other text with the marks of one is rendered to is not known.
-/

namespace ClassReference

/-- What a template renders. -/
inductive Template where
  /-- The page of a class. -/
  | classPage
  /-- The tree page. -/
  | treePage
  /-- Parts for class pages. -/
  | parts
  /-- Always the same page. -/
  | plain (page : String)
  /-- What the notation of templates makes of the text. -/
  | unknown
deriving DecidableEq, Repr

/-- Why a template could not be rendered. -/
inductive TemplateError where
  /-- The set in a directory has no template with the name. -/
  | notFound (name : String) (directory : Path)
  /-- The name leads out of the set. -/
  | outside (name : String)
  /-- The template refers to something that is not there. -/
  | undefined
  /-- The template is no text. -/
  | noText
  /-- The template takes its parts from itself. -/
  | endless
  /-- The template is neither a built-in one nor a plain text. -/
  | unknown
deriving DecidableEq, Repr

/-- What is said about a template that could not be rendered. -/
def TemplateError.message : TemplateError → String
  | notFound name directory =>
    Text.quoted name ++ " not found in search path: " ++ Text.quoted directory.toString
  | outside name => name
  | undefined => "the template refers to something that is not there"
  | noText => "the template cannot be decoded"
  | endless => "the template takes its parts from itself"
  | unknown => "the template is neither a built-in one nor a plain text"

/-- Why a class page could not be rendered. -/
inductive PageError where
  /-- The class points to a parent that is not listed. -/
  | stale (e : StaleParent)
  /-- The template could not be rendered. -/
  | template (e : TemplateError)
deriving DecidableEq, Repr

namespace Template

/-- The text without one line feed at its end. -/
def withoutLastBreak (s : String) : String :=
  let cs := s.toList
  if cs.getLast? = some '\n' then String.ofList cs.dropLast else s

/-- Whether a text has a mark that opens an expression, a statement or a remark of a template. -/
def hasMarks : List Char → Bool
  | [] => false
  | c :: rest => c = '{' && rest.head?.any ['{', '%', '#'].contains || hasMarks rest

/-- The template that a text is. -/
def ofText (s : String) : Template :=
  if s = BuiltinSet.classTemplate then .classPage
  else if s = BuiltinSet.treeTemplate then .treePage
  else if s = BuiltinSet.parts then .parts
  else if hasMarks s.toList then .unknown
  else .plain (withoutLastBreak s)

end Template

/-- A template set in use. -/
structure Renderer where
  /-- The set. -/
  set : TemplateSet
  /-- The extension of class pages. -/
  extension : String
deriving DecidableEq, Repr

namespace Renderer

variable (r : Renderer) (files : FileTree)

/-- Takes a template set into use. -/
def start : Logged Unit := do
  let directory := r.set.directory.toString
  if !files.exist r.set.directory then
    Logged.tell .warning Log.rendering ("Templates directory not found: " ++ directory)
  Logged.tell .debug Log.rendering ("Template manager initialized with: " ++ directory)

/-- The names of all files of the set, in order. -/
def templateNames : List String :=
  let names := (files.belowPath r.set.directory).filterMap fun
    | (l, .file _) => some (Path.written l)
    | (_, .directory) => none
  names.mergeSort fun a b => decide (a ≤ b)

/-- The names that lead from the set to a template; `none` if they lead out of it. -/
def namesTo? (name : String) : Option (List String) :=
  let names := (Text.segments '/' name.toList).map String.ofList
  if names.contains ".." then none else some (names.filter fun n => n != "" && n != ".")

/-- The template with the given name. -/
def find (name : String) : Except TemplateError Template :=
  match namesTo? name with
  | none => .error (.outside name)
  | some names =>
    let p := { r.set.directory with parts := r.set.directory.parts ++ names }
    match files.lookup p with
    | .ok (.file content) =>
      match content.text? with
      | some s => .ok (Template.ofText s)
      | none => .error .noText
    | _ => .error (.notFound name r.set.directory)

/-- Whether the shared parts of class pages are there. In their place a class page would look for
them again, and a tree page would miss its packages. -/
def findParts : Except TemplateError Bool := do
  match ← r.find files BuiltinSet.partsName with
  | .parts => return true
  | .plain _ => return false
  | .classPage => .error .endless
  | .treePage => .error .undefined
  | .unknown => .error .unknown

/-- Whether the page of a class is made with the shared parts. -/
def needsParts (e : ClassEntry) : Bool :=
  e.hasConstructor || !e.members.cfgs.isEmpty || !e.members.properties.isEmpty
    || !e.members.methods.isEmpty || !e.members.events.isEmpty

/-- The page that a file of shared parts makes by itself: the blank lines between its parts. -/
def partsPage : String := "\n\n"

/-- The page of a class with the given listed parent. -/
def classText (model : Model) (parent : Option ClassEntry) (e : ClassEntry) :
    Except TemplateError String := do
  match ← r.find files r.set.classTemplate with
  | .plain page => return page
  | .parts => return partsPage
  | .treePage => .error .undefined
  | .unknown => .error .unknown
  | .classPage =>
    if !(← r.findParts files) && needsParts e then
      .error .undefined
    else
      return ClassPage.render r.extension model parent e

/-- The tree page. -/
def treeText (model : Model) : Except TemplateError String := do
  match ← r.find files r.set.treeTemplate with
  | .plain page => return page
  | .parts => return partsPage
  | .treePage =>
    return TreePage.render { directory := r.set.classDirectory, extension := r.extension } model
  | .classPage =>
    discard (r.findParts files)
    .error .undefined
  | .unknown => .error .unknown

/-- Reports a rendered page. -/
def report (name page : String) : Logged Unit :=
  Logged.tell .debug Log.rendering
    ("Rendered template " ++ name ++ " (" ++ toString page.length ++ " chars)")

/-- Renders the page of a class. -/
def renderClass (model : Model) (e : ClassEntry) : Logged (Except PageError String) := do
  match model.parent e with
  | .error stale => return .error (.stale stale)
  | .ok parent =>
    match r.classText files model parent e with
    | .error e => return .error (.template e)
    | .ok page =>
      report r.set.classTemplate page
      return .ok page

/-- Renders the tree page. -/
def renderTree (model : Model) : Logged (Except TemplateError String) := do
  match r.treeText files model with
  | .error e => return .error e
  | .ok page =>
    report r.set.treeTemplate page
    return .ok page

end Renderer

end ClassReference
