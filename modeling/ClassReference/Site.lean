import ClassReference.Template
import ClassReference.World

/-!
# Sites

A site is a reference as files: the resources of the template set, a page for each class, and the
tree page.
-/

namespace ClassReference

/-- Why a site could not be written. -/
inductive SiteError where
  /-- A file operation failed. -/
  | file (e : FileError)
  /-- A directory of resources is missing. -/
  | noResource (directory : Path)
  /-- A page could not be rendered. -/
  | page (e : PageError)
deriving DecidableEq, Repr

/-- What is said about a class page that could not be rendered. -/
def PageError.message : PageError → String
  | stale _ => "a class points to a parent that is not listed"
  | template e => e.message

/-- What is said about a site that could not be written. -/
def SiteError.message : SiteError → String
  | file e => e.message
  | noResource directory => "Resource directory not found: " ++ directory.toString
  | page e => e.message

/-- Where a site is written, and with which templates. -/
structure Site where
  /-- The output directory. -/
  directory : Path
  /-- The template set. -/
  renderer : Renderer
deriving DecidableEq, Repr

namespace Site

variable (s : Site)

/-- The directory of class pages. -/
def classDirectory : Path :=
  s.directory / Path.ofString s.renderer.set.classDirectory

/-- The file of a class page. -/
def pagePath (className : String) : Path :=
  s.classDirectory / Path.ofString (pageName s.renderer.extension className)

/-- The file of the tree page. -/
def treePath : Path :=
  s.directory / Path.ofString s.renderer.set.treeFile

/-- Makes a directory and those on the way to it, unless they are there already. -/
def ensure (p : Path) : Run SiteError Unit :=
  Run.adapt .file (Run.change (·.ensureDirectories p))

/-- Writes a text file. -/
def writeText (p : Path) (text : String) : Run SiteError Unit :=
  Run.adapt .file (Run.change (·.writeOver p (.text text)))

/-- Copies a directory of resources, and reports where it went. -/
def copyResource (resource : Resource) : Run SiteError Path := do
  let source := s.renderer.set.directory / Path.ofString resource.source
  let target := s.directory / Path.ofString resource.target
  match (← Run.files).find? source with
  | .error cause => throw (.file ⟨cause, source⟩)
  | .ok (some .directory) =>
    Run.adapt .file (Run.change (·.copyTree source target))
    Run.tell .debug Log.writing
      ("Copied resources " ++ source.toString ++ " -> " ++ target.toString)
    return target
  | .ok _ => throw (.noResource source)

/-- Copies the resources, and reports where they went. -/
def copyResources : Run SiteError (List Path) :=
  s.renderer.set.resources.mapM s.copyResource

/-- Writes the page of a class. -/
def writePage (model : Model) (e : ClassEntry) : Run SiteError Unit := do
  Run.tell .info Log.writing ("Saving: " ++ e.name.full)
  let rendered ← Run.logged (s.renderer.renderClass (← Run.files) model e)
  writeText (s.pagePath e.name.full) (← Run.result .page rendered)

/-- Writes the tree page. -/
def writeTree (model : Model) : Run SiteError Unit := do
  ensure s.treePath.parent
  let rendered ← Run.logged (s.renderer.renderTree (← Run.files) model)
  writeText s.treePath (← Run.result (.page ∘ .template) rendered)

/-- Writes the site of a model: resources, class pages in order, and last the tree page. -/
def write (model : Model) : Run SiteError Unit := do
  ensure s.directory
  ensure s.classDirectory
  discard s.copyResources
  model.classes.forM (s.writePage model)
  s.writeTree model
  Run.tell .info Log.writing
    ("Wrote documentation to " ++ s.directory.toString ++ " (" ++ toString model.classes.length
      ++ " classes)")

end Site

/-- Writes the JSON dump of a model into a file. -/
def Model.writeJson (m : Model) (p : Path) (spell : String → List CodePoint := Text.codes) :
    Run SiteError Unit := do
  Site.ensure p.parent
  Site.writeText p (m.toJson spell)
  Run.tell .info Log.writing ("Wrote model JSON: " ++ p.toString)

end ClassReference
