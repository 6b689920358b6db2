import ClassReference.Manifest
import ClassReference.SourceList

/-!
# Template sets

A template set is a directory of templates with a document that describes them: which template
renders class pages and which the tree page, where the pages go, and which directories are copied
along.
-/

namespace ClassReference

/-- A directory that is copied into the output. -/
structure Resource where
  /-- The directory, as seen from the template set. -/
  source : String
  /-- Where it goes, as seen from the output directory. -/
  target : String
deriving DecidableEq, Repr

/-- A template set. -/
structure TemplateSet where
  /-- The directory of the set. -/
  directory : Path
  /-- The template of class pages. -/
  classTemplate : String
  /-- The directory of class pages, as seen from the output directory. -/
  classDirectory : String
  /-- The template of the tree page. -/
  treeTemplate : String
  /-- The file of the tree page, as seen from the output directory. -/
  treeFile : String
  /-- The directories that are copied along. -/
  resources : List Resource
deriving DecidableEq, Repr

/-- Why a template set could not be loaded. -/
inductive TemplateSetError where
  /-- Its description could not be loaded. -/
  | manifest (e : ManifestError)
  /-- Its resources are a single value that lists nothing. -/
  | resources (e : SettingError)
deriving DecidableEq, Repr

namespace TemplateSet

/-- The name of the document that describes a template set. -/
def documentName : String := "template.yaml"

/-- A required value as text. -/
def requiredText (key : String) (entries : List (String × Value)) : Except ManifestFault String :=
  Value.text <$> Value.required key entries

/-- A resource of a template set. -/
def resourceOf : Value → Except ManifestFault Resource
  | .map entries => do
    return { source := ← requiredText "src" entries, target := ← requiredText "dst" entries }
  | _ => .error .resourceNoMapping

/-- The elements of the list of resources, which may be left out; `none` if it lists nothing. -/
def resourceItems (entries : List (String × Value)) : Option (List Value) :=
  let resources := (Value.lookup "resources" entries).getD .null
  if resources.truthy then resources.elements? else some []

/-- The class and tree sections of a description. -/
def sectionsOf (entries : List (String × Value)) :
    Except ManifestFault (List (String × Value) × List (String × Value)) := do
  let classes ← Value.required "class" entries
  let tree ← Value.required "tree" entries
  match classes, tree with
  | .map classes, .map tree => return (classes, tree)
  | _, _ => .error .sectionsNoMappings

/-- The template set in a directory that two sections and the resources describe. -/
def ofSections (directory : Path) (classes tree : List (String × Value))
    (resources : List Resource) :
    Except ManifestFault TemplateSet := do
  return {
    directory
    classTemplate := ← requiredText "template" classes
    classDirectory := ((Value.lookup "target_dir" classes).getD (.str ".")).text
    treeTemplate := ← requiredText "template" tree
    treeFile := ← requiredText "target_file" tree
    resources }

/-- The template set in a directory that the entries of a document describe. -/
def ofEntries (directory : Path) (entries : List (String × Value)) :
    Except ManifestFault (Except SettingError TemplateSet) := do
  let (classes, tree) ← sectionsOf entries
  match resourceItems entries with
  | none => return .error ⟨"resources"⟩
  | some items =>
    return .ok (← ofSections directory classes tree (← items.mapM resourceOf))

/-- Loads the template set in a directory. -/
def load (files : FileTree) (directory : Path) : Except TemplateSetError TemplateSet :=
  let p := directory / Path.ofString documentName
  match files.loadWith p (ofEntries directory) with
  | .error e => .error (.manifest e)
  | .ok (.error e) => .error (.resources e)
  | .ok (.ok set) => .ok set

end TemplateSet

end ClassReference
