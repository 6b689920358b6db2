import ClassReference.Document
import ClassReference.Log

/-!
# Manifests

A manifest is a document that lists source files, as seen from its own directory. A document that is
no manifest is reported with its path and what is wrong with it. A file that cannot be read as text
is no document, and is not reported as a faulty one.
-/

namespace ClassReference

/-- What is wrong with a manifest or a description of a template set. -/
inductive ManifestFault where
  /-- There is no such file. -/
  | noFile
  /-- The file holds no structured data. -/
  | invalid (f : DocumentFault)
  /-- The document is no mapping. -/
  | noMapping
  /-- A required key has no value. -/
  | missing (key : String)
  /-- The sources are no mapping. -/
  | sourceNoMapping
  /-- The files are no list of paths. -/
  | filesNoPaths
  /-- The class or tree section is no mapping. -/
  | sectionsNoMappings
  /-- A resource is no mapping. -/
  | resourceNoMapping
deriving DecidableEq, Repr

/-- What is said about a faulty document at a path. -/
def ManifestFault.message (p : Path) : ManifestFault → String
  | noFile => "File not found: " ++ p.toString
  | invalid f => "Invalid YAML in " ++ p.toString ++ ": " ++ f.reason
  | noMapping => "Expected a mapping at the top of " ++ p.toString
  | missing key => "Missing '" ++ key ++ "' in " ++ p.toString
  | sourceNoMapping => "'source' must be a mapping in " ++ p.toString
  | filesNoPaths => "'source.files' must be a list of paths in " ++ p.toString
  | sectionsNoMappings => "'class' and 'tree' must be mappings in " ++ p.toString
  | resourceNoMapping => "Resource entries must be mappings in " ++ p.toString

/-- Why a manifest or a description of a template set could not be loaded. -/
inductive ManifestError where
  /-- The document at a path is faulty. -/
  | faulty (fault : ManifestFault) (path : Path)
  /-- The file could not be read as text. -/
  | unread (f : DocumentFault)
deriving DecidableEq, Repr

/-- What is said about a document that could not be loaded. -/
def ManifestError.message : ManifestError → String
  | faulty fault path => fault.message path
  | unread f => f.reason

/-- The document at a path. -/
def FileTree.loadDocument (files : FileTree) (p : Path) : Except ManifestError Value :=
  match files.find? p with
  | .error cause => .error (.unread (.file cause))
  | .ok (some (.file content)) =>
    match content.toValue with
    | .ok v => .ok v
    | .error .noText => .error (.unread .noText)
    | .error f => .error (.faulty (.invalid f) p)
  | .ok _ => .error (.faulty .noFile p)

/-- The entries of a document. -/
def Value.mapping : Value → Except ManifestFault (List (String × Value))
  | .map entries => .ok entries
  | _ => .error .noMapping

/-- What a document at a path is read as. -/
def FileTree.loadWith {α : Type} (files : FileTree) (p : Path)
    (read : List (String × Value) → Except ManifestFault α) : Except ManifestError α := do
  match (← files.loadDocument p).mapping >>= read with
  | .ok a => return a
  | .error fault => .error (.faulty fault p)

/-- The value of a key that must have one. -/
def Value.required (key : String) (entries : List (String × Value)) : Except ManifestFault Value :=
  match Value.lookup key entries with
  | none => .error (.missing key)
  | some v => if v.isMissing then .error (.missing key) else .ok v

namespace Manifest

/-- The texts of a list of texts. -/
def texts? : Value → Option (List String)
  | .list items => items.mapM fun
    | .str s => some s
    | _ => none
  | _ => none

/-- The files that a manifest lists, as it names them. -/
def filesOf (entries : List (String × Value)) : Except ManifestFault (List String) := do
  match ← Value.required "source" entries with
  | .map source =>
    match texts? (← Value.required "files" source) with
    | some files => return files
    | none => .error .filesNoPaths
  | _ => .error .sourceNoMapping

/-- The files that the manifest at a path lists, as seen from the working directory. -/
def read (files : FileTree) (p : Path) : Except ManifestError (List Path) := do
  return (← files.loadWith p filesOf).map fun n => p.parent / Path.ofString n

/-- Loads a manifest. -/
def load (files : FileTree) (p : Path) : Logged (Except ManifestError (List Path)) := do
  match read files p with
  | .error e => return .error e
  | .ok paths =>
    Logged.tell .info Log.listing
      ("Loaded manifest " ++ p.toString ++ " (" ++ toString paths.length ++ " files)")
    return .ok paths

end Manifest

end ClassReference
