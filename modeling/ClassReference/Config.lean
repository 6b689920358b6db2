import ClassReference.Document
import ClassReference.Log
import ClassReference.Session

/-!
# Configuration

A configuration has five sections. Its values are kept as they were read, of whatever kind they are;
a value of the wrong kind matters only to the part of the program that uses it. What a document
leaves out has its default.
-/

namespace ClassReference

/-- How sources are found and read. -/
structure ScannerSettings where
  /-- The encoding of source files. -/
  encoding : Value := .str "utf-8"
  /-- How the names of source files end. -/
  extensions : Value := .list [.str ".js"]
  /-- Names of files and directories that are left out. -/
  excluded : Value := .list []
  /-- The word of code that introduces a function. -/
  functionWord : Value := .str "function"
deriving BEq, Repr

/-- How the class hierarchy is resolved. -/
structure HierarchySettings where
  /-- The class whose descendants are components. -/
  componentClass : Value := .str "Ext.Component"
  /-- Whether members of excluded classes are inherited. -/
  inheritFromExcluded : Value := .bool false
deriving BEq, Repr

/-- How links and summaries are written. -/
structure LinkSettings where
  /-- The length at which summaries are cut. -/
  limit : Value := .int 117
  /-- What ends a summary that was cut. -/
  ellipsis : Value := .str "..."
  /-- The extension of class pages. -/
  pageExtension : Value := .str "html"
deriving BEq, Repr

/-- Where the reference goes and what it is made with. -/
structure OutputSettings where
  /-- The directory to write to. -/
  directory : Value := .str "docs/api"
  /-- The directory of the template set. -/
  templates : Value := .null
deriving BEq, Repr

/-- What is logged, and how. -/
structure LogSettings where
  /-- The name of the least level that is logged. -/
  level : Value := .str "INFO"
  /-- How a record is written. -/
  format : Value := .str "%(asctime)s - %(name)s - %(levelname)s - %(message)s"
  /-- A file to log to. -/
  file : Value := .null
deriving BEq, Repr

/-- A configuration. -/
structure Config where
  /-- How sources are found and read. -/
  scanner : ScannerSettings := {}
  /-- How the class hierarchy is resolved. -/
  hierarchy : HierarchySettings := {}
  /-- How links and summaries are written. -/
  links : LinkSettings := {}
  /-- Where the reference goes and what it is made with. -/
  output : OutputSettings := {}
  /-- What is logged, and how. -/
  logging : LogSettings := {}
deriving BEq, Repr

/-- Why a configuration could not be loaded. -/
inductive ConfigError where
  /-- The document or one of its sections is no mapping. -/
  | noMapping
  /-- The file could not be read. -/
  | fault (f : DocumentFault)
deriving DecidableEq, Repr

/-- What is said about a configuration that could not be loaded. -/
def ConfigError.message : ConfigError → String
  | noMapping => "a configuration and its sections are mappings"
  | fault f => f.reason

/-- A setting has a value of a kind that cannot be used. -/
structure SettingError where
  /-- The key of the setting. -/
  key : String
deriving DecidableEq, Repr

/-- What is said about a setting that cannot be used. -/
def SettingError.message (e : SettingError) : String :=
  "the value of '" ++ e.key ++ "' cannot be used"

/-! ## The settings in use -/

namespace LinkSettings

/-- The length at which summaries are cut, if it is a whole number. Other numbers are out of scope
here, and count as settings that cannot be used. -/
def limit? (l : LinkSettings) : Option Int :=
  match l.limit with
  | .int n => some n
  | .bool b => some (if b then 1 else 0)
  | _ => none

/-- What ends a summary that was cut, if it is a text. -/
def ellipsis? (l : LinkSettings) : Option String :=
  l.ellipsis.text?

/-- The keys of the settings that cannot be used. -/
def unusable (l : LinkSettings) : List String :=
  (if l.limit?.isNone then [LinkStyle.limitKey] else [])
    ++ (if l.ellipsis?.isNone then [LinkStyle.ellipsisKey] else [])

/-- How links and summaries are written, with something in place of what cannot be used. -/
def style (l : LinkSettings) : LinkStyle where
  pageExtension := l.pageExtension.text
  limit := l.limit?.getD 0
  ellipsis := l.ellipsis?.getD ""

end LinkSettings

/-- How the class hierarchy is resolved. A component class that is no text is met by no class. -/
def HierarchySettings.rules (h : HierarchySettings) : Hierarchy.Rules where
  componentClass := h.componentClass.text?
  inheritFromExcluded := h.inheritFromExcluded.truthy

namespace Config

/-! ## Reading -/

/-- The entries of a section, none if the document leaves it out. -/
def sectionOf (document : List (String × Value)) (key : String) :
    Except ConfigError (List (String × Value)) :=
  match Value.lookup key document with
  | none => .ok []
  | some (.map entries) => .ok entries
  | some _ => .error .noMapping

/-- The value of a key, or its default. -/
def setting (entries : List (String × Value)) (key : String) (default : Value) : Value :=
  (Value.lookup key entries).getD default

/-- The configuration that a document lays over the given one. -/
def override (base : Config) (document : List (String × Value)) : Except ConfigError Config := do
  let hierarchy ← sectionOf document "hierarchy"
  let links ← sectionOf document "links"
  let output ← sectionOf document "output"
  let logging ← sectionOf document "logging"
  let scanner ← sectionOf document "scanner"
  return {
    scanner := {
      encoding := setting scanner "encoding" base.scanner.encoding
      extensions := setting scanner "extensions" base.scanner.extensions
      excluded := setting scanner "exclude_patterns" base.scanner.excluded
      functionWord := setting scanner "function_keyword" base.scanner.functionWord }
    hierarchy := {
      componentClass := setting hierarchy "component_class" base.hierarchy.componentClass
      inheritFromExcluded :=
        setting hierarchy "inherit_from_excluded" base.hierarchy.inheritFromExcluded }
    links := {
      limit := setting links "short_description_length" base.links.limit
      ellipsis := setting links "ellipsis" base.links.ellipsis
      pageExtension := setting links "page_extension" base.links.pageExtension }
    output := {
      directory := setting output "output_dir" base.output.directory
      templates := setting output "template_dir" base.output.templates }
    logging := {
      level := setting logging "level" base.logging.level
      format := setting logging "format" base.logging.format
      file := setting logging "file" base.logging.file } }

/-- The configuration that a document stands for. A document that holds nothing stands for the
defaults. -/
def ofValue (document : Value) : Except ConfigError Config :=
  if document.truthy then
    match document with
    | .map entries => override {} entries
    | _ => .error .noMapping
  else
    .ok {}

/-- The configuration that is used if no other is named. It leaves out two directories that hold no
sources of the project. -/
def builtin : Config :=
  { scanner := { excluded := .list [.str "node_modules", .str ".git"] } }

/-- Loads the configuration in the named file, the built-in one if none is named, and the defaults
if the file is missing. -/
def load (files : FileTree) (name : Option String) : Logged (Except ConfigError Config) := do
  match name.filter (· != "") with
  | none => return .ok builtin
  | some name =>
    let p := Path.ofString name
    match files.find? p with
    | .error cause => return .error (.fault (.file cause))
    | .ok none =>
      Logged.tell .warning Log.configuring
        ("Config file not found at " ++ p.toString ++ ", using defaults")
      return .ok {}
    | .ok (some _) =>
      match files.readDocument p with
      | .error f => return .error (.fault f)
      | .ok document =>
        Logged.tell .info Log.configuring ("Loaded configuration from " ++ p.toString)
        return ofValue document

/-- A configuration as data. -/
def toValue (c : Config) : Value :=
  .map [
    ("scanner", .map [("encoding", c.scanner.encoding), ("extensions", c.scanner.extensions),
      ("exclude_patterns", c.scanner.excluded), ("function_keyword", c.scanner.functionWord)]),
    ("hierarchy", .map [("component_class", c.hierarchy.componentClass),
      ("inherit_from_excluded", c.hierarchy.inheritFromExcluded)]),
    ("links", .map [("short_description_length", c.links.limit), ("ellipsis", c.links.ellipsis),
      ("page_extension", c.links.pageExtension)]),
    ("output", .map [("output_dir", c.output.directory), ("template_dir", c.output.templates)]),
    ("logging", .map [("level", c.logging.level), ("format", c.logging.format),
      ("file", c.logging.file)])]

/-! ## Use -/

/-- The extension of class pages. -/
def pageExtension (c : Config) : String :=
  c.links.style.pageExtension

/-- The keys of the settings for summaries that cannot be used. -/
def unusable (c : Config) : List String :=
  c.links.unusable

/-- A session that works as configured. Of what relies on an unusable setting nothing is kept,
whatever stands in its place. -/
def session (c : Config) : Session where
  classifier := { style := c.links.style, functionWord := c.scanner.functionWord.text? }
  rules := c.hierarchy.rules

end Config

end ClassReference
