import ClassReference.Config

/-!
# Lists of source files

Sources are given as files and directories. A directory stands for what is below it and has one of
the configured endings, without what has an excluded name on the way to it.
-/

namespace ClassReference

namespace Value

/-- The elements of a setting that lists several values: those of a list, the characters of a text,
or the keys of a mapping. -/
def elements? : Value → Option (List Value)
  | list items => some items
  | str s => some (s.toList.map fun c => str (String.singleton c))
  | map entries => some (entries.map fun e => str e.1)
  | _ => none

/-- Whether a value is a single one, neither a list nor a mapping. -/
def isScalar : Value → Bool
  | list _ => false
  | map _ => false
  | _ => true

end Value

namespace Config

/-- The names of files and directories that are left out. -/
def excludedNames (c : Config) : Except SettingError (List String) :=
  match c.scanner.excluded.elements? with
  | none => .error ⟨"exclude_patterns"⟩
  | some items =>
    if items.all Value.isScalar then .ok (items.filterMap Value.text?)
    else .error ⟨"exclude_patterns"⟩

/-- How the names of source files end. -/
def endings (c : Config) : Except SettingError (List String) :=
  match c.scanner.extensions.elements? with
  | none => .error ⟨"extensions"⟩
  | some items => .ok (items.map Value.text)

end Config

/-- Why sources could not be listed. -/
inductive SourceListError where
  /-- A setting cannot be used. -/
  | setting (e : SettingError)
  /-- A path cannot be asked for. -/
  | file (e : FileError)
deriving DecidableEq, Repr

/-- What is said about sources that could not be listed. -/
def SourceListError.message : SourceListError → String
  | setting e => e.message
  | file e => e.message

namespace SourceList

/-- What was asked about a path. -/
def asked {α : Type} (p : Path) : Except FileCause α → Except SourceListError α
  | .ok a => .ok a
  | .error cause => .error (.file ⟨cause, p⟩)

/-- A setting that is used. -/
def used {α : Type} : Except SettingError α → Except SourceListError α
  | .ok a => .ok a
  | .error e => .error (.setting e)

/-- Whether no name of a path is excluded. -/
def included (excluded : List String) (p : Path) : Bool :=
  p.allParts.all fun n => !excluded.contains n

/-- The source files below a directory, ending by ending. -/
def inDirectory (files : FileTree) (excluded endings : List String) (p : Path) :
    Except FileCause (List Path) := do
  let found ← endings.mapM (files.search p)
  return found.flatten.filter (included excluded)

/-- The source files that a path stands for. A file that is named is taken as it is. -/
def ofPath (config : Config) (files : FileTree) (excluded : List String) (p : Path) :
    Except SourceListError (List Path) := do
  match ← asked p (files.find? p) with
  | some (.file _) => return [p]
  | _ => asked p (inDirectory files excluded (← used config.endings) p)

/-- The source files that paths stand for, in the order of the paths. -/
def ofPaths (config : Config) (files : FileTree) (paths : List String) :
    Except SourceListError (List Path) := do
  let excluded ← used config.excludedNames
  return (← paths.mapM fun p => ofPath config files excluded (Path.ofString p)).flatten

end SourceList

end ClassReference
