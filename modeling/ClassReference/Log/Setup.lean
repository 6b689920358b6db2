import ClassReference.Value
import ClassReference.World

/-!
# Setting up logging

Logging is set up with a level, a format and a file, each given as a setting. Handlers of an earlier
set-up are dropped first; a setting that cannot be used ends the set-up where it is met.
-/

namespace ClassReference.Log

/-- Why logging could not be set up. -/
inductive SetupError where
  /-- The level is no text. -/
  | levelNoText
  /-- The level is the name of a text that names no level. -/
  | levelOfText
  /-- The level is the name of something that is neither a level nor a text. -/
  | levelOfTable
  /-- The format is no text. -/
  | formatNoText
  /-- The format has no directive. -/
  | formatNoField
  /-- The file is no text. -/
  | fileNoText
  /-- The file cannot be opened. -/
  | file (e : FileError)
deriving DecidableEq, Repr

/-- What is said about logging that could not be set up. -/
def SetupError.message : SetupError → String
  | levelNoText => "a log level is given by its name"
  | levelOfText => "a log level is given by its own name"
  | levelOfTable => "a log level is a number"
  | formatNoText => "a log format is a text"
  | formatNoField => "a log format has a field"
  | fileNoText => "a log file is given by its path"
  | file e => e.message

/-- A letter in upper case, for letters that occur in the names of levels. Some letters stand for
two. -/
def upperChar (c : Char) : List Char :=
  if c.toNat = 0x131 then ['I']
  else if c.toNat = 0x17F then ['S']
  else if c.toNat = 0xFB05 || c.toNat = 0xFB06 then ['S', 'T']
  else [c.toUpper]

/-- The number of the level with the given name in any case; that of progress if there is none. Two
names are taken: one by a format, one by the table of format styles. -/
def thresholdOf (name : String) : Except SetupError Nat :=
  match String.ofList (name.toList.flatMap upperChar) with
  | "NOTSET" => .ok 0
  | "DEBUG" => .ok Level.debug.rank
  | "WARNING" => .ok Level.warning.rank
  | "WARN" => .ok Level.warning.rank
  | "ERROR" => .ok Level.error.rank
  | "CRITICAL" => .ok Level.critical.rank
  | "FATAL" => .ok Level.critical.rank
  | "BASIC_FORMAT" => .error .levelOfText
  | "_STYLES" => .error .levelOfTable
  | _ => .ok Level.info.rank

/-- The format that a setting stands for. -/
def formatOf (setting : Value) : Except SetupError Format :=
  if setting.truthy then
    match setting with
    | .str s =>
      match Format.ofString? s with
      | some f => .ok f
      | none => .error .formatNoField
    | _ => .error .formatNoText
  else
    .ok .bare

/-- The location that a path names by itself, whatever is there: double dots take back the name
before them. -/
def locationOf (files : FileTree) (p : Path) : Location :=
  p.parts.foldl (fun l n => if n = ".." then l.dropLast else l ++ [n]) (files.start p.anchor)

/-- Opens a log file, which is made if it is not there. -/
def openFile (files : FileTree) (name : String) : Except SetupError (Location × FileTree) :=
  let l := locationOf files (Path.ofString name)
  let p : Path := { anchor := .root, parts := l }
  match files.lookup p with
  | .ok (.file _) => .ok (l, files)
  | _ =>
    match files.write p (.text "") with
    | .ok files => .ok (l, files)
    | .error e => .error (.file e)

/-- Adds a handler. -/
def addHandler (h : Handler) : Run SetupError Unit :=
  modify fun w => { w with logging := { w.logging with handlers := w.logging.handlers ++ [h] } }

/-- Sets up logging. -/
def setUp (level format file : Value) : Run SetupError Unit := do
  modify fun w => { w with logging := { w.logging with handlers := [] } }
  match level with
  | .str name =>
    let threshold ← Run.result id (thresholdOf name)
    modify fun w => { w with logging := { w.logging with threshold } }
    let format ← Run.result id (formatOf format)
    addHandler ⟨.console, format⟩
    if file.truthy then
      match file with
      | .str path =>
        let (l, files) ← Run.result id (openFile (← Run.files) path)
        modify fun w => { w with files }
        addHandler ⟨.file l, format⟩
      | _ => throw .fileNoText
    Run.tell .debug root ("Logging initialized at level " ++ name)
  | _ => throw .levelNoText

end ClassReference.Log
