import ClassReference.Path
import ClassReference.Value

/-!
# File trees

The files and directories that the program sees, as a value: reading looks something up in the tree,
and writing makes another tree. A location is the list of names from the root; a path leads to a
location by following its names one by one through directories that exist, where double dots go up.

Names and paths have a greatest size, and no path has a null character in it. Making several
directories or copying a tree may fail on the way: the tree after it holds what was made before.
-/

namespace ClassReference

/-- What a file holds. -/
inductive Content where
  /-- Text in UTF-8. -/
  | text (s : String)
  /-- Any bytes. -/
  | bytes (data : List UInt8)
  /-- Structured data, with the text that it was read from. -/
  | document (value : Value) (source : String)
  /-- Text that cannot be read as structured data. -/
  | malformed (source : String)
deriving BEq, Repr

namespace Content

/-- The bytes of a file. -/
def data : Content → List UInt8
  | text s => s.toUTF8.toList
  | bytes data => data
  | document _ source => source.toUTF8.toList
  | malformed source => source.toUTF8.toList

end Content

/-- A place in a file tree. -/
inductive Node where
  /-- A directory. -/
  | directory
  /-- A file. -/
  | file (content : Content)
deriving BEq, Repr

/-- Why a file operation failed. -/
inductive FileCause where
  /-- Nothing is there. -/
  | notFound
  /-- A name on the way is no directory. -/
  | notDirectory
  /-- A directory is there. -/
  | isDirectory
  /-- Something is there already. -/
  | alreadyExists
  /-- A name, or the path as a whole, is too long. -/
  | nameTooLong
  /-- The path has a null character in it. -/
  | nullCharacter
  /-- Too many directories would have to be made for one path. -/
  | tooDeep
  /-- A tree could not be copied as a whole. -/
  | copyFailed
deriving DecidableEq, Repr

/-- What is said about a failed file operation. -/
def FileCause.reason : FileCause → String
  | notFound => "[Errno 2] No such file or directory"
  | notDirectory => "[Errno 20] Not a directory"
  | isDirectory => "[Errno 21] Is a directory"
  | alreadyExists => "[Errno 17] File exists"
  | nameTooLong => "[Errno 36] File name too long"
  | nullCharacter => "a path cannot have a null character"
  | tooDeep => "a path cannot make so many directories"
  | copyFailed => "Not everything could be copied"

/-- A failed file operation. -/
structure FileError where
  /-- Why it failed. -/
  cause : FileCause
  /-- The path that it failed on. -/
  path : Path
deriving DecidableEq, Repr

/-- What is said about a failed file operation on a path. -/
def FileError.message (e : FileError) : String :=
  e.cause.reason ++ ": " ++ Text.quoted e.path.toString

/-- The names from the root to a place. -/
abbrev Location := List String

/-- Files and directories. -/
structure FileTree where
  /-- The working directory. -/
  working : Location
  /-- The files, and the directories other than the root. -/
  entries : List (Location × Node)
deriving BEq, Repr

namespace FileTree

variable (t : FileTree)

/-- What is at a location. -/
def get? (l : Location) : Option Node :=
  match l with
  | [] => some .directory
  | _ => (t.entries.find? (·.1 == l)).map (·.2)

/-- Puts something at a location, in place of what was there. -/
def put (l : Location) (n : Node) : FileTree :=
  if t.entries.any (·.1 == l) then
    { t with entries := t.entries.map fun e => if e.1 == l then (l, n) else e }
  else
    { t with entries := t.entries ++ [(l, n)] }

/-- What was put at a location is there. -/
theorem get?_put_self (l : Location) (n : Node) (h : l ≠ []) : (t.put l n).get? l = some n := by
  obtain ⟨a, l, rfl⟩ := List.exists_cons_of_ne_nil h
  unfold put
  split
  · rename_i present
    simp only [get?, List.find?_map, Option.map_map]
    obtain ⟨e, he, hl⟩ := List.any_eq_true.mp present
    have found : (t.entries.find? ((fun e => e.1 == a :: l) ∘
        fun e => if e.1 == a :: l then (a :: l, n) else e)).isSome := by
      rw [List.find?_isSome]
      exact ⟨e, he, by simp_all⟩
    obtain ⟨f, hf⟩ := Option.isSome_iff_exists.mp found
    have key := List.find?_some hf
    rw [hf, Option.map_some, Function.comp_apply]
    rw [Function.comp_apply] at key
    split at key <;> simp_all
  · rename_i absent
    have none : t.entries.find? (·.1 == a :: l) = none := by
      rw [List.find?_eq_none]
      intro e he hl
      exact absent (List.any_eq_true.mpr ⟨e, he, hl⟩)
    simp [get?, List.find?_append, none]

/-- What is at other locations stays there. -/
theorem get?_put_of_ne {l m : Location} (n : Node) (h : m ≠ l) : (t.put l n).get? m = t.get? m := by
  cases m with
  | nil => rfl
  | cons a m =>
    unfold put
    split
    · simp only [get?, List.find?_map, Option.map_map]
      have same : ((fun e : Location × Node => e.1 == a :: m) ∘
          fun e => if e.1 == l then (l, n) else e) = fun e => e.1 == a :: m := by
        funext e
        by_cases hl : e.1 = l <;> simp_all
      rw [same]
      cases hf : t.entries.find? fun e => e.1 == a :: m with
      | none => rfl
      | some f =>
        have := List.find?_some hf
        simp only [Option.map_some, Function.comp_apply]
        split <;> simp_all
    · have other : (l == a :: m) = false := by
        simpa using Ne.symm h
      simp [get?, List.find?_append, other]

/-- The location at which the templates are that come with the program. -/
def builtinLocation : Location := [Path.builtinName]

/-- Where a path starts. -/
def start : Anchor → Location
  | .working => t.working
  | .root => []
  | .doubleRoot => []
  | .builtin => builtinLocation

/-- The greatest number of bytes in a name. -/
def maxNameSize : Nat := 255

/-- The greatest number of bytes in a path. -/
def maxPathSize : Nat := 4095

/-- Why a path leads nowhere in any tree, if it does. -/
def fault? (p : Path) : Option FileCause :=
  if p.hasNull then some .nullCharacter
  else if p.toString.utf8ByteSize > maxPathSize then some .nameTooLong
  else none

/-- Follows names from a directory. All but the last must lead to directories. -/
def walk (l : Location) : List String → Except FileCause Location
  | [] => .ok l
  | n :: rest =>
    if n = "." then walk l rest
    else if n = ".." then walk l.dropLast rest
    else if n.utf8ByteSize > maxNameSize then .error .nameTooLong
    else
      match t.get? (l ++ [n]), rest with
      | some .directory, rest => walk (l ++ [n]) rest
      | _, [] => .ok (l ++ [n])
      | some (.file _), _ :: _ => .error .notDirectory
      | none, _ :: _ => .error .notFound

/-- The location that a path leads to, whether or not something is there. -/
def locate (p : Path) : Except FileCause Location :=
  match fault? p with
  | some cause => .error cause
  | none => t.walk (t.start p.anchor) p.parts

/-- What a path leads to. -/
def lookup (p : Path) : Except FileCause Node := do
  match t.get? (← t.locate p) with
  | some n => .ok n
  | none => .error .notFound

/-- What a path leads to, if it leads to anything. Only a path that is too long cannot be asked
for. -/
def find? (p : Path) : Except FileCause (Option Node) :=
  match t.lookup p with
  | .ok n => .ok (some n)
  | .error .nameTooLong => .error .nameTooLong
  | .error _ => .ok none

/-- Whether a path leads to something. -/
def exist (p : Path) : Bool :=
  match t.lookup p with
  | .ok _ => true
  | .error _ => false

/-- Whether a path leads to a file. -/
def isFile (p : Path) : Bool :=
  match t.lookup p with
  | .ok (.file _) => true
  | _ => false

/-- Whether a path leads to a directory. -/
def isDirectory (p : Path) : Bool :=
  match t.lookup p with
  | .ok .directory => true
  | _ => false

/-- What a path leads to when it is written as given: a slash at the end, like a single dot, asks
for a directory before it. -/
def lookupWritten (s : String) : Except FileCause Node :=
  if s = "" then .error .notFound
  else if s.utf8ByteSize > maxPathSize then .error .nameTooLong
  else
    let p := Path.ofString s
    let names := (Text.segments '/' s.toList).map fun n => if n.isEmpty then "."
      else String.ofList n
    match p.anchor with
    | .builtin => t.lookup p
    | _ => do
      match t.get? (← t.walk (t.start p.anchor) names) with
      | some n => .ok n
      | none => .error .notFound

/-- The content of a file. -/
def read (p : Path) : Except FileCause Content := do
  match ← t.lookup p with
  | .file content => .ok content
  | .directory => .error .isDirectory

/-- Writes a file, in place of what it held before. -/
def write (p : Path) (content : Content) : Except FileError FileTree :=
  match t.locate p with
  | .error cause => .error ⟨cause, p⟩
  | .ok l =>
    match t.get? l with
    | some .directory => .error ⟨.isDirectory, p⟩
    | _ => .ok (t.put l (.file content))

/-- Writes a file as a change. -/
def writeOver (p : Path) (content : Content) : FileTree × Option FileError :=
  match t.write p content with
  | .ok t => (t, none)
  | .error e => (t, some e)

/-- Makes a directory in a directory that exists. -/
def makeDirectory (p : Path) : Except FileCause FileTree := do
  let l ← t.locate p
  match t.get? l with
  | some _ => .error .alreadyExists
  | none => .ok (t.put l .directory)

/-- Makes a directory, unless it is there already. -/
def ensureDirectory (p : Path) : Except FileCause FileTree :=
  match t.makeDirectory p with
  | .ok t => .ok t
  | .error cause => if t.isDirectory p && cause != .notFound then .ok t else .error cause

/-- What a change of a tree comes to: the tree after it, and why it failed if it did. -/
abbrev Change := FileTree × Option FileCause

/-- A change that does nothing if it fails. -/
def attempt : Except FileCause FileTree → Change
  | .ok t => (t, none)
  | .error cause => (t, some cause)

/-- The greatest number of directories that are made for one path. -/
def maxDepth : Nat := 980

/-- Makes the directory with the given names, which are in reverse order, unless it is there
already. If it has no place yet, those on the way to it are made first. -/
def ensureAll (anchor : Anchor) : (depth : Nat) → (names : List String) → FileTree → Change
  | 0, _, t => (t, some .tooDeep)
  | depth + 1, names, t =>
    let p : Path := ⟨anchor, names.reverse⟩
    match t.ensureDirectory p, names with
    | .error .notFound, _ :: up =>
      match ensureAll anchor depth up t with
      | (t, none) => t.attempt (t.ensureDirectory p)
      | failed => failed
    | result, _ => t.attempt result

/-- The failure of a change, with the path that it failed on. -/
def Change.failedAt (p : Path) (c : Change) : FileTree × Option FileError :=
  (c.1, c.2.map fun cause => ⟨cause, p⟩)

/-- Makes a directory and those on the way to it, unless they are there already. -/
def ensureDirectories (p : Path) : FileTree × Option FileError :=
  Change.failedAt p (ensureAll p.anchor maxDepth p.parts.reverse t)

/-! ## Below a directory -/

/-- What is below a location, with the names from there, in the order of the names. -/
def below (l : Location) : List (Location × Node) :=
  let found := t.entries.filterMap fun (m, n) =>
    if l.isPrefixOf m && l.length < m.length then some (m.drop l.length, n) else none
  found.mergeSort fun a b => !b.1.lex a.1

/-- What is below a directory, with the names from there. There is nothing below a file. -/
def belowPath (p : Path) : List (Location × Node) :=
  match t.locate p with
  | .ok l => if t.isDirectory p then t.below l else []
  | .error _ => []

/-- What below a directory a search asks for: a name that ends with a text, then names to follow
from there. -/
structure Pattern where
  /-- How the name ends. -/
  ending : String
  /-- The names to follow. -/
  names : List String
  /-- Whether it asks for directories only. -/
  directories : Bool
deriving DecidableEq, Repr

/-- The pattern that the ending of a path stands for. It may have slashes in it, and a slash at its
end asks for directories. -/
def Pattern.ofEnding (s : String) : Pattern where
  ending := String.ofList (s.toList.takeWhile (· != '/'))
  names := Path.partsOf (s.toList.dropWhile (· != '/'))
  directories := s.toList.getLast? == some '/'

/-- Follows the names of a pattern from a place below a directory. -/
def followFrom (p : Path) (directories : Bool) (found : Location) :
    List String → Except FileCause (List Location)
  | [] => .ok [found]
  | n :: rest => do
    let found := found ++ [n]
    match ← t.find? { p with parts := p.parts ++ found } with
    | some .directory => followFrom p directories found rest
    | some (.file _) => if rest.isEmpty && !directories then .ok [found] else .ok []
    | none => .ok []

/-- The paths below a directory that a pattern asks for, in the order of their names. -/
def search (p : Path) (ending : String) : Except FileCause (List Path) := do
  let pattern := Pattern.ofEnding ending
  let hits := (t.belowPath p).filter fun (names, n) =>
    pattern.ending.toList.isSuffixOf (names.getLast?.getD "").toList
      && (n == .directory || (pattern.names.isEmpty && !pattern.directories))
  let found ← hits.mapM fun (names, _) => t.followFrom p pattern.directories names pattern.names
  let ordered := found.flatten.mergeSort fun a b => !b.lex a
  return ordered.map fun names => { p with parts := p.parts ++ names }

/-! ## Copying -/

/-- Makes the directory with the given names, which are in reverse order, unless it is there
already. Those on the way to it are made first if the place of the directory cannot be found. -/
def makeAll (anchor : Anchor) : (depth : Nat) → (names : List String) → FileTree → Change
  | 0, _, t => (t, some .tooDeep)
  | depth + 1, names, t =>
    let p : Path := ⟨anchor, names.reverse⟩
    let way : Change := match names with
      | _ :: u :: up =>
        if t.exist ⟨anchor, (u :: up).reverse⟩ then (t, none) else makeAll anchor depth (u :: up) t
      | _ => (t, none)
    match way with
    | (t, none) | (t, some .alreadyExists) =>
      match t.makeDirectory p with
      | .ok t => (t, none)
      | .error cause => if t.isDirectory p then (t, none) else (t, some cause)
    | failed => failed

/-- Copies one thing from below a location into a directory. A file that meets a directory goes into
it, and no file can be copied onto itself. -/
def copyEntry (source : Location) (dst : Path) (state : FileTree × Bool) (entry : Location × Node) :
    FileTree × Bool :=
  let (t, whole) := state
  let target := { dst with parts := dst.parts ++ entry.1 }
  match entry.2 with
  | .directory =>
    match t.ensureDirectory target with
    | .ok t => (t, whole)
    | .error _ => (t, false)
  | .file content =>
    let target := if t.isDirectory target then
        { target with parts := target.parts ++ [entry.1.getLast?.getD ""] }
      else target
    match t.locate target, t.write target content with
    | .ok l, .ok t => if l = source ++ entry.1 then (t, false) else (t, whole)
    | _, _ => (t, false)

/-- Copies all that is below a directory into another, which is made if it is not there. What can be
copied is copied even if not everything can. -/
def copyTree (src dst : Path) : FileTree × Option FileError :=
  match t.locate src with
  | .error cause => (t, some ⟨cause, src⟩)
  | .ok source =>
    match makeAll dst.anchor maxDepth dst.parts.reverse t with
    | (made, some cause) => (made, some ⟨cause, dst⟩)
    | (made, none) =>
      let (t, whole) := (t.belowPath src).foldl (copyEntry source dst) (made, true)
      (t, if whole then none else some ⟨.copyFailed, dst⟩)

/-! ## Making and comparing trees -/

/-- The tree that holds only a working directory. -/
def atWorking (l : Location) : FileTree where
  working := l
  entries := (List.range l.length).map fun i => (l.take (i + 1), .directory)

/-- Makes the directories on the way to a location. -/
def makeWay (l : Location) : FileTree :=
  (List.range (l.length - 1)).foldl (fun t i =>
    if (t.get? (l.take (i + 1))).isSome then t else t.put (l.take (i + 1)) .directory) t

/-- Puts something at a path, with the directories on the way to it. -/
def plant (p : Path) (n : Node) : FileTree :=
  let l := t.start p.anchor ++ p.parts
  (t.makeWay l).put l n

/-- Writes text at the end of the file at a location. -/
def append (l : Location) (s : String) : FileTree :=
  match t.get? l with
  | some (.file (.text old)) => t.put l (.file (.text (old ++ s)))
  | some (.file content) => t.put l (.file (.bytes (content.data ++ s.toUTF8.toList)))
  | _ => t.put l (.file (.text s))

/-- Whether something is new or changed: a file that is new or holds other bytes, or a new directory
that holds nothing. -/
def changed (before after : FileTree) (entry : Location × Node) : Bool :=
  match entry.2, before.get? entry.1 with
  | .directory, some .directory => false
  | .directory, _ => (after.below entry.1).isEmpty
  | .file content, some (.file old) => content.data != old.data
  | .file _, _ => true

/-- How something below the working directory is named: by its path, with a slash at the end of a
directory. -/
def nameOf (entry : Location × Node) : String :=
  match entry.2 with
  | .directory => Path.written entry.1 ++ "/"
  | .file _ => Path.written entry.1

/-- What is new or changed below the working directory, with its name and the content of a file, in
the order of the names. -/
def changes (before after : FileTree) : List (String × Option Content) :=
  let new := after.entries.filter fun e =>
    after.working.isPrefixOf e.1 && after.working.length < e.1.length && changed before after e
  let named := new.map fun (l, n) =>
    (nameOf (l.drop after.working.length, n), match n with
      | .directory => none
      | .file content => some content)
  named.mergeSort fun a b => decide (a.1 ≤ b.1)

end FileTree

end ClassReference
