import ClassReference.Config
import ClassReference.SourceFile
import ClassReference.World

/-!
# Collecting sources as configured

A collection is a session with the configuration that it works by. A source from which something
cannot be collected adds nothing to it.

A source file is read up to its end, and what is logged meanwhile may have come to stand after that
end, if the file is also a log file. So the file is read on until nothing new is found in it. If
what is logged goes on to be collected and logged again, there may be no end to this. Such a file is
given up as endless after a number of rounds, which is a bound of this library only.
-/

namespace ClassReference

/-- Why a source could not be collected. -/
inductive SourceError where
  /-- It could not be opened. -/
  | unopened (e : SourceFile.OpenError)
  /-- A setting cannot be used. -/
  | setting (e : SettingError)
  /-- It grows as it is read. -/
  | endless
deriving DecidableEq, Repr

/-- What is said about a source that could not be collected. -/
def SourceError.message : SourceError → String
  | unopened e => e.message
  | setting e => e.message
  | endless => "the file grows as it is read"

/-- A session with its configuration. -/
structure Collection where
  /-- The configuration. -/
  config : Config
  /-- The session. -/
  session : Session
deriving Repr

/-- What was found in a source so far. -/
structure Findings where
  /-- The place of the next comment. -/
  context : Context
  /-- The entities. -/
  entities : List Entity := []
deriving Repr

/-- How far a source file was read. -/
structure Progress where
  /-- What was found. -/
  findings : Findings
  /-- The scanner. -/
  scanner : Scanner := .start
  /-- How many bytes were read. -/
  offset : Nat := 0
deriving Repr

namespace Collection

/-- A collection that holds nothing yet. -/
def start (config : Config) : Collection where
  config
  session := config.session

variable (c : Collection)

/-- Classifies further comments of a source. -/
def findIn (f : Findings) (comments : List Comment) : Run SourceError Findings := do
  let work := c.session.classifier.classifyAll comments f.context
  let results ← Run.result (fun key => .setting ⟨key⟩)
    (← Run.logged (work.relying c.config.unusable))
  return {
    context := (results.getLast?.map (·.context)).getD f.context
    entities := f.entities ++ results.flatMap (·.entities) }

/-- Collects what was found in a source, and reports what it is. -/
def keep (f : Findings) : Collection × Catalog :=
  let found := Catalog.ofEntities f.entities
  ({ c with session := c.session.add found }, found)

/-- Collects the entities of a source, and reports which they are. -/
def addComments (comments : List Comment) (fileName : String) :
    Run SourceError (Collection × Catalog) := do
  return c.keep (← c.findIn { context := { fileName } } comments)

/-- Collects the entities of a source text, and reports which they are. -/
def addSource (source fileName : String) : Run SourceError (Collection × Catalog) :=
  c.addComments (Comment.scan source) fileName

/-- How often a file is read on because it has grown, before it is given up as endless. -/
def maxRounds : Nat := 1000

/-- Reads on in a file until nothing new is found in it, and then closes what is still open. -/
def readOn (path : Path) (e : Encoding) : (rounds : Nat) → Progress → Run SourceError Findings
  | 0, _ => throw .endless
  | rounds + 1, p => do
    let new := (SourceFile.dataOf (← Run.files) path).drop p.offset
    if new.isEmpty then
      c.findIn p.findings p.scanner.close.2
    else
      match e.read new with
      | .complete blocks =>
        let (scanner, comments) := p.scanner.feedAll blocks
        let findings ← c.findIn p.findings comments
        readOn path e rounds { findings, scanner, offset := p.offset + new.length }
      | .failed blocks =>
        let findings ← c.findIn p.findings (p.scanner.feedAll blocks).2
        Run.logged (SourceFile.reportFailure path SourceFile.undecodable)
        return findings

/-- Collects the entities of a source file, and reports which they are. -/
def addFile (path : Path) : Run SourceError (Collection × Catalog) := do
  Run.tell .info Log.building ("Processing: " ++ path.name)
  let none : Findings := { context := { fileName := path.name } }
  match ← Run.result .unopened
      (SourceFile.opened (← Run.files) path c.config.scanner.encoding) with
  | .error cause =>
    Run.logged (SourceFile.reportFailure path (FileError.message ⟨cause, path⟩))
    return c.keep none
  | .ok e => return c.keep (← c.readOn path e maxRounds { findings := none })

/-- Collects the entities of source files in order, up to the first that cannot be collected. -/
def addFiles {ε : Type} (c : Collection) : List Path → Run ε (Collection × Option SourceError)
  | [] => return (c, none)
  | p :: ps => do
    match ← Run.attempt (c.addFile p) with
    | .ok (c, _) => addFiles c ps
    | .error e => return (c, some e)

end Collection

end ClassReference
