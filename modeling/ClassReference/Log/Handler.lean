import ClassReference.FileTree
import ClassReference.Log.Format

/-!
# Log handlers

The records of the program go to its handlers, if they have at least the level that was set. As long
as there are no handlers, warnings and more severe records go to the console as bare texts. So do
the records of channels that are not below that of the program.
-/

namespace ClassReference.Log

/-- Where a handler writes to. -/
inductive Sink where
  /-- The console. -/
  | console
  /-- The end of a file. -/
  | file (l : Location)
deriving DecidableEq, Repr

/-- A place to which records are written, and how. -/
structure Handler where
  /-- Where they are written. -/
  sink : Sink
  /-- How they are written. -/
  format : Format
deriving DecidableEq, Repr

/-- What is logged, and where. -/
structure Setup where
  /-- The number of the least level that is logged; zero if none was set. -/
  threshold : Nat := 0
  /-- The handlers. -/
  handlers : List Handler := []
deriving DecidableEq, Repr

/-- Whether a channel is that of the program or below it. -/
def isOwn (channel : String) : Bool :=
  channel == root || (root ++ ".").toList.isPrefixOf channel.toList

/-- Whether a record is at least a warning. -/
def Record.isWarning (r : Record) : Bool :=
  Level.warning.rank ≤ r.level.rank

namespace Setup

/-- Whether a record of the program is logged. Where no level was set, warnings are. -/
def admits (s : Setup) (r : Record) : Bool :=
  if s.threshold = 0 then r.isWarning else s.threshold ≤ r.level.rank

/-- The bare text of a record, if it is at least a warning. -/
def lastResort (r : Record) : List (Sink × String) :=
  if r.isWarning then [(.console, r.message)] else []

/-- The lines that are written for a record that is sent at the given time. -/
def lines (s : Setup) (time : String) (r : Record) : List (Sink × String) :=
  if isOwn r.channel then
    if s.admits r then
      if s.handlers.isEmpty then lastResort r
      else s.handlers.map fun h => (h.sink, h.format.write time r)
    else []
  else
    lastResort r

end Setup

end ClassReference.Log
