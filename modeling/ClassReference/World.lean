import ClassReference.FileTree
import ClassReference.Log.Handler
import ClassReference.Text.Styling

/-!
# Runs

A run of the program works on a world: the files, what was printed, and how logging is set up. It
may end early; what was done before stays done. A log record reaches its handlers at the moment when
it is sent, so that a log file shows what came before a change of the files and not what came after.
-/

namespace ClassReference

/-- What a run of the program works on. -/
structure World where
  /-- The files. -/
  files : FileTree
  /-- What is logged, and where. -/
  logging : Log.Setup := {}
  /-- The time that log records show. -/
  time : String := ""
  /-- What was printed. -/
  out : String := ""
  /-- What was printed as messages: log lines and errors. -/
  err : String := ""
  /-- The log records that were sent, whether or not a handler took them. -/
  sent : Array Log.Record := #[]
deriving Repr

namespace World

/-- Writes a log line. -/
def writeLine (w : World) : Log.Sink × String → World
  | (.console, line) => { w with err := w.err ++ line ++ "\n" }
  | (.file l, line) => { w with files := w.files.append l (line ++ "\n") }

/-- Sends a log record. -/
def send (w : World) (r : Log.Record) : World :=
  (w.logging.lines w.time r).foldl writeLine { w with sent := w.sent.push r }

end World

/-- A run, or a part of it. -/
abbrev Run (ε α : Type) := ExceptT ε (StateM World) α

namespace Run

variable {ε δ α : Type}

/-- A line as it is printed: without styling, and with a line feed. -/
def lineOf (text : String) : String :=
  String.ofList (Text.stripStyling text.toList) ++ "\n"

/-- Prints a line. -/
def print (line : String) : Run ε Unit :=
  modify fun w => { w with out := w.out ++ lineOf line }

/-- Prints a line as a message. -/
def complain (line : String) : Run ε Unit :=
  modify fun w => { w with err := w.err ++ lineOf line }

/-- Sends a log record. -/
def tell (level : Log.Level) (channel message : String) : Run ε Unit :=
  modify fun w => w.send ⟨level, channel, message⟩

/-- The files at the moment. -/
def files : Run ε FileTree := do
  return (← get).files

/-- Logged work. -/
def logged (x : Logged α) : Run ε α := do
  modify fun w => x.log.foldl World.send w
  return x.value

/-- A result that may be a failure, which ends the run. -/
def result (f : δ → ε) : Except δ α → Run ε α
  | .ok a => pure a
  | .error e => throw (f e)

/-- A change of the files, which may fail. -/
def change (f : FileTree → FileTree × Option FileError) : Run FileError Unit := do
  let (files, failure) := f (← files)
  modify fun w => { w with files }
  if let some e := failure then
    throw e

/-- A part of a run with failures of another kind. -/
def adapt (f : δ → ε) (x : Run δ α) : Run ε α :=
  ExceptT.adapt f x

/-- A part of a run whose failure does not end the run. -/
def attempt (x : Run δ α) : Run ε (Except δ α) :=
  ExceptT.lift x.run

end Run

end ClassReference
