import Std.Time.DateTime.PlainDateTime
import Std.Time.Zoned
import ClassReference.CommandLine.Run

/-!
# The program

The program as it is started from the command line. It takes in the files below the working
directory, runs on them, and then writes what the run made or changed, prints what it printed, and
exits as it ended.
-/

namespace ClassReference.Program

/-- Takes in what is below a directory. -/
partial def takeIn (directory : String) (l : Location) (t : FileTree) : IO FileTree := do
  let mut t := t
  for e in ← (← IO.FS.realPath directory).readDir do
    let path := directory ++ "/" ++ e.fileName
    let here := l ++ [e.fileName]
    if ← (← IO.FS.realPath path).isDir then
      t ← takeIn path here (t.put here .directory)
    else
      t := t.put here (.file (.bytes (← IO.FS.readBinFile path).toList))
  return t

/-- Writes what was made or changed. -/
def putOut (change : String × Option Content) : IO Unit := do
  match change with
  | (name, none) => IO.FS.createDirAll name
  | (name, some content) =>
    IO.FS.createDirAll (Path.ofString name).parent.toString
    IO.FS.writeBinFile name (ByteArray.mk content.data.toArray)

/-- A number with at least the given count of digits. -/
def padded (width n : Nat) : String :=
  let digits := toString n
  String.ofList (List.replicate (width - digits.length) '0') ++ digits

/-- The time as log records show it. -/
def timeText : IO String := do
  let t ← Std.Time.PlainDateTime.now
  let number (width : Nat) (n : Int) : String := padded width n.toNat
  return number 4 t.year.toInt ++ "-" ++ number 2 t.month.val ++ "-" ++ number 2 t.day.val ++ " "
    ++ number 2 t.hour.val ++ ":" ++ number 2 t.minute.val ++ ":" ++ number 2 t.second.val
    ++ "," ++ number 3 (t.nanosecond.val / 1000000)

/-- Runs the program with the given arguments. -/
def start (args : List String) : IO UInt32 := do
  let working := (Path.ofString (← IO.currentDir).toString).parts
  let files ← takeIn "." working (BuiltinSet.install (FileTree.atWorking working))
  let (ending, w) := CommandLine.outcome args { files, time := ← timeText }
  (files.changes w.files).forM putOut
  IO.print w.out
  IO.eprint w.err
  match ending with
  | .exit code => return UInt32.ofNat code
  | .fault f =>
    IO.eprintln f.message
    return 1

end ClassReference.Program

/-- The program. -/
def main (args : List String) : IO UInt32 :=
  ClassReference.Program.start args
