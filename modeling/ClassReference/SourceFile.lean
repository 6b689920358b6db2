import ClassReference.Comment.Scanner
import ClassReference.FileTree
import ClassReference.Log
import ClassReference.Text.Encoding

/-!
# Source files

A source file is read in blocks and scanned as it is read. If reading fails, the comments that were
complete before the failing block are kept, and the comment that was still open is not.
-/

namespace ClassReference

namespace SourceFile

/-- Why a source file cannot even be opened. A file that is not there can be: it is only found to
hold nothing. -/
inductive OpenError where
  /-- The encoding that was asked for is no name. -/
  | noName
  /-- No encoding has the name that was asked for. -/
  | unknown (name : String)
  /-- The path, or the name of the encoding, has a null character in it. -/
  | nullCharacter
deriving DecidableEq, Repr

/-- What is said about a source file that cannot be opened. -/
def OpenError.message : OpenError → String
  | noName => "an encoding is given by its name"
  | unknown name => "unknown encoding: " ++ name
  | nullCharacter => "a path cannot have a null character"

/-- The name of the encoding that a setting stands for; that of UTF-8 if it stands for none. -/
def encodingName : Value → Except OpenError String
  | .null => .ok "utf-8"
  | .str name => if name.toList.contains (Char.ofNat 0) then .error .nullCharacter else .ok name
  | _ => .error .noName

/-- The encoding with the given name. -/
def encodingOf (name : String) : Except OpenError Encoding :=
  match Encoding.ofName? name with
  | some e => .ok e
  | none => .error (.unknown name)

/-- Opens a file in the encoding that a setting stands for: its encoding, or why it cannot be read.
The file is looked for before the name of the encoding is looked up. -/
def opened (files : FileTree) (path : Path) (encoding : Value) :
    Except OpenError (Except FileCause Encoding) := do
  let name ← encodingName encoding
  match files.read path with
  | .error .nullCharacter => .error .nullCharacter
  | .error cause => return .error cause
  | .ok _ => return .ok (← encodingOf name)

/-- The bytes of a file. -/
def dataOf (files : FileTree) (path : Path) : List UInt8 :=
  match files.read path with
  | .ok content => content.data
  | .error _ => []

/-- What scanning a file yields. -/
structure Scan where
  /-- The comments. -/
  comments : List Comment
  /-- Why reading failed, if it did. -/
  failure : Option String
deriving DecidableEq, Repr

/-- Why a text could not be read. -/
def undecodable : String := "the text cannot be decoded"

/-- Scans what was read of a file. What was still open is only closed at the end of the file. -/
def scanReading : Encoding.Reading → Scan
  | .complete blocks => ⟨Comment.scanPieces blocks, none⟩
  | .failed blocks => ⟨(Scanner.start.feedAll blocks).2, some undecodable⟩

/-- Scans bytes in the given encoding. -/
def scanBytes (e : Encoding) (bytes : List UInt8) : Scan :=
  scanReading (e.read bytes)

/-- Scans a file in the encoding that a setting stands for. -/
def scan (files : FileTree) (path : Path) (encoding : Value) : Except OpenError Scan := do
  match ← opened files path encoding with
  | .error cause => return ⟨[], some (FileError.message ⟨cause, path⟩)⟩
  | .ok e => return scanBytes e (dataOf files path)

/-- Reports a failed reading. -/
def reportFailure (path : Path) (reason : String) : Logged Unit :=
  Logged.tell .error Log.scanning ("Failed to read " ++ path.toString ++ ": " ++ reason)

end SourceFile

end ClassReference
