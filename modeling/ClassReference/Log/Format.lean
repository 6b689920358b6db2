import ClassReference.Log
import ClassReference.Text.Alphanumeric
import ClassReference.Text.Cut

/-!
# Log formats

A format says how a record is written. It is a text with directives such as `%(message)s` or
`%(levelname)-10s`: a field of the record, with the width to fill and whether to fill it on the
right. Two percent signs stand for one.
-/

namespace ClassReference.Log

/-- A field of a record. -/
inductive Field where
  /-- When it was sent. -/
  | time
  /-- Its channel. -/
  | channel
  /-- The name of its level. -/
  | level
  /-- The number of its level. -/
  | rank
  /-- Its text. -/
  | message
deriving DecidableEq, Repr

/-- The field with the given name in a format. -/
def Field.ofName? : String → Option Field
  | "asctime" => some time
  | "name" => some channel
  | "levelname" => some level
  | "levelno" => some rank
  | "message" => some message
  | _ => none

/-- The text of a field of a record that was sent at the given time. -/
def Field.text (time : String) (r : Record) : Field → String
  | .time => time
  | .channel => r.channel
  | .level => r.level.name
  | .rank => toString r.level.rank
  | .message => r.message

/-- How a field is written. -/
structure Directive where
  /-- The field; none if records have no such field. -/
  field : Option Field
  /-- Whether the width is filled on the right. -/
  left : Bool
  /-- The width to fill. -/
  width : Nat
  /-- The greatest number of characters. -/
  limit : Option Nat
deriving DecidableEq, Repr

/-- A piece of a format. -/
inductive Piece where
  /-- A character, written as it is. -/
  | char (c : Char)
  /-- A field. -/
  | directive (d : Directive)
deriving DecidableEq, Repr

namespace Format

/-- A run of digits as a number, zero if there is none. -/
def number (s : List Char) : Nat × List Char :=
  ((s.takeWhile Char.isDigit).foldl (fun n d => n * 10 + (d.toNat - 48)) 0,
    s.dropWhile Char.isDigit)

/-- Whether a character asks for a way to fill a field. -/
def isFill (c : Char) : Bool :=
  c = '#' || c = '0' || c = '+' || c = ' ' || c = '-'

/-- The letters that end a directive. -/
def isConversion (c : Char) : Bool :=
  "diouxefgcrsa%".toList.contains c.toLower

/-- The greatest number of characters, after a point. -/
def readLimit : List Char → Option Nat × List Char
  | '.' :: rest =>
    let (n, rest) := number rest
    (some n, rest)
  | s => (none, s)

/-- Reads a directive, of which a percent sign and an opening parenthesis were read. -/
def readDirective? (s : List Char) : Option (Directive × List Char) :=
  match Text.cutFirst ')' s with
  | (_, none) => none
  | (name, some rest) =>
    let fill := rest.takeWhile isFill
    let (width, rest) := number (rest.dropWhile isFill)
    match readLimit rest with
    | (limit, c :: rest) =>
      if !name.isEmpty && name.all Text.isIdentifierChar && isConversion c then
        some ({ field := Field.ofName? (String.ofList name), left := fill.contains '-', width,
                limit }, rest)
      else
        none
    | _ => none

/-- Whether a directive occurs anywhere in a text. -/
def hasDirective : List Char → Bool
  | [] => false
  | c :: rest =>
    (match c, rest with
      | '%', '(' :: after => (readDirective? after).isSome
      | _, _ => false) || hasDirective rest

/-- The pieces of a format; a step reads at least one character. -/
def readPieces : Nat → List Char → List Piece
  | 0, _ => []
  | _, [] => []
  | n + 1, '%' :: '%' :: rest => .char '%' :: readPieces n rest
  | n + 1, '%' :: '(' :: rest =>
    match readDirective? rest with
    | some (d, rest) => .directive d :: readPieces n rest
    | none => .char '%' :: readPieces n ('(' :: rest)
  | n + 1, c :: rest => .char c :: readPieces n rest

end Format

/-- A text that fills a width. -/
def Directive.fill (d : Directive) (s : String) : String :=
  let s := match d.limit with
    | some n => String.ofList (s.toList.take n)
    | none => s
  let padding := String.ofList (List.replicate (d.width - s.length) ' ')
  if d.left then s ++ padding else padding ++ s

/-- A piece as it is written for a record. A field that records do not have is empty. -/
def Piece.write (time : String) (r : Record) : Piece → String
  | char c => String.singleton c
  | directive d => d.fill ((d.field.map (Field.text time r)).getD "")

/-- How records are written. -/
structure Format where
  /-- The pieces. -/
  pieces : List Piece
deriving DecidableEq, Repr

namespace Format

/-- The text of a record, as it is written if no format is given. -/
def bare :
    Format := ⟨[.directive { field := some .message, left := false, width := 0, limit := none }]⟩

/-- The format that a text stands for; `none` if it has no directive. -/
def ofString? (s : String) : Option Format :=
  if hasDirective s.toList then some ⟨readPieces s.length s.toList⟩ else none

/-- A record as it is written. -/
def write (f : Format) (time : String) (r : Record) : String :=
  String.join (f.pieces.map (Piece.write time r))

end Format

end ClassReference.Log
