import ClassReference.Json

/-!
# Reading JSON

JSON is read as its grammar has it: a text has no control character in it, and a number no leading
zero. Escapes of a high and a low surrogate in a row are read as one character. A key that is given
twice has the value that is given last. Reading takes a bound on its steps, for which twice the
length of the text is enough: of two steps in a row, one reads a character.
-/

namespace ClassReference.Json

/-- The text without the blanks at its start. -/
def skipBlanks (s : List Char) : List Char :=
  s.dropWhile fun c => c = ' ' || c = '\n' || c = '\r' || c = '\t'

/-! ## Texts -/

/-- The value of a hexadecimal digit. -/
def hexValue? (c : Char) : Option Nat :=
  if '0' ≤ c ∧ c ≤ '9' then some (c.toNat - 48)
  else if 'a' ≤ c ∧ c ≤ 'f' then some (c.toNat - 87)
  else if 'A' ≤ c ∧ c ≤ 'F' then some (c.toNat - 55)
  else none

/-- Four hexadecimal digits. -/
def readUnit : List Char → Option (CodePoint × List Char)
  | a :: b :: c :: d :: rest => do
    let high := (← hexValue? a) * 16 + (← hexValue? b)
    let low := (← hexValue? c) * 16 + (← hexValue? d)
    return (CodePoint.ofNat (high * 256 + low), rest)
  | _ => none

/-- An escape of a low surrogate. -/
def readLow : List Char → Option (CodePoint × List Char)
  | '\\' :: 'u' :: rest => (readUnit rest).filter fun p => p.1.isLow
  | _ => none

/-- The code point of an escape by its digits. A high surrogate is joined with a low one behind
it. -/
def readCode (s : List Char) : Option (CodePoint × List Char) := do
  let (n, rest) ← readUnit s
  match readLow rest with
  | some (low, after) => return if n.isHigh then (n.join low, after) else (n, rest)
  | none => return (n, rest)

/-- The code point of an escape, after its backslash. -/
def readEscape : List Char → Option (CodePoint × List Char)
  | [] => none
  | c :: rest =>
    if c = Text.doubleQuote || c = '\\' || c = '/' then some (.ofChar c, rest)
    else if c = 'n' then some (.ofNat 0x0A, rest)
    else if c = 'r' then some (.ofNat 0x0D, rest)
    else if c = 't' then some (.ofNat 0x09, rest)
    else if c = 'f' then some (.ofNat 0x0C, rest)
    else if c = 'b' then some (.ofNat 0x08, rest)
    else if c = 'u' then readCode rest
    else none

/-- The code points up to the closing quote. -/
def readCodes : Nat → List Char → Option (List CodePoint × List Char)
  | 0, _ => none
  | _, [] => none
  | n + 1, c :: rest =>
    if c = Text.doubleQuote then some ([], rest)
    else if c = '\\' then do
      let (k, rest) ← readEscape rest
      let (ks, rest) ← readCodes n rest
      return (k :: ks, rest)
    else if c.toNat < 0x20 then none
    else do
      let (ks, rest) ← readCodes n rest
      return (.ofChar c :: ks, rest)

/-- A text between quotes. -/
def readString (n : Nat) : List Char → Option (List CodePoint × List Char)
  | [] => none
  | c :: rest => if c = Text.doubleQuote then readCodes n rest else none

/-! ## Numbers -/

/-- The number that digits stand for. -/
def ofDigits (ds : List Char) : Nat :=
  ds.foldl (fun n d => n * 10 + (d.toNat - 48)) 0

/-- A run of digits. -/
def readDigits (s : List Char) : Option (List Char × List Char) :=
  let ds := s.takeWhile Char.isDigit
  if ds.isEmpty then none else some (ds, s.dropWhile Char.isDigit)

/-- The digits of a whole number, of which the first is no zero if others follow. -/
def readWhole (s : List Char) : Option (List Char × List Char) :=
  (readDigits s).filter fun p => p.1.head? != some '0' || p.1.length == 1

/-- The part of a number behind its point, if it has one. -/
def readFraction : List Char → Option (List Char × List Char)
  | '.' :: rest => (readDigits rest).map fun p => ('.' :: p.1, p.2)
  | s => some ([], s)

/-- A sign, if there is one. -/
def readSign (signs : List Char) : List Char → List Char × List Char
  | [] => ([], [])
  | c :: rest => if signs.contains c then ([c], rest) else ([], c :: rest)

/-- The power of ten of a number, if it has one. -/
def readExponent : List Char → Option (List Char × List Char)
  | [] => some ([], [])
  | c :: rest =>
    if c = 'e' || c = 'E' then
      let (sign, rest) := readSign ['+', '-'] rest
      (readDigits rest).map fun p => (c :: sign ++ p.1, p.2)
    else
      some ([], c :: rest)

/-- A number. -/
def readNumber (s : List Char) : Option (Json × List Char) := do
  let (sign, rest) := readSign ['-'] s
  let (digits, rest) ← readWhole rest
  let (fraction, rest) ← readFraction rest
  let (exponent, rest) ← readExponent rest
  if fraction.isEmpty && exponent.isEmpty then
    let n : Int := ofDigits digits
    return (int (if sign.isEmpty then n else -n), rest)
  else
    return (real (String.ofList (sign ++ digits ++ fraction ++ exponent)), rest)

/-! ## Values -/

/-- Gives a value to a key. -/
def putEntry (entries : List (List CodePoint × Json)) (e : List CodePoint × Json) :
    List (List CodePoint × Json) :=
  if entries.any (·.1 == e.1) then entries.map fun f => if f.1 == e.1 then e else f
  else entries ++ [e]

/-- A value that is neither a list nor a mapping. -/
def readScalar (n : Nat) : List Char → Option (Json × List Char)
  | 'n' :: 'u' :: 'l' :: 'l' :: rest => some (null, rest)
  | 't' :: 'r' :: 'u' :: 'e' :: rest => some (bool true, rest)
  | 'f' :: 'a' :: 'l' :: 's' :: 'e' :: rest => some (bool false, rest)
  | s =>
    match readString n s with
    | some (t, rest) => some (str t, rest)
    | none => readNumber s

mutual

/-- A value, after any blanks. -/
def readValue : Nat → List Char → Option (Json × List Char)
  | 0, _ => none
  | n + 1, s =>
    match skipBlanks s with
    | '[' :: rest =>
      match skipBlanks rest with
      | ']' :: rest => some (list [], rest)
      | rest => do
        let (d, rest) ← readValue n rest
        let (ds, rest) ← readItems n rest
        return (list (d :: ds), rest)
    | '{' :: rest =>
      match skipBlanks rest with
      | '}' :: rest => some (map [], rest)
      | rest => do
        let (e, rest) ← readEntry n rest
        let (es, rest) ← readEntries n rest
        return (map ((e :: es).foldl putEntry []), rest)
    | rest => readScalar n rest

/-- The further items of a list. -/
def readItems : Nat → List Char → Option (List Json × List Char)
  | 0, _ => none
  | n + 1, s =>
    match skipBlanks s with
    | ']' :: rest => some ([], rest)
    | ',' :: rest => do
      let (d, rest) ← readValue n rest
      let (ds, rest) ← readItems n rest
      return (d :: ds, rest)
    | _ => none

/-- An entry of a mapping. -/
def readEntry : Nat → List Char → Option ((List CodePoint × Json) × List Char)
  | 0, _ => none
  | n + 1, s => do
    let (k, rest) ← readString n (skipBlanks s)
    match skipBlanks rest with
    | ':' :: rest =>
      let (d, rest) ← readValue n rest
      return ((k, d), rest)
    | _ => none

/-- The further entries of a mapping. -/
def readEntries : Nat → List Char → Option (List (List CodePoint × Json) × List Char)
  | 0, _ => none
  | n + 1, s =>
    match skipBlanks s with
    | '}' :: rest => some ([], rest)
    | ',' :: rest => do
      let (e, rest) ← readEntry n rest
      let (es, rest) ← readEntries n rest
      return (e :: es, rest)
    | _ => none

end

/-- Reads JSON that fills the text. -/
def read? (s : String) : Option Json :=
  match readValue (2 * s.toList.length + 2) s.toList with
  | some (d, rest) => if (skipBlanks rest).isEmpty then some d else none
  | none => none

end ClassReference.Json
