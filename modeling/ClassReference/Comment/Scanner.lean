import ClassReference.Comment
import ClassReference.Text.Alphanumeric

/-!
# Scanning source text

The scanner reads source text character by character, so that a file can be fed to it in pieces of
any size. It is always in one of two regions. In code it follows how much of the opening marker it
has just seen, and collects the words after the last comment. In a comment it collects the body, and
leaves it when a slash comes after an asterisk of that body.

A comment is complete only when its words are: it is yielded when the next comment opens, or when
the scanner is closed.
-/

namespace ClassReference

namespace Text

/-- Whether a character may stand in a word of code. -/
def isWordChar (c : Char) : Bool :=
  isAlphanumeric c || c == '.' || c == '_'

/-- Whether a whole text passes for a word: all of it is alphanumeric, or it is a part of the two
other word characters in their fixed order. -/
def isWordText (s : String) : Bool :=
  (s != "" && s.toList.all isAlphanumeric) || ["", ".", "_", "._"].contains s

end Text

/-- The words collected after a comment. A word under way is kept backwards. -/
inductive Words where
  /-- No word has started. -/
  | none
  /-- The first word is being read. -/
  | inFirst (first : List Char)
  /-- The first word has ended. -/
  | afterFirst (first : List Char)
  /-- The second word is being read. -/
  | inSecond (first second : List Char)
  /-- Both words have ended. -/
  | complete (first second : List Char)
deriving DecidableEq, Repr

namespace Words

/-- Takes in one character of code. -/
def push (c : Char) : Words → Words
  | none => if Text.isWordChar c then inFirst [c] else none
  | inFirst w => if Text.isWordChar c then inFirst (c :: w) else afterFirst w
  | afterFirst w => if Text.isWordChar c then inSecond w [c] else afterFirst w
  | inSecond w v => if Text.isWordChar c then inSecond w (c :: v) else complete w v
  | complete w v => complete w v

/-- The first word so far. -/
def first : Words → List Char
  | none => []
  | inFirst w | afterFirst w | inSecond w _ | complete w _ => w.reverse

/-- The second word so far. -/
def second : Words → List Char
  | inSecond _ v | complete _ v => v.reverse
  | _ => []

end Words

/-- A comment whose words are still being collected. -/
structure Pending where
  /-- The body. -/
  body : List Char
  /-- The words so far. -/
  words : Words := .none
deriving DecidableEq, Repr

/-- The comment as it stands. -/
def Pending.comment (p : Pending) : Comment where
  body := String.ofList p.body
  first := String.ofList p.words.first
  second := String.ofList p.words.second

/-- How much of the opening marker the code read last ends in. -/
inductive Opening where
  /-- Nothing of it. -/
  | none
  /-- Its slash. -/
  | slash
  /-- Its slash and first asterisk. -/
  | slashStar
deriving DecidableEq, Repr

/-- How much of the opening marker the code ends in after one more character; `Option.none` if that
character completes the marker. -/
def Opening.next (c : Char) : Opening → Option Opening
  | .slashStar => if c = '*' then Option.none else if c = '/' then some .slash else some .none
  | .slash => if c = '*' then some .slashStar else if c = '/' then some .slash else some .none
  | .none => if c = '/' then some .slash else some .none

/-- A scanner between two characters. -/
inductive Scanner where
  /-- In code, after the given part of an opening marker, with the comment that waits for its
  words. -/
  | code (seen : Opening) (pending : Option Pending)
  /-- In a comment, with its body so far, backwards. -/
  | comment (body : List Char)
deriving DecidableEq, Repr

namespace Scanner

/-- A scanner that has read nothing. -/
def start : Scanner := code .none none

/-- Reads one character, and yields the comment that an opening marker completes. -/
def step : Scanner → Char → Scanner × Option Comment
  | code seen pending, c =>
    let pending := pending.map fun p => { p with words := p.words.push c }
    match seen.next c with
    | some seen => (code seen pending, none)
    | none => (comment [], pending.map Pending.comment)
  | comment ('*' :: body), '/' => (code .none (some { body := body.reverse }), none)
  | comment body, c => (comment (c :: body), none)

/-- Reads one character and appends the comment it yields, if any, to those before. -/
def advance (acc : Scanner × List Comment) (c : Char) : Scanner × List Comment :=
  match acc.1.step c with
  | (s, none) => (s, acc.2)
  | (s, some found) => (s, acc.2 ++ [found])

/-- Reads a piece of source text and yields the comments that it completes. -/
def feed (s : Scanner) (text : List Char) : Scanner × List Comment :=
  text.foldl advance (s, [])

/-- Ends the text and yields the comment that still waits for its words. The scanner can be fed
again: what comes then does not belong to that comment. -/
def close : Scanner → Scanner × List Comment
  | code seen (some p) => (code seen none, [p.comment])
  | s => (s, [])

/-- Reads pieces of source text one after the other. -/
def feedAll (s : Scanner) : List (List Char) → Scanner × List Comment
  | [] => (s, [])
  | piece :: pieces =>
    let (s, found) := s.feed piece
    let (s, more) := feedAll s pieces
    (s, found ++ more)

/-! ## How the text is cut does not matter -/

/-- What was found before only stands in front of what is found. -/
theorem foldl_advance (text : List Char) (s : Scanner) (found : List Comment) :
    text.foldl advance (s, found) = ((s.feed text).1, found ++ (s.feed text).2) := by
  induction text generalizing s found with
  | nil => simp [feed]
  | cons c text ih =>
    have head : advance (s, found) c = ((advance (s, []) c).1, found ++ (advance (s, []) c).2) := by
      unfold advance
      split <;> simp_all
    rw [List.foldl_cons, head, ih]
    conv => rhs; rw [feed, List.foldl_cons, ih]
    simp

@[simp] theorem feed_nil (s : Scanner) : s.feed [] = (s, []) := rfl

/-- Reading two pieces is reading the first and then the second. -/
theorem feed_append (s : Scanner) (a b : List Char) :
    s.feed (a ++ b) = (((s.feed a).1.feed b).1, (s.feed a).2 ++ ((s.feed a).1.feed b).2) := by
  rw [feed, List.foldl_append, foldl_advance b, ← feed]

/-- Reading pieces one after the other is reading them as one. -/
theorem feedAll_eq_feed (s : Scanner) (pieces : List (List Char)) :
    s.feedAll pieces = s.feed pieces.flatten := by
  induction pieces generalizing s with
  | nil => rfl
  | cons piece pieces ih =>
    rw [List.flatten_cons, feed_append, ← ih]
    rfl

end Scanner

namespace Comment

/-- The comments of a source text that is given in pieces. -/
def scanPieces (pieces : List (List Char)) : List Comment :=
  let (s, found) := Scanner.start.feedAll pieces
  found ++ s.close.2

/-- The comments of a source text. -/
def scan (source : String) : List Comment :=
  scanPieces [source.toList]

end Comment

end ClassReference
