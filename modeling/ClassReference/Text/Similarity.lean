/-!
# Similar words

How much two words have in common: the length of their longest common run, and of those to the left
and to the right of it in the same way. Of several longest runs, the one furthest to the left is
taken. Words are close if what they have in common makes up at least three fifths of them.
-/

namespace ClassReference.Text

/-- The length of the common start of two texts. -/
def commonStart : List Char → List Char → Nat
  | a :: as, b :: bs => if a = b then commonStart as bs + 1 else 0
  | _, _ => 0

/-- A run that occurs in two texts. -/
structure CommonRun where
  /-- Where it starts in the first. -/
  left : Nat
  /-- Where it starts in the second. -/
  right : Nat
  /-- Its length. -/
  size : Nat
deriving DecidableEq, Repr

/-- The longer of two runs, the first if they are equally long. -/
def CommonRun.longer (m n : CommonRun) : CommonRun :=
  if m.size < n.size then n else m

/-- The longest common run of two texts. -/
def longestRun (a b : List Char) : CommonRun :=
  let runs := (List.range a.length).flatMap fun i =>
    (List.range b.length).map fun j => ⟨i, j, commonStart (a.drop i) (b.drop j)⟩
  runs.foldl CommonRun.longer ⟨0, 0, 0⟩

/-- The number of characters that two texts have in common; the first text is no longer than the
bound. -/
def commonWithin : Nat → List Char → List Char → Nat
  | 0, _, _ => 0
  | n + 1, a, b =>
    let run := longestRun a b
    if run.size = 0 then 0
    else
      commonWithin n (a.take run.left) (b.take run.right) + run.size
        + commonWithin n (a.drop (run.left + run.size)) (b.drop (run.right + run.size))

/-- The number of characters that two texts have in common. -/
def common (a b : List Char) : Nat :=
  commonWithin a.length a b

/-- A word with its similarity to another: what they have in common, as part of their lengths. -/
structure Likeness where
  /-- The word. -/
  word : String
  /-- The number of common characters. -/
  common : Nat
  /-- The sum of the lengths. -/
  total : Nat
deriving DecidableEq, Repr

namespace Likeness

/-- The similarity of a word to a target. -/
def ofWord (target word : String) : Likeness where
  word
  common := Text.common word.toList target.toList
  total := word.length + target.length

/-- Whether a word is close to the target. -/
def isClose (l : Likeness) : Bool :=
  3 * l.total ≤ 5 * (2 * l.common)

/-- Whether a word comes before another: the closer first, and of equally close words the
greater. -/
def before (l m : Likeness) : Bool :=
  m.common * l.total < l.common * m.total
    || (m.common * l.total == l.common * m.total && decide (m.word ≤ l.word))

end Likeness

/-- The words that are closest to the target, three at most, in order. -/
def closest (target : String) (words : List String) : List String :=
  let close := (words.map (Likeness.ofWord target)).filter Likeness.isClose
  let best := (close.mergeSort Likeness.before).take 3
  (best.map (·.word)).mergeSort fun a b => decide (a ≤ b)

end ClassReference.Text
