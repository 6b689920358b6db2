/-!
# Terminal styling

A styling sequence tells a terminal how to show what follows: an escape character, an opening
bracket, parameters, and a letter. Printed text is free of such sequences.
-/

namespace ClassReference.Text

/-- The character that starts a styling sequence. -/
def escape : Char := Char.ofNat 0x1B

/-- Whether a character may stand among the parameters of a styling sequence. -/
def isParameter (c : Char) : Bool :=
  c = ';' || c = '?' || c.isDigit

/-- What follows the styling sequence whose escape character stands before the text, if there is
one. -/
def afterStyling? : List Char → Option (List Char)
  | '[' :: rest =>
    match rest.dropWhile isParameter with
    | c :: after => if c.isAlpha then some after else none
    | [] => none
  | _ => none

/-- What follows a styling sequence is shorter than the text that it stands in. -/
theorem length_of_afterStyling? {s after : List Char} (h : afterStyling? s = some after) :
    after.length < s.length := by
  unfold afterStyling? at h
  split at h
  · rename_i rest
    have shorter := (List.dropWhile_sublist isParameter (l := rest)).length_le
    split at h
    · rename_i c more eq
      split at h
      · cases h
        rw [eq] at shorter
        simp only [List.length_cons] at shorter ⊢
        omega
      · cases h
    · cases h
  · cases h

/-- The text without its styling sequences. -/
def stripStyling : List Char → List Char
  | [] => []
  | c :: rest =>
    if c = escape then
      match _h : afterStyling? rest with
      | some after => stripStyling after
      | none => c :: stripStyling rest
    else
      c :: stripStyling rest
termination_by s => s.length
decreasing_by
  · have := length_of_afterStyling? _h
    rw [List.length_cons]
    omega
  · simp
  · simp

end ClassReference.Text
