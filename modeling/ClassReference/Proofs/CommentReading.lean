import ClassReference.Comment.Scanner
import ClassReference.Text.Cut
import Mathlib.Data.List.Induction

/-!
# Proofs: reading comments by their markers

What the scanner finds can be said without its states: cut the text at the first opening marker, cut
what comes after it at the first closing marker, and take the words of the code up to the next
opening marker (`Comment.read`). The scanner does the same character by character: text without an
opening marker leaves it in code, text without a closing marker leaves it in a comment, and the last
character of a marker takes it from one to the other.
-/

namespace ClassReference

namespace Text

/-- The pieces of a code between the characters that stand in no word. -/
def pieces (code : List Char) : List (List Char) :=
  code.splitOnP fun c => !isWordChar c

/-- The words of a code: the longest runs of characters that may stand in a word. -/
def words (code : List Char) : List (List Char) :=
  (pieces code).filter (· ≠ [])

end Text

namespace Comment

/-- The comment with the given body that stands before the given code. -/
def before (body code : List Char) : Comment where
  body := String.ofList body
  first := String.ofList ((Text.words code)[0]?.getD [])
  second := String.ofList ((Text.words code)[1]?.getD [])

/-- The code at the beginning of a text: all up to the next opening marker. -/
def codeOf (text : List Char) : List Char :=
  match Text.cut? opening text with
  | some (code, _) => code
  | none => text

/-- The comments of a text: each stands between an opening marker and the closing marker that comes
first after it, and before the code up to the next opening marker. -/
def read (text : List Char) : List Comment :=
  match _hopen : Text.cut? opening text with
  | none => []
  | some (_, inside) =>
    match _hclose : Text.cut? closing inside with
    | none => []
    | some (body, rest) => before body (codeOf rest) :: read rest
termination_by text.length
decreasing_by
  have hinside := Text.length_of_cut? _hopen
  have hrest := Text.length_of_cut? _hclose
  simp only [opening, closing, List.length_cons] at hinside hrest
  omega

end Comment

/-! ## Words -/

namespace Words

/-- The words after some more code. -/
def take (w : Words) (code : List Char) : Words :=
  code.foldl (fun w c => w.push c) w

@[simp] theorem take_nil (w : Words) : w.take [] = w := rfl

@[simp] theorem take_cons (w : Words) (c : Char) (code : List Char) :
    w.take (c :: code) = (w.push c).take code := rfl

@[simp] theorem take_append (w : Words) (a b : List Char) :
    w.take (a ++ b) = (w.take a).take b := by
  simp [take]

end Words

theorem Text.pieces_cons (c : Char) (code : List Char) :
    pieces (c :: code) =
      if isWordChar c then (c :: (pieces code).headD []) :: (pieces code).tail
        else [] :: pieces code := by
  unfold pieces
  rw [List.splitOnP_cons_eq_if_modifyHead]
  have hne := List.splitOnP_ne_nil (fun c => !isWordChar c) code
  cases hp : code.splitOnP fun c => !isWordChar c with
  | nil => exact absurd hp hne
  | cons h t => cases isWordChar c <;> simp

theorem Text.words_cons_of_not {c : Char} (h : isWordChar c = false) (code : List Char) :
    words (c :: code) = words code := by
  simp [words, pieces_cons, h]

theorem Text.words_cons {c : Char} (h : isWordChar c = true) (code : List Char) :
    words (c :: code) = (c :: (pieces code).headD []) :: (pieces code).tail.filter (· ≠ []) := by
  simp [words, pieces_cons, h]

namespace Words

open Text

theorem take_complete (w v code : List Char) : (complete w v).take code = complete w v := by
  induction code with
  | nil => rfl
  | cons c code ih => exact ih

theorem take_inSecond (w v code : List Char) :
    ((inSecond w v).take code).first = w.reverse ∧
      ((inSecond w v).take code).second = v.reverse ++ (pieces code).headD [] := by
  induction code generalizing v with
  | nil => simp [first, second, pieces]
  | cons c code ih =>
    by_cases hc : isWordChar c = true
    · simpa [push, pieces_cons, hc] using ih (c :: v)
    · simp [push, pieces_cons, hc, take_complete, first, second]

theorem take_afterFirst (w code : List Char) :
    ((afterFirst w).take code).first = w.reverse ∧
      ((afterFirst w).take code).second = (words code)[0]?.getD [] := by
  induction code with
  | nil => simp [first, second, words, pieces]
  | cons c code ih =>
    by_cases hc : isWordChar c = true
    · simpa [push, hc, words_cons hc] using take_inSecond w [c] code
    · rw [Bool.not_eq_true] at hc
      simpa [push, hc, words_cons_of_not hc] using ih

theorem take_inFirst (w code : List Char) :
    ((inFirst w).take code).first = w.reverse ++ (pieces code).headD [] ∧
      ((inFirst w).take code).second = ((pieces code).tail.filter (· ≠ []))[0]?.getD [] := by
  induction code generalizing w with
  | nil => simp [first, second, pieces]
  | cons c code ih =>
    by_cases hc : isWordChar c = true
    · simpa [push, pieces_cons, hc] using ih (c :: w)
    · simpa [push, pieces_cons, hc, words] using take_afterFirst w code

/-- The words that are collected are the first two words of the code. -/
theorem take_none (code : List Char) :
    (none.take code).first = (words code)[0]?.getD [] ∧
      (none.take code).second = (words code)[1]?.getD [] := by
  induction code with
  | nil => simp [first, second, words, pieces]
  | cons c code ih =>
    by_cases hc : isWordChar c = true
    · simpa [push, hc, words_cons hc] using take_inFirst [c] code
    · rw [Bool.not_eq_true] at hc
      simpa [push, hc, words_cons_of_not hc] using ih

/-- A character that stands in no word ends a word and changes none. -/
theorem push_of_not {c : Char} (h : isWordChar c = false) (w : Words) :
    (w.push c).first = w.first ∧ (w.push c).second = w.second := by
  cases w <;> simp [push, h, first, second]

end Words

/-- The comment that waits for its words, after some more code. -/
def Pending.take (p : Pending) (code : List Char) : Pending :=
  { p with words := p.words.take code }

@[simp] theorem Pending.take_append (p : Pending) (a b : List Char) :
    p.take (a ++ b) = (p.take a).take b := by
  simp [take]

theorem Pending.comment_take (body code : List Char) :
    (Pending.take { body } code).comment = Comment.before body code := by
  obtain ⟨hfirst, hsecond⟩ := Words.take_none code
  simp [comment, take, Comment.before, hfirst, hsecond]

/-- The opening marker changes no word. -/
theorem Pending.comment_take_opening (p : Pending) :
    (p.take Comment.opening).comment = p.comment := by
  have hslash : Text.isWordChar '/' = false := by decide +kernel
  have hstar : Text.isWordChar '*' = false := by decide +kernel
  simp [comment, take, Comment.opening, Words.push_of_not hslash, Words.push_of_not hstar]

/-! ## Text without a marker -/

/-- How much of the opening marker a text ends in. -/
def Opening.endOf (text : List Char) : Opening :=
  match text.reverse with
  | '*' :: '/' :: _ => .slashStar
  | '/' :: _ => .slash
  | _ => .none

/-- As long as the marker is not complete, what was seen of it is what the text ends in. -/
theorem Opening.next_endOf {text : List Char} {c : Char} (h : ¬ Comment.opening <:+ text ++ [c]) :
    (endOf text).next c = some (endOf (text ++ [c])) := by
  -- Read backwards, the text begins with what was seen of the marker.
  have hrev : ¬ ['*', '*', '/'] <+: c :: text.reverse := by
    rw [← List.reverse_concat, ← List.reverse_suffix, List.reverse_reverse]
    exact h
  unfold endOf
  rw [List.reverse_concat]
  generalize text.reverse = r at hrev
  split
  · have hc : c ≠ '*' := by
      rintro rfl
      exact hrev ⟨_, rfl⟩
    by_cases hslash : c = '/' <;> simp [next, hc, hslash]
  · by_cases hstar : c = '*'
    · simp [next, hstar]
    · by_cases hslash : c = '/' <;> simp [next, hstar, hslash]
  · rename_i _ hnone
    by_cases hslash : c = '/'
    · simp [next, hslash]
    · simp only [next, if_neg hslash]
      split
      · rename_i heq
        obtain ⟨-, hr⟩ := List.cons.inj heq
        exact absurd hr (hnone _)
      · rename_i heq
        exact absurd (List.cons.inj heq).1 hslash
      · rfl

namespace Scanner

theorem feed_singleton (s : Scanner) (c : Char) :
    s.feed [c] = ((s.step c).1, (s.step c).2.toList) := by
  simp only [feed, List.foldl_cons, List.foldl_nil, advance]
  rcases s.step c with ⟨t, _ | found⟩ <;> rfl

/-- Text without an opening marker leaves the scanner in code. -/
theorem feed_code (p : Option Pending) {text : List Char} (h : ¬ Comment.opening <:+: text) :
    (code .none p).feed text = (code (.endOf text) (p.map (·.take text)), []) := by
  -- The induction adds characters at the end, since the state depends on what the text ends in.
  induction text using List.reverseRecOn with
  | nil => cases p <;> rfl
  | append_singleton text c ih =>
    rw [List.infix_concat_iff, not_or] at h
    rw [feed_append, ih h.2, feed_singleton]
    cases p <;> simp [step, Opening.next_endOf h.1, Pending.take]

theorem step_comment {text : List Char} {c : Char} (h : ¬ Comment.closing <:+ text ++ [c]) :
    (comment text.reverse).step c = (comment (text ++ [c]).reverse, none) := by
  unfold step
  split
  · rename_i hcode
    cases hcode
  · rename_i body hstar
    have htext : text = body.reverse ++ ['*'] := by
      simpa using congrArg List.reverse (Scanner.comment.inj hstar)
    refine absurd ⟨body.reverse, ?_⟩ h
    simp [htext, Comment.closing]
  · rename_i hbody _
    rw [← Scanner.comment.inj hbody, List.reverse_concat]

/-- Text without a closing marker leaves the scanner in a comment. -/
theorem feed_comment {text : List Char} (h : ¬ Comment.closing <:+: text) :
    (comment []).feed text = (comment text.reverse, []) := by
  induction text using List.reverseRecOn with
  | nil => rfl
  | append_singleton text c ih =>
    rw [List.infix_concat_iff, not_or] at h
    rw [feed_append, ih h.2, feed_singleton, step_comment h.1]
    rfl

/-! ## Text up to a marker -/

/-- The first opening marker takes the scanner into a comment and completes the comment before. -/
theorem feed_opening (p : Option Pending) {before : List Char}
    (h : ¬ Comment.opening <:+: before ++ Comment.opening.dropLast) :
    (code .none p).feed (before ++ Comment.opening) =
      (comment [], (p.map fun p => (p.take before).comment).toList) := by
  have hsplit : before ++ Comment.opening = (before ++ Comment.opening.dropLast) ++ ['*'] := by
    simp [Comment.opening]
  have hseen : Opening.endOf (before ++ Comment.opening.dropLast) = .slashStar := by
    simp [Opening.endOf, Comment.opening]
  rw [hsplit, feed_append, feed_code p h, feed_singleton, hseen]
  cases p with
  | none => rfl
  | some p =>
    rw [Option.map_some, Pending.take_append]
    exact congrArg (fun found => (comment [], [found])) (p.take before).comment_take_opening

/-- The first closing marker takes the scanner into code. -/
theorem feed_closing {body : List Char}
    (h : ¬ Comment.closing <:+: body ++ Comment.closing.dropLast) :
    (comment []).feed (body ++ Comment.closing) = (code .none (some { body }), []) := by
  have hsplit : body ++ Comment.closing = (body ++ Comment.closing.dropLast) ++ ['/'] := by
    simp [Comment.closing]
  have hstar : (body ++ Comment.closing.dropLast).reverse = '*' :: body.reverse := by
    simp [Comment.closing]
  rw [hsplit, feed_append, feed_comment h, feed_singleton, hstar]
  simp [step]

/-! ## All of a text -/

/-- The comments that a scanner yields if the given text is all that comes. -/
def finish (s : Scanner) (text : List Char) : List Comment :=
  (s.feed text).2 ++ (s.feed text).1.close.2

theorem finish_append (s : Scanner) (a b : List Char) :
    s.finish (a ++ b) = (s.feed a).2 ++ (s.feed a).1.finish b := by
  simp [finish, feed_append]

/-- In code, the comment before gets its words up to the next opening marker. -/
theorem finish_code (p : Option Pending) (text : List Char) :
    (code .none p).finish text = (p.map fun p => (p.take (Comment.codeOf text)).comment).toList ++
      match Text.cut? Comment.opening text with
      | none => []
      | some (_, inside) => (comment []).finish inside := by
  unfold Comment.codeOf
  cases hcut : Text.cut? Comment.opening text with
  | none =>
    simp only [finish, feed_code p (Text.cut?_eq_none hcut)]
    cases p <;> simp [close]
  | some cut =>
    obtain ⟨before, inside⟩ := cut
    obtain ⟨rfl, hfirst⟩ := Text.cut?_eq_some (by simp [Comment.opening]) hcut
    rw [finish_append, feed_opening p hfirst]

/-- In a comment, the text up to the closing marker is its body. -/
theorem finish_comment (text : List Char) :
    (comment []).finish text =
      match Text.cut? Comment.closing text with
      | none => []
      | some (body, rest) => (code .none (some { body })).finish rest := by
  cases hcut : Text.cut? Comment.closing text with
  | none => simp [finish, feed_comment (Text.cut?_eq_none hcut), close]
  | some cut =>
    obtain ⟨body, rest⟩ := cut
    obtain ⟨rfl, hfirst⟩ := Text.cut?_eq_some (by simp [Comment.closing]) hcut
    rw [finish_append, feed_closing hfirst, List.nil_append]

/-- A scanner in code yields the comment that waits for its words, and then the comments of the
text. -/
theorem finish_eq_read (p : Option Pending) (text : List Char) :
    (code .none p).finish text =
      (p.map fun p => (p.take (Comment.codeOf text)).comment).toList ++ Comment.read text := by
  rw [finish_code]
  congr 1
  fun_induction Comment.read text with
  | case1 text hopen => rw [hopen]
  | case2 text before inside hopen hclose => rw [hopen]; simp [finish_comment, hclose]
  | case3 text before inside hopen body rest hclose ih =>
    simp only [hopen, finish_comment, hclose]
    rw [finish_code, ih, Option.map_some, Pending.comment_take]
    rfl

end Scanner

/-- The scanner finds exactly the comments that the markers of the text delimit, each with the first
two words of the code between it and the next opening marker. -/
theorem Comment.scan_eq_read (source : String) :
    Comment.scan source = Comment.read source.toList := by
  have hscan : Comment.scan source = Scanner.start.finish source.toList := by
    simp [scan, scanPieces, Scanner.feedAll_eq_feed, Scanner.finish]
  rw [hscan, Scanner.start, Scanner.finish_eq_read]
  rfl

end ClassReference
