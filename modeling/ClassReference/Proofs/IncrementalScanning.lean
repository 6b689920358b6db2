import ClassReference.Proofs.CommentReading
import Mathlib.Data.List.Forall2

/-!
# Proofs: feeding and closing a scanner in any order

A scanner may be closed in the middle of a text and fed again. It then has yielded a comment whose
words were still being collected, and ignores the rest of them; nothing else changes. So it keeps in
step with a scanner that is fed the same text and never closed (`InStep`), and what the two have
yielded in the end differs in words that were cut short.
-/

namespace ClassReference

namespace Scanner

/-- A call of a scanner. -/
inductive Call where
  /-- A piece of source text is fed. -/
  | feed (text : String)
  /-- The scanner is closed. -/
  | close
deriving DecidableEq, Repr

/-- The text that a call feeds. -/
def Call.text : Call → List Char
  | feed text => text.toList
  | close => []

/-- All the text that is fed by some calls. -/
def Call.textOf (calls : List Call) : String :=
  String.ofList (calls.flatMap text)

/-- Carries out a call. -/
def call (s : Scanner) : Call → Scanner × List Comment
  | .feed text => s.feed text.toList
  | .close => s.close

/-- Carries out calls one after the other. -/
def callAll (s : Scanner) : List Call → Scanner × List Comment
  | [] => (s, [])
  | c :: calls =>
    let (s, found) := s.call c
    let (s, more) := callAll s calls
    (s, found ++ more)

end Scanner

/-- One comment is the other with its words cut short. -/
structure Comment.CutShort (c d : Comment) : Prop where
  /-- The bodies are the same. -/
  body : c.body = d.body
  /-- The first word is the beginning of the other. -/
  first : c.first.toList <+: d.first.toList
  /-- The second word is the beginning of the other. -/
  second : c.second.toList <+: d.second.toList

theorem Comment.CutShort.refl (c : Comment) : c.CutShort c :=
  ⟨rfl, List.prefix_rfl, List.prefix_rfl⟩

/-- Words only grow. -/
theorem Words.prefix_push (w : Words) (c : Char) :
    w.first <+: (w.push c).first ∧ w.second <+: (w.push c).second := by
  cases w <;> by_cases hc : Text.isWordChar c = true <;> simp [push, hc, first, second]

theorem Comment.CutShort.push {c : Comment} {p : Pending} (h : c.CutShort p.comment) (ch : Char) :
    c.CutShort ({ p with words := p.words.push ch } : Pending).comment := by
  obtain ⟨hfirst, hsecond⟩ := p.words.prefix_push ch
  refine ⟨h.body, h.first.trans ?_, h.second.trans ?_⟩
  · simpa [Pending.comment] using hfirst
  · simpa [Pending.comment] using hsecond

namespace Scanner

/-! ## A scanner that is closed and one that is not -/

/-- A scanner that may have been closed has yielded `found`, and one that was fed the same text but
never closed has yielded `found'`. -/
inductive InStep : Scanner → List Comment → Scanner → List Comment → Prop where
  /-- They have yielded the same comments, up to words that were cut short. -/
  | level {s : Scanner} {found found' : List Comment}
      (h : List.Forall₂ Comment.CutShort found found') :
      InStep s found s found'
  /-- The first one has also yielded the comment whose words the second one still collects. -/
  | early {seen : Opening} {p : Pending} {c : Comment} {found found' : List Comment}
      (h : List.Forall₂ Comment.CutShort found found') (hc : c.CutShort p.comment) :
      InStep (code seen none) (found ++ [c]) (code seen (some p)) found'

theorem forall₂_append_same {found found' : List Comment}
    (h : List.Forall₂ Comment.CutShort found found') (more : List Comment) :
    List.Forall₂ Comment.CutShort (found ++ more) (found' ++ more) :=
  List.rel_append h (List.forall₂_same.mpr fun c _ => .refl c)

theorem forall₂_concat {found found' : List Comment} {c d : Comment}
    (h : List.Forall₂ Comment.CutShort found found') (hc : c.CutShort d) :
    List.Forall₂ Comment.CutShort (found ++ [c]) (found' ++ [d]) :=
  List.rel_append h (List.Forall₂.cons hc List.Forall₂.nil)

section InStep

variable {s t : Scanner} {found found' : List Comment}

/-- A character keeps the scanners in step. -/
theorem InStep.step (h : InStep s found t found') (ch : Char) :
    InStep (s.step ch).1 (found ++ (s.step ch).2.toList) (t.step ch).1
      (found' ++ (t.step ch).2.toList) := by
  cases h with
  | level h => exact .level (forall₂_append_same h _)
  | @early seen p c found found' h hc =>
    simp only [Scanner.step, Option.map_none, Option.map_some]
    cases seen.next ch with
    | some seen => simpa using InStep.early h (hc.push ch)
    | none =>
      -- The marker is complete, and the second scanner yields the comment as well.
      simpa using InStep.level (s := comment []) (forall₂_concat h (hc.push ch))

/-- A piece of text keeps the scanners in step. -/
theorem InStep.feed (h : InStep s found t found') (text : List Char) :
    InStep (s.feed text).1 (found ++ (s.feed text).2) (t.feed text).1
      (found' ++ (t.feed text).2) := by
  induction text generalizing s t found found' with
  | nil => simpa using h
  | cons ch text ih =>
    have hrest := ih (h.step ch)
    have hcons : ∀ u : Scanner, u.feed (ch :: text) =
        (((u.step ch).1.feed text).1, (u.step ch).2.toList ++ ((u.step ch).1.feed text).2) := by
      intro u
      rw [← List.singleton_append, feed_append, feed_singleton]
    simpa [hcons] using hrest

/-- Closing the first scanner keeps it in step with the second. -/
theorem InStep.close (h : InStep s found t found') :
    InStep s.close.1 (found ++ s.close.2) t found' := by
  cases h with
  | early h hc => simpa [Scanner.close] using InStep.early h hc
  | level h =>
    cases s with
    | comment body => simpa [Scanner.close] using InStep.level h
    | code seen pending =>
      cases pending with
      | none => simpa [Scanner.close] using InStep.level h
      | some p =>
        -- Only here does the first scanner run ahead of the second.
        exact .early h (.refl _)

/-- Calls of the first scanner keep it in step with the second, if that is fed the same text. -/
theorem InStep.callAll (h : InStep s found t found') (calls : List Call) :
    InStep (s.callAll calls).1 (found ++ (s.callAll calls).2)
      (t.feed (calls.flatMap Call.text)).1 (found' ++ (t.feed (calls.flatMap Call.text)).2) := by
  induction calls generalizing s t found found' with
  | nil => simpa [Scanner.callAll] using h
  | cons c calls ih =>
    have hcall : InStep (s.call c).1 (found ++ (s.call c).2) (t.feed c.text).1
        (found' ++ (t.feed c.text).2) := by
      cases c with
      | feed text => exact h.feed text.toList
      | close => simpa [Call.text, call] using h.close
    have hrest := ih hcall
    rw [List.flatMap_cons, feed_append]
    simpa [Scanner.callAll] using hrest

/-- Once both are closed, the scanners have yielded the same comments, up to words that were cut
short. -/
theorem InStep.forall₂_close (h : InStep s found t found') :
    List.Forall₂ Comment.CutShort (found ++ s.close.2) (found' ++ t.close.2) := by
  cases h with
  | level h => exact forall₂_append_same h _
  | early h hc => simpa [Scanner.close] using forall₂_concat h hc

end InStep

/-! ## All calls -/

theorem callAll_concat_close (s : Scanner) (calls : List Call) :
    (s.callAll (calls ++ [.close])).2 = (s.callAll calls).2 ++ (s.callAll calls).1.close.2 := by
  induction calls generalizing s with
  | nil => simp [callAll, call]
  | cons c calls ih => simp [callAll, ih]

/-- Calls that only feed feed one text. -/
theorem callAll_feeds (s : Scanner) {calls : List Call} (h : .close ∉ calls) :
    s.callAll calls = s.feed (calls.flatMap Call.text) := by
  induction calls generalizing s with
  | nil => rfl
  | cons c calls ih =>
    rw [List.mem_cons, not_or] at h
    cases c with
    | close => exact absurd rfl h.1
    | feed text =>
      rw [List.flatMap_cons, feed_append, ← ih _ h.2]
      rfl

theorem scan_textOf (calls : List Call) :
    Comment.scan (Call.textOf calls) = start.finish (calls.flatMap Call.text) := by
  simp [Comment.scan, Comment.scanPieces, feedAll_eq_feed, finish, Call.textOf]

/-- However a text is cut into pieces and however often the scanner is closed, the comments that it
has yielded after a last close have the bodies of the comments of the whole text, and the beginnings
of their words. If only the last call closes it, they are the comments of the whole text. -/
theorem callAll_yields_scan (calls : List Call) :
    (start.callAll (calls ++ [.close])).2.map (·.body) =
        (Comment.scan (Call.textOf calls)).map (·.body) ∧
      List.Forall₂ (fun c d => c.first.toList <+: d.first.toList ∧
        c.second.toList <+: d.second.toList)
        (start.callAll (calls ++ [.close])).2 (Comment.scan (Call.textOf calls)) ∧
      (.close ∉ calls →
        (start.callAll (calls ++ [.close])).2 = Comment.scan (Call.textOf calls)) := by
  have hstart : InStep start [] start [] := .level List.Forall₂.nil
  have hall : List.Forall₂ Comment.CutShort (start.callAll (calls ++ [.close])).2
      (Comment.scan (Call.textOf calls)) := by
    rw [callAll_concat_close, scan_textOf]
    exact (hstart.callAll calls).forall₂_close
  refine ⟨?_, hall.imp fun _ _ h => ⟨h.first, h.second⟩, fun hcalls => ?_⟩
  · rw [← List.forall₂_eq_eq_eq, List.forall₂_map_left_iff, List.forall₂_map_right_iff]
    exact hall.imp fun _ _ h => h.body
  · rw [callAll_concat_close, scan_textOf, callAll_feeds start hcalls]
    rfl

/-- A text that is cut in both markers of its comment and in a word. -/
def cutEverywhere : List Call :=
  [.feed "/*", .feed "* a *", .feed "/ na", .feed "me: function"]

/-- The same text, fed to a scanner that is closed in that word. -/
def closedInWord : List Call :=
  [.feed "/*", .feed "* a *", .feed "/ na", .close, .feed "me: function"]

theorem cutEverywhere_yields :
    Call.close ∉ cutEverywhere ∧
      (start.callAll (cutEverywhere ++ [.close])).2 = Comment.scan "/** a */ name: function" ∧
      (start.callAll (closedInWord ++ [.close])).2 = [⟨" a ", "na", ""⟩] ∧
      (start.callAll (closedInWord ++ [.close])).2.map (·.body) =
        (Comment.scan "/** a */ name: function").map (·.body) := by
  have hopen : Call.close ∉ cutEverywhere := by decide
  have hclosed : (start.callAll (closedInWord ++ [.close])).2 = [⟨" a ", "na", ""⟩] := by
    decide +kernel
  exact ⟨hopen, (callAll_yields_scan cutEverywhere).2.2 hopen, hclosed,
    (callAll_yields_scan closedInWord).1⟩

end Scanner

end ClassReference
