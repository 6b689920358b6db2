import ClassReference.Proofs.Markup
import Mathlib.Data.List.Forall2

/-!
# Proofs: summaries are cut at the limit

A summary is one line without markup. Making a line of a text changes neither its length nor the
places of `<` and `>` in it. So the summary is cut if the text without its markup is longer than the
limit, and what is kept of it is the same text up to line ends and tabs
(`Description.isSummary_ofText`).
-/

namespace ClassReference

open Text

namespace Text

/-- The characters that do not stand in a summary. -/
def lineMarks : List Char := ['\r', '\n', '\t']

/-- A character and the character that a summary has in its place. -/
inductive Flattens : Char → Char → Prop where
  /-- A line feed, carriage return or tab is a space. -/
  | space {c : Char} (h : c ∈ lineMarks) : Flattens c ' '
  /-- Any other character stays as it is. -/
  | same {c : Char} (h : c ∉ lineMarks) : Flattens c c

theorem flattens_flatten (c : Char) : Flattens c (flatten c) := by
  unfold flatten
  split
  · rename_i h
    exact .space (by simpa [lineMarks, or_assoc, or_comm, or_left_comm] using h)
  · rename_i h
    exact .same (by simpa [lineMarks, or_assoc, or_comm, or_left_comm] using h)

theorem Flattens.not_mem {c d : Char} (h : Flattens c d) : d ∉ lineMarks := by
  cases h with
  | space _ => decide
  | same h => exact h

theorem Flattens.eq_of_ne {c d : Char} (h : Flattens c d) (hd : d ≠ ' ') : c = d := by
  cases h with
  | space _ => exact absurd rfl hd
  | same _ => rfl

/-- A text is brought into one line character by character. -/
theorem forall₂_flatten (s : List Char) : List.Forall₂ Flattens s (s.map flatten) := by
  rw [List.forall₂_map_right_iff]
  exact List.forall₂_same.mpr fun c _ => flattens_flatten c

theorem MarkupFree.map_flatten {s : List Char} (h : MarkupFree s) : MarkupFree (s.map flatten) := by
  intro a b heq hmem
  obtain ⟨a', s', rfl, -, hs'⟩ := List.map_eq_append_iff.mp heq
  obtain ⟨c, b', rfl, hc, rfl⟩ := List.map_eq_cons_iff.mp hs'
  obtain ⟨d, hd, hclosing⟩ := List.mem_map.mp hmem
  -- the two characters of the markup are as they were before
  have hc' : c = '<' := (hc ▸ flattens_flatten c).eq_of_ne (by decide)
  have hd' : d = '>' := (hclosing ▸ flattens_flatten d).eq_of_ne (by decide)
  subst hc' hd'
  exact h a' b' rfl hd

end Text

/-- The summary of a text `p` without markup, if `n` characters may be kept. -/
structure Description.IsSummary (n : Nat) (ellipsis : String) (always : Bool) (p : List Char)
    (short : Option String) :
    Prop where
  /-- There is none exactly if it is not asked for and the text fits. -/
  none_iff : short = none ↔ always = false ∧ p.length ≤ n
  /-- A text that does not fit is cut behind `n` characters. -/
  cut : ∀ s, short = some s → n < p.length →
    s.length = n + ellipsis.length ∧ ellipsis.toList <:+ s.toList ∧
    List.Forall₂ Flattens (p.take n) (s.toList.take n)
  /-- A text that fits is kept. -/
  whole : ∀ s, short = some s → p.length ≤ n → List.Forall₂ Flattens p s.toList
  /-- What is kept is on one line. -/
  oneLine : ∀ s, short = some s → ∀ c ∈ s.toList.take n, c ∉ lineMarks
  /-- What is kept has no markup in it. -/
  markupFree : ∀ s, short = some s → MarkupFree (s.toList.take n)

namespace Description

theorem length_lineOf (plain : String) :
    (lineOf plain).length = (stripMarkup plain.toList).length :=
  List.length_map _

/-- A text is cut exactly if it is longer than the limit without its markup. -/
theorem isCut_iff {page ellipsis plain : String} {n : Nat} :
    isCut ⟨page, n, ellipsis⟩ plain = true ↔ n < (stripMarkup plain.toList).length := by
  rw [isCut, decide_eq_true_iff, length_lineOf]
  exact Int.ofNat_lt

theorem length_take_lineOf {plain : String} {n : Nat} (h : n < (stripMarkup plain.toList).length) :
    ((lineOf plain).take n).length = n := by
  rw [← length_lineOf] at h
  exact List.length_take_of_le h.le

/-- A text beyond the limit is cut there, and the ellipsis follows. -/
theorem summary?_of_cut {page ellipsis plain : String} {n : Nat}
    (h : n < (stripMarkup plain.toList).length) (always : Bool) :
    summary? ⟨page, n, ellipsis⟩ plain always =
      some (String.ofList ((lineOf plain).take n) ++ ellipsis) := by
  rw [summary?, if_pos (isCut_iff.mpr h)]
  rfl

/-- A text within the limit is its own summary, if there is always to be one. -/
theorem summary?_of_fits {page ellipsis plain : String} {n : Nat}
    (h : (stripMarkup plain.toList).length ≤ n) (always : Bool) :
    summary? ⟨page, n, ellipsis⟩ plain always = if always then some (String.ofList (lineOf plain))
      else none := by
  rw [summary?, if_neg (fun hcut => absurd (isCut_iff.mp hcut) (Nat.not_lt.mpr h))]

/-- Up to the limit, a summary is the line that is made of the text. -/
theorem take_summary? {page ellipsis plain s : String} {n : Nat} {always : Bool}
    (h : summary? ⟨page, n, ellipsis⟩ plain always = some s) :
    s.toList.take n = (lineOf plain).take n := by
  by_cases hcut : n < (stripMarkup plain.toList).length
  · rw [summary?_of_cut hcut] at h
    cases h
    have htake := length_take_lineOf hcut
    rw [String.toList_append, String.toList_ofList, List.take_append_of_le_length htake.ge,
      List.take_of_length_le htake.le]
  · rw [summary?_of_fits (Nat.not_lt.mp hcut)] at h
    split at h
    · cases h
      rw [String.toList_ofList]
    · cases h

/-- What is made of a text is a summary of the text without its markup. -/
theorem isSummary_summary? (page : String) (n : Nat) (ellipsis plain : String) (always : Bool) :
    IsSummary n ellipsis always (stripMarkup plain.toList)
      (summary? ⟨page, n, ellipsis⟩ plain always) where
  none_iff := by
    by_cases hcut : n < (stripMarkup plain.toList).length
    · simp [summary?_of_cut hcut, hcut]
    · simp [summary?_of_fits (Nat.not_lt.mp hcut), Nat.not_lt.mp hcut]
  cut s hs hcut := by
    have hkept := take_summary? hs
    rw [summary?_of_cut hcut] at hs
    cases hs
    have htake := length_take_lineOf hcut
    refine ⟨by simp [htake], by simp, ?_⟩
    rw [hkept]
    exact List.forall₂_take n (forall₂_flatten _)
  whole s hs hfits := by
    rw [summary?_of_fits hfits] at hs
    split at hs
    · cases hs
      rw [String.toList_ofList]
      exact forall₂_flatten _
    · cases hs
  oneLine s hs := by
    rw [take_summary? hs]
    intro c hc
    obtain ⟨d, -, rfl⟩ := List.mem_map.mp (List.mem_of_mem_take hc)
    exact (flattens_flatten d).not_mem
  markupFree s hs := by
    rw [take_summary? hs]
    exact (markupFree_stripMarkup plain.toList).map_flatten.take n

/-- The summary of a text is measured, cut and made a line of without the markup of its plain
form. -/
theorem isSummary_ofText (page : String) (n : Nat) (ellipsis : String) (text : Option String)
    (currentClass : String) (always : Bool) :
    IsSummary n ellipsis always
      (stripMarkup (Expansion.ofText ⟨page, n, ellipsis⟩
        (text.getD "") currentClass).value.plain.toList)
      (ofText ⟨page, n, ellipsis⟩ text currentClass always).value.short := by
  rw [value_ofText, Expansion.value_ofText]
  exact isSummary_summary? page n ellipsis _ always

/-- A text with markup, a line feed and a link. -/
def boldText : String :=
  "A <b>bold</b>\n\x7b@link #b word\x7d to see"

theorem boldText_cut :
    stripMarkup (Expansion.ofText ⟨"html", 8, "..."⟩ boldText "K").value.plain.toList =
        "A bold\nword to see".toList ∧
      (ofText ⟨"html", 8, "..."⟩ (some boldText) "K").value.short = some "A bold w..." ∧
      IsSummary 8 "..." false "A bold\nword to see".toList (some "A bold w...") := by
  have hplain : stripMarkup (Expansion.ofText ⟨"html", 8, "..."⟩ boldText "K").value.plain.toList =
      "A bold\nword to see".toList := by decide +kernel
  have hshort : (ofText ⟨"html", 8, "..."⟩ (some boldText) "K").value.short =
      some "A bold w..." := by
    decide +kernel
  refine ⟨hplain, hshort, ?_⟩
  rw [← hplain, ← hshort]
  exact isSummary_ofText "html" 8 "..." (some boldText) "K" false

end Description

end ClassReference
