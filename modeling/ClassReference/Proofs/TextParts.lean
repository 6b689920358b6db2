import ClassReference.Text.Blank
import ClassReference.Text.Cut
import ClassReference.Text.Lines
import Mathlib.Data.List.Basic
import Mathlib.Data.List.Infix
import Mathlib.Data.List.TakeWhile

/-!
# Proofs: parts of a text

What trimming, taking words, cutting and dividing into segments or lines make of a text that is put
together from parts. Each of these functions is described from the side of the writer: if the parts
are of a certain kind, they come out again as they went in.
-/

namespace ClassReference.Text

/-! ## Blanks -/

/-- The text consists of blanks. -/
def AllBlank (s : List Char) : Prop :=
  ∀ c ∈ s, isBlank c = true

/-- The text has no blanks in it. -/
def Solid (s : List Char) : Prop :=
  ∀ c ∈ s, isBlank c = false

/-- The text neither starts nor ends with a blank. -/
structure Trimmed (s : List Char) : Prop where
  start : ∀ c ∈ s.head?, isBlank c = false
  stop : ∀ c ∈ s.getLast?, isBlank c = false

theorem Solid.of_all {s : List Char} (h : s.all (!isBlank ·) = true) : Solid s := by
  intro c hc
  simpa using List.all_eq_true.mp h c hc

theorem Trimmed.of_all {s : List Char} (hstart : s.head?.all (!isBlank ·) = true)
    (hstop : s.getLast?.all (!isBlank ·) = true) : Trimmed s where
  start c hc := by simpa using (Option.all_eq_true _ _).mp hstart c hc
  stop c hc := by simpa using (Option.all_eq_true _ _).mp hstop c hc

theorem Solid.trimmed {s : List Char} (h : Solid s) : Trimmed s where
  start c hc := h c (List.mem_of_mem_head? hc)
  stop c hc := h c (List.mem_of_mem_getLast? hc)

theorem allBlank_singleton {c : Char} (h : isBlank c = true) : AllBlank [c] := by
  intro x hx
  rw [List.mem_singleton.mp hx]
  exact h

theorem allBlank_nil : AllBlank [] := by
  intro c hc
  cases hc

theorem AllBlank.append {u v : List Char} (hu : AllBlank u) (hv : AllBlank v) : AllBlank (u ++ v) :=
  List.forall_mem_append.mpr ⟨hu, hv⟩

theorem AllBlank.not_mem {v : List Char} (hv : AllBlank v) {c : Char} (hc : isBlank c = false) :
    c ∉ v := by
  intro hmem
  rw [hv c hmem] at hc
  cases hc

theorem isBlank_space : isBlank ' ' = true := by decide

theorem isBlank_head_space (s : List Char) : ∀ c ∈ (' ' :: s).head?, isBlank c = true := by
  intro c hc
  cases hc
  exact isBlank_space

theorem isBlank_of_isLineBreak {c : Char} (h : isLineBreak c = true) : isBlank c = true := by
  have hcodes : ∀ n ∈ lineBreakCodes, n ∈ blankCodes := by decide
  rw [isLineBreak, List.contains_iff_mem] at h
  rw [isBlank, List.contains_iff_mem]
  exact hcodes _ h

theorem trimStart_append {u : List Char} (h : AllBlank u) (s : List Char) :
    trimStart (u ++ s) = trimStart s :=
  List.dropWhile_append_of_pos h

theorem trimStart_eq_nil_iff {s : List Char} : trimStart s = [] ↔ AllBlank s :=
  List.dropWhile_eq_nil_iff

theorem trimStart_cons {c : Char} (h : isBlank c = false) (s : List Char) :
    trimStart (c :: s) = c :: s := by
  rw [trimStart, List.dropWhile_cons, if_neg (by simp [h])]

theorem trimStart_of_start {s : List Char} (h : ∀ c ∈ s.head?, isBlank c = false) :
    trimStart s = s := by
  cases s with
  | nil => rfl
  | cons c s => exact trimStart_cons (h c rfl) s

theorem trimEnd_append {v : List Char} (h : AllBlank v) (s : List Char) :
    trimEnd (s ++ v) = trimEnd s := by
  have hrev : ∀ c ∈ v.reverse, isBlank c = true := fun c hc => h c (List.mem_reverse.mp hc)
  rw [trimEnd, List.reverse_append, List.dropWhile_append_of_pos hrev]
  rfl

theorem trimEnd_of_stop {s : List Char} (h : ∀ c ∈ s.getLast?, isBlank c = false) :
    trimEnd s = s := by
  have hrev : trimStart s.reverse = s.reverse := by
    refine trimStart_of_start ?_
    rw [List.head?_reverse]
    exact h
  rw [trimEnd, ← trimStart, hrev, List.reverse_reverse]

theorem Trimmed.trim_eq {s : List Char} (h : Trimmed s) : trim s = s := by
  rw [trim, trimStart_of_start h.start, trimEnd_of_stop h.stop]

/-- Trimming takes away the blanks around a text, and no more. -/
theorem Trimmed.trim_append {u s v : List Char} (h : Trimmed s) (hs : s ≠ []) (hu : AllBlank u)
    (hv : AllBlank v) : trim (u ++ s ++ v) = s := by
  have hstart : ∀ c ∈ (s ++ v).head?, isBlank c = false := by
    intro c hc
    rw [List.head?_append_of_ne_nil s hs] at hc
    exact h.start c hc
  rw [trim, List.append_assoc, trimStart_append hu, trimStart_of_start hstart, trimEnd_append hv,
    trimEnd_of_stop h.stop]

/-- What is left after trimming is a part of the text. -/
theorem length_trim_le (s : List Char) : (trim s).length ≤ s.length := by
  have hend : (trimEnd (trimStart s)).length ≤ (trimStart s).length := by
    rw [trimEnd, List.length_reverse]
    exact (List.dropWhile_suffix _).length_le.trans (List.length_reverse).le
  exact hend.trans (List.dropWhile_suffix _).length_le

theorem trimEnd_prefix (s : List Char) : trimEnd s <+: s := by
  rw [trimEnd, ← List.reverse_suffix, List.reverse_reverse]
  exact List.dropWhile_suffix _

theorem trimmed_trim (s : List Char) : Trimmed (trim s) where
  start c hc := by
    obtain ⟨t, ht⟩ := trimEnd_prefix (trimStart s)
    have hhead : c ∈ (trimStart s).head? := by
      rw [← ht]
      exact List.mem_head?_append_of_mem_head? hc
    have hnot := List.head?_dropWhile_not isBlank s
    rw [← trimStart, Option.mem_def.mp hhead] at hnot
    simpa using hnot
  stop c hc := by
    have hhead : c ∈ ((trimStart s).reverse.dropWhile isBlank).head? := by
      rwa [trim, trimEnd, List.getLast?_reverse] at hc
    have hnot := List.head?_dropWhile_not isBlank (trimStart s).reverse
    rw [Option.mem_def.mp hhead] at hnot
    simpa using hnot

/-- Nothing is left of a text after trimming exactly if all of it is blank. -/
theorem trim_eq_nil_iff {s : List Char} : trim s = [] ↔ AllBlank s := by
  constructor
  · intro h
    have hstart : trimStart s = [] := by
      rw [trim, trimEnd, List.reverse_eq_nil_iff, List.dropWhile_eq_nil_iff] at h
      cases hs : trimStart s with
      | nil => rfl
      | cons c t =>
        have hblank : isBlank c = true := h c (by simp [hs])
        have hnot := List.head?_dropWhile_not isBlank s
        rw [← trimStart, hs] at hnot
        simp [hblank] at hnot
    exact trimStart_eq_nil_iff.mp hstart
  · intro h
    rw [trim, trimStart_eq_nil_iff.mpr h]
    rfl

/-- A text is what trimming leaves of it, with blanks around it. -/
theorem exists_eq_trim (s : List Char) : ∃ u v, AllBlank u ∧ AllBlank v ∧ s = u ++ trim s ++ v := by
  have hfirst : s = s.takeWhile isBlank ++ trimStart s := List.takeWhile_append_dropWhile.symm
  have hlast : trimStart s = trim s ++ ((trimStart s).reverse.takeWhile isBlank).reverse := by
    have hrev := congrArg List.reverse
      (@List.takeWhile_append_dropWhile _ isBlank (trimStart s).reverse)
    rw [List.reverse_append, List.reverse_reverse] at hrev
    exact hrev.symm
  refine ⟨s.takeWhile isBlank, ((trimStart s).reverse.takeWhile isBlank).reverse, ?_, ?_, ?_⟩
  · exact fun c hc => List.mem_takeWhile_imp hc
  · exact fun c hc => List.mem_takeWhile_imp (List.mem_reverse.mp hc)
  · rw [List.append_assoc, ← hlast, ← hfirst]

/-- Blanks around a text do not matter for trimming. -/
theorem trim_append {u v : List Char} (hu : AllBlank u) (hv : AllBlank v) (s : List Char) :
    trim (u ++ s ++ v) = trim s := by
  by_cases hs : AllBlank s
  · rw [trim_eq_nil_iff.mpr hs, trim_eq_nil_iff]
    exact (hu.append hs).append hv
  · obtain ⟨u', v', hu', hv', heq⟩ := exists_eq_trim s
    have hne : trim s ≠ [] := fun h => hs (trim_eq_nil_iff.mp h)
    have hparts : u ++ s ++ v = (u ++ u') ++ trim s ++ (v' ++ v) := by
      conv_lhs => rw [heq]
      simp only [List.append_assoc]
    rw [hparts, (trimmed_trim s).trim_append hne (hu.append hu') (hv'.append hv)]

theorem Trimmed.trim_cons_space {s : List Char} (h : Trimmed s) : trim (' ' :: s) = s := by
  have happend := Text.trim_append (allBlank_singleton isBlank_space) allBlank_nil s
  rw [List.append_nil, List.singleton_append] at happend
  rw [happend, h.trim_eq]

theorem Trimmed.nonBlank? {s : List Char} (h : Trimmed s) (hs : s ≠ []) :
    Text.nonBlank? s = some (String.ofList s) := by
  unfold Text.nonBlank?
  rw [h.trim_eq]
  cases s with
  | nil => exact absurd rfl hs
  | cons c s => rfl

/-! ## Words -/

theorem Solid.not_isBlank {w : List Char} (h : Solid w) : ∀ c ∈ w, (!isBlank c) = true := by
  intro c hc
  rw [h c hc]
  rfl

theorem Solid.takeWord_append {w rest : List Char} (h : Solid w)
    (hrest : ∀ c ∈ rest.head?, isBlank c = true) : takeWord (w ++ rest) = w := by
  rw [takeWord, List.takeWhile_append_of_pos h.not_isBlank]
  cases rest with
  | nil => simp
  | cons c rest => simp [hrest c rfl]

theorem Solid.dropWord_append {w rest : List Char} (h : Solid w)
    (hrest : ∀ c ∈ rest.head?, isBlank c = true) : dropWord (w ++ rest) = rest := by
  rw [dropWord, List.dropWhile_append_of_pos h.not_isBlank]
  cases rest with
  | nil => rfl
  | cons c rest => simp [hrest c rfl]

/-- A word alone. -/
theorem Solid.splitWord {u w v : List Char} (h : Solid w) (hw : w ≠ []) (hu : AllBlank u)
    (hv : AllBlank v) : Text.splitWord (u ++ w ++ v) = (w, []) := by
  have htake : takeWord w = w := by simpa using @Solid.takeWord_append w [] h (by simp)
  have hdrop : dropWord w = [] := by simpa using @Solid.dropWord_append w [] h (by simp)
  simp only [Text.splitWord, h.trimmed.trim_append hw hu hv, htake, hdrop]
  rfl

/-- A word and a text behind it. -/
theorem Solid.splitWord_cons {u w s v : List Char} (h : Solid w) (hw : w ≠ []) (hs : Trimmed s)
    (hne : s ≠ []) (hu : AllBlank u) (hv : AllBlank v) :
    Text.splitWord (u ++ (w ++ ' ' :: s) ++ v) = (w, s) := by
  have htrimmed : Trimmed (w ++ ' ' :: s) := by
    refine ⟨fun c hc => h.trimmed.start c ?_, fun c hc => hs.stop c ?_⟩
    · rwa [List.head?_append_of_ne_nil w hw] at hc
    · rwa [List.getLast?_append_of_ne_nil _ (List.cons_ne_nil _ _),
        List.getLast?_cons_of_ne_nil hne] at hc
  have hrest := isBlank_head_space s
  simp only [Text.splitWord, htrimmed.trim_append (by simp) hu hv, h.takeWord_append hrest,
    h.dropWord_append hrest]
  rw [← List.singleton_append, trimStart_append (allBlank_singleton isBlank_space),
    trimStart_of_start hs.start]

/-! ## Cutting -/

theorem cutFirst_append {d : Char} {s : List Char} (h : d ∉ s) (after : List Char) :
    cutFirst d (s ++ d :: after) = (s, some after) := by
  have hne : ∀ c ∈ s, (c != d) = true := by
    intro c hc
    rw [bne_iff_ne]
    rintro rfl
    exact h hc
  unfold cutFirst
  rw [List.dropWhile_append_of_pos hne, List.takeWhile_append_of_pos hne]
  simp

theorem cutFirst_eq_none {d : Char} {s : List Char} (h : d ∉ s) : cutFirst d s = (s, none) := by
  have hdrop : s.dropWhile (· != d) = [] := by
    rw [List.dropWhile_eq_nil_iff]
    intro c hc
    rw [bne_iff_ne]
    rintro rfl
    exact h hc
  unfold cutFirst
  rw [hdrop]

/-- A text is cut at the first occurrence of a character, if it occurs. -/
theorem cutFirst_cases (d : Char) (s : List Char) :
    (d ∉ s ∧ cutFirst d s = (s, none)) ∨ ∃ a b,
      s = a ++ d :: b ∧ d ∉ a ∧ cutFirst d s = (a, some b) := by
  by_cases h : d ∈ s
  · obtain ⟨a, b, rfl, ha⟩ := List.eq_append_cons_of_mem h
    exact Or.inr ⟨a, b, rfl, ha, cutFirst_append ha b⟩
  · exact Or.inl ⟨h, cutFirst_eq_none h⟩

theorem cutLast_append {d : Char} {b : List Char} (h : d ∉ b) (a : List Char) :
    cutLast d (a ++ d :: b) = (a, b) := by
  have hne : ∀ c ∈ b.reverse, (c != d) = true := by
    intro c hc
    rw [bne_iff_ne]
    rintro rfl
    exact h (List.mem_reverse.mp hc)
  have hafter : ((a ++ d :: b).reverse.takeWhile (· != d)).reverse = b := by
    rw [List.reverse_append, List.reverse_cons, List.append_assoc, List.takeWhile_append_of_pos hne]
    simp
  have htake : (a ++ d :: b).take ((a ++ d :: b).length - b.length) = a ++ [d] := by
    have hlength : (a ++ d :: b).length - b.length = (a ++ [d]).length := by
      simp only [List.length_append, List.length_cons, List.length_nil]
      omega
    have hparts : a ++ d :: b = a ++ [d] ++ b := by simp
    rw [hlength, hparts, List.take_left]
  simp only [cutLast, hafter, htake, List.dropLast_concat]

theorem cutLast_of_not_mem {d : Char} {s : List Char} (h : d ∉ s) : cutLast d s = ([], s) := by
  have hafter : (s.reverse.takeWhile (· != d)).reverse = s := by
    have hall : s.reverse.takeWhile (· != d) = s.reverse := by
      rw [List.takeWhile_eq_self_iff]
      intro c hc
      rw [bne_iff_ne]
      rintro rfl
      exact h (List.mem_reverse.mp hc)
    rw [hall, List.reverse_reverse]
  simp only [cutLast, hafter, Nat.sub_self, List.take_zero, List.dropLast_nil]

/-- A marker that starts before another one ends before it does. -/
theorem prefix_dropLast {marker k rest : List Char} (hk : k ≠ [])
    (h : marker <+: k ++ marker ++ rest) : marker <+: k ++ marker.dropLast := by
  have hlong : k ++ marker.dropLast <+: k ++ marker ++ rest := by
    rw [List.append_assoc]
    exact List.prefix_append_right_inj _ |>.mpr
      ((List.dropLast_prefix marker).trans (List.prefix_append marker rest))
  refine List.prefix_of_prefix_length_le h hlong ?_
  have hpos := List.length_pos_iff.mpr hk
  simp only [List.length_append, List.length_dropLast]
  omega

/-- A text is cut at its first marker. -/
theorem cut?_append {marker before : List Char} (hm : marker ≠ [])
    (h : ¬ marker <:+: before ++ marker.dropLast) (after : List Char) :
    cut? marker (before ++ marker ++ after) = some (before, after) := by
  induction before with
  | nil =>
    obtain ⟨m, ms, rfl⟩ := List.exists_cons_of_ne_nil hm
    rw [List.nil_append, List.cons_append, cut?, if_pos]
    · simp
    · rw [List.isPrefixOf_iff_prefix]
      exact ⟨after, rfl⟩
  | cons c before ih =>
    have hhere : ¬ marker <+: c :: (before ++ marker ++ after) := by
      intro hpre
      exact h (prefix_dropLast (List.cons_ne_nil c before) hpre).isInfix
    rw [List.cons_append, List.infix_cons_iff, not_or] at h
    rw [List.cons_append, List.cons_append, cut?, if_neg, ih h.2]
    · rfl
    · rw [List.isPrefixOf_iff_prefix]
      exact hhere

theorem cut?_eq_none_of_free {marker s : List Char} (hm : marker ≠ []) (h : ¬ marker <:+: s) :
    cut? marker s = none := by
  cases hcut : cut? marker s with
  | none => rfl
  | some cut =>
    obtain ⟨hs, -⟩ := cut?_eq_some hm hcut
    exact absurd ⟨cut.1, cut.2, hs.symm⟩ h

/-- No marker starts before the first one. -/
theorem prefix_of_first {marker before inside a y : List Char}
    (h : ¬ marker <:+: before ++ marker.dropLast)
    (heq : before ++ marker ++ inside = a ++ marker ++ y) : before <+: a := by
  have hbefore : before <+: a ++ marker ++ y := by
    rw [← heq, List.append_assoc]
    exact List.prefix_append _ _
  have ha : a <+: a ++ marker ++ y := by
    rw [List.append_assoc]
    exact List.prefix_append _ _
  rcases List.prefix_or_prefix_of_prefix hbefore ha with hpre | ⟨k, rfl⟩
  · exact hpre
  · cases k with
    | nil => rw [List.append_nil]
    | cons c k =>
      have hrest : c :: k ++ marker ++ inside = marker ++ y := by
        simpa [List.append_assoc] using heq
      have hin := prefix_dropLast (List.cons_ne_nil c k) (hrest ▸ List.prefix_append marker y)
      rw [List.append_assoc] at h
      exact absurd (hin.isInfix.trans (List.suffix_append _ _).isInfix) h

theorem prefix_of_prefix_append_cons {m a b : List Char} {x : Char} (hx : x ∉ m)
    (h : m <+: a ++ x :: b) : m <+: a := by
  rcases List.prefix_or_prefix_of_prefix h (List.prefix_append a (x :: b)) with hm | ⟨rest, rfl⟩
  · exact hm
  · have hrest : rest <+: x :: b := (List.prefix_append_right_inj a).mp h
    cases rest with
    | nil => rw [List.append_nil]
    | cons y rest =>
      obtain ⟨rfl, -⟩ := List.cons_prefix_cons.mp hrest
      simp at hx

/-- A character that does not occur at the beginning of a text occurs behind it. -/
theorem exists_append_of_not_mem {l r k y : List Char} {x : Char} (hx : x ∉ l)
    (h : l ++ r = k ++ x :: y) : ∃ k', k = l ++ k' ∧ r = k' ++ x :: y := by
  induction l generalizing k with
  | nil => exact ⟨k, rfl, h⟩
  | cons c l ih =>
    rw [List.mem_cons, not_or] at hx
    cases k with
    | nil => exact absurd (List.cons.inj h).1.symm hx.1
    | cons c' k =>
      obtain ⟨rfl, htail⟩ := List.cons.inj h
      obtain ⟨k', rfl, hr⟩ := ih hx.2 htail
      exact ⟨k', rfl, hr⟩

/-- A marker does not reach over a character that does not occur in it. -/
theorem infix_append_cons_iff {m a b : List Char} {x : Char} (hx : x ∉ m) :
    m <:+: a ++ x :: b ↔ m <:+: a ∨ m <:+: b := by
  constructor
  · intro h
    induction a with
    | nil =>
      rcases List.infix_cons_iff.mp h with hpre | hin
      · exact Or.inl (prefix_of_prefix_append_cons (a := []) hx hpre).isInfix
      · exact Or.inr hin
    | cons y a ih =>
      rcases List.infix_cons_iff.mp h with hpre | hin
      · exact Or.inl (prefix_of_prefix_append_cons (a := y :: a) hx hpre).isInfix
      · exact (ih hin).imp_left fun hin => List.infix_cons hin
  · rintro (h | h)
    · exact h.trans (List.infix_append' [] a (x :: b))
    · exact h.trans ⟨a ++ [x], [], by simp⟩

/-! ## Segments -/

theorem segments_eq_splitOn (d : Char) (s : List Char) : segments d s = s.splitOn d := by
  induction s with
  | nil => rw [segments, List.splitOn_nil]
  | cons c s ih =>
    rw [segments, ih, List.splitOn_cons_eq_if_modifyHead]
    by_cases hc : c = d
    · rw [if_pos hc, if_pos (beq_iff_eq.mpr hc)]
    · rw [if_neg hc, if_neg (by simpa using hc)]
      cases hs : s.splitOn d with
      | nil => exact absurd hs (List.splitOn_ne_nil d s)
      | cons t ts => rfl

theorem segments_of_not_mem {d : Char} {s : List Char} (h : d ∉ s) : segments d s = [s] := by
  rw [segments_eq_splitOn, List.splitOn_eq_singleton h]

theorem not_mem_of_mem_segments {d : Char} {s t : List Char} (h : t ∈ segments d s) : d ∉ t := by
  induction s generalizing t with
  | nil =>
    rw [segments, List.mem_singleton] at h
    simp [h]
  | cons c s ih =>
    rw [segments] at h
    split at h
    · rcases List.mem_cons.mp h with rfl | h
      · exact List.not_mem_nil
      · exact ih h
    · rename_i hc
      split at h
      · rw [List.mem_singleton.mp h, List.mem_singleton]
        exact Ne.symm hc
      · rename_i u us hs
        rcases List.mem_cons.mp h with rfl | h
        · rw [List.mem_cons, not_or]
          exact ⟨Ne.symm hc, ih (by rw [hs]; exact List.mem_cons_self)⟩
        · exact ih (by rw [hs]; exact List.mem_cons_of_mem _ h)

/-! ## Lines -/

/-- The text has no line breaks in it. -/
def OneLine (s : List Char) : Prop :=
  ∀ c ∈ s, isLineBreak c = false

theorem OneLine.of_all {s : List Char} (h : s.all (!isLineBreak ·) = true) : OneLine s := by
  intro c hc
  simpa using List.all_eq_true.mp h c hc

theorem OneLine.append {a b : List Char} (ha : OneLine a) (hb : OneLine b) : OneLine (a ++ b) :=
  List.forall_mem_append.mpr ⟨ha, hb⟩

theorem Solid.oneLine {s : List Char} (h : Solid s) : OneLine s := by
  intro c hc
  by_contra hbreak
  have hblank := isBlank_of_isLineBreak (by simpa using hbreak)
  rw [h c hc] at hblank
  cases hblank

/-- A line ends where the text behind it starts with a break. -/
theorem OneLine.lines_append_of_break {line rest : List Char} {more : List (List Char)}
    (h : OneLine line) (hrest : lines rest = [] :: more) : lines (line ++ rest) = line :: more := by
  induction line with
  | nil => exact hrest
  | cons c line ih =>
    have hc := h c List.mem_cons_self
    have hcr : c ≠ '\r' := by
      rintro rfl
      exact absurd hc (by decide)
    rw [List.cons_append, lines]
    · rw [hc, if_neg (by decide), ih fun x hx => h x (List.mem_cons_of_mem _ hx)]
      rfl
    · intro _ hcr'
      exact absurd hcr' hcr

theorem lines_newline (rest : List Char) : lines ('\n' :: rest) = [] :: lines rest := by
  rw [lines]
  · rw [if_pos (by decide)]
  · intro _ hcr
    cases hcr

theorem OneLine.lines_append {line : List Char} (h : OneLine line) (rest : List Char) :
    lines (line ++ '\n' :: rest) = line :: lines rest :=
  h.lines_append_of_break (lines_newline rest)

end ClassReference.Text
