/-!
# Cutting a text

Cutting at the first occurrence of a marker, at the first occurrence of a character, and at the
last.
-/

namespace ClassReference.Text

/-- What stands before and after the first occurrence of the marker, if it occurs. -/
def cut? (marker : List Char) : List Char → Option (List Char × List Char)
  | [] => if marker.isEmpty then some ([], []) else none
  | c :: rest =>
    if marker.isPrefixOf (c :: rest) then
      some ([], (c :: rest).drop marker.length)
    else
      (cut? marker rest).map fun p => (c :: p.1, p.2)

/-- What stands before and after the first occurrence of the character; `none` in second place if it
does not occur. -/
def cutFirst (d : Char) (s : List Char) : List Char × Option (List Char) :=
  match s.dropWhile (· != d) with
  | [] => (s, none)
  | _ :: after => (s.takeWhile (· != d), some after)

/-- What stands after a marker is shorter than the text, by at least the marker. -/
theorem length_of_cut? {marker s before after : List Char}
    (h : cut? marker s = some (before, after)) : after.length + marker.length ≤ s.length := by
  induction s generalizing before with
  | nil =>
    simp only [cut?] at h
    split at h
    · rename_i hm
      simp_all
    · simp at h
  | cons c rest ih =>
    simp only [cut?] at h
    split at h
    · rename_i hm
      have := (List.isPrefixOf_iff_prefix.mp hm).length_le
      simp only [Option.some.injEq, Prod.mk.injEq] at h
      rw [← h.2, List.length_drop]
      omega
    · obtain ⟨p, hp, he⟩ := Option.map_eq_some_iff.mp h
      simp only [Prod.mk.injEq] at he
      have := @ih p.1 (by rw [hp, ← he.2])
      simp only [List.length_cons]
      omega

/-- A text that is not cut holds no marker. -/
theorem cut?_eq_none {marker s : List Char} (h : cut? marker s = none) : ¬ marker <:+: s := by
  induction s with
  | nil =>
    simp only [cut?] at h
    split at h
    · cases h
    · rename_i hm
      rw [List.infix_nil]
      intro hnil
      exact hm (by rw [hnil]; rfl)
  | cons c rest ih =>
    simp only [cut?] at h
    split at h
    · cases h
    · rename_i hp
      rw [List.infix_cons_iff, not_or]
      exact ⟨fun hpre => hp (List.isPrefixOf_iff_prefix.mpr hpre), ih (Option.map_eq_none_iff.mp h)⟩

/-- A text is cut at the first marker: none ends before this one does. -/
theorem cut?_eq_some {marker s before after : List Char} (hm : marker ≠ [])
    (h : cut? marker s = some (before, after)) :
    s = before ++ marker ++ after ∧ ¬ marker <:+: before ++ marker.dropLast := by
  induction s generalizing before with
  | nil =>
    simp only [cut?, List.isEmpty_iff, if_neg hm] at h
    cases h
  | cons c rest ih =>
    simp only [cut?] at h
    split at h
    · rename_i hp
      obtain ⟨after', hafter⟩ := List.isPrefixOf_iff_prefix.mp hp
      simp only [Option.some.injEq, Prod.mk.injEq] at h
      obtain ⟨rfl, rfl⟩ := h
      refine ⟨by rw [← hafter]; simp, fun hin => ?_⟩
      have hle := hin.length_le
      have hpos := List.length_pos_iff.mpr hm
      simp only [List.nil_append, List.length_dropLast] at hle
      omega
    · rename_i hp
      obtain ⟨⟨before', after'⟩, hcut, he⟩ := Option.map_eq_some_iff.mp h
      simp only [Prod.mk.injEq] at he
      obtain ⟨rfl, rfl⟩ := he
      obtain ⟨hrest, hfirst⟩ := ih hcut
      refine ⟨by rw [hrest]; rfl, ?_⟩
      rw [List.cons_append, List.infix_cons_iff, not_or]
      refine ⟨fun hpre => hp (List.isPrefixOf_iff_prefix.mpr (hpre.trans ?_)), hfirst⟩
      rw [hrest, List.append_assoc, List.cons_prefix_cons]
      exact ⟨rfl, List.prefix_append_right_inj _ |>.mpr
        ((List.dropLast_prefix marker).trans (List.prefix_append marker after'))⟩

/-- What stands after a character is shorter than the text. -/
theorem length_of_cutFirst {d : Char} {s before after : List Char}
    (h : cutFirst d s = (before, some after)) : after.length < s.length := by
  unfold cutFirst at h
  split at h
  · simp at h
  · rename_i c rest hs
    simp only [Prod.mk.injEq, Option.some.injEq] at h
    have := (List.dropWhile_suffix (l := s) (· != d)).length_le
    rw [hs, List.length_cons, h.2] at this
    omega

/-- What stands before and after the last occurrence of the character; all of it stands after if the
character does not occur. -/
def cutLast (d : Char) (s : List Char) : List Char × List Char :=
  let after := (s.reverse.takeWhile (· != d)).reverse
  ((s.take (s.length - after.length)).dropLast, after)

/-- The segments of a text between the occurrences of the character. There is always one more
segment than there are occurrences. -/
def segments (d : Char) : List Char → List (List Char)
  | [] => [[]]
  | c :: rest =>
    if c = d then [] :: segments d rest
    else
      match segments d rest with
      | [] => [[c]]
      | s :: ss => (c :: s) :: ss

end ClassReference.Text
