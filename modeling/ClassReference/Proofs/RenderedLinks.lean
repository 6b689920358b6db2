import ClassReference.Proofs.InlineLinks

/-!
# Proofs: links as they are seen from a class

A link that names a member alone leads to that member of the class whose description it stands in;
every other link leads to the same place from everywhere. So the long form of a text depends on the
class from which it is seen (`LinkedText.SeenFrom`), and a description is the text as it is seen
from the class that it was made for (`Description.seenFrom_ofText`).
-/

namespace ClassReference

open Text

/-- What an inline link with the given content is replaced by, as it is seen from a class. -/
inductive Link.Seen (style : LinkStyle) (owner : String) : (content shown : List Char) → Prop where
  /-- A link to a member alone leads to this member of the class. -/
  | member {content name label : List Char} (h : splitWord content = ('#' :: name, label)) :
      Seen style owner content (Link.render style
        ⟨owner, some (String.ofList name), String.ofList
          (if label.isEmpty then name else label)⟩).toList
  /-- Any other link leads to the same place from every class. -/
  | elsewhere {content : List Char} {link : Link}
      (h : ∀ current, Link.read? content current = some link) :
      Seen style owner content (link.render style).toList
  /-- A blank link is none. -/
  | blank {content : List Char} (h : AllBlank content) :
      Seen style owner content (LinkedText.marker ++ content ++ ['}'])

/-- A text, and what it becomes when its inline links are seen from a class. A link reaches from the
first opening to the first closing brace behind it. -/
inductive LinkedText.SeenFrom (style : LinkStyle) (owner : String) :
    (text long : List Char) → Prop where
  /-- No link that was opened is closed. -/
  | unlinked {text : List Char}
      (h : ∀ before inside, text = before ++ marker ++ inside → '}' ∉ inside) :
      SeenFrom style owner text text
  /-- The first link is followed by the rest of the text. -/
  | link {before content shown rest long : List Char}
      (hfirst : ¬ marker <:+: before ++ marker.dropLast)
      (hcontent : '}' ∉ content) (hshown : Link.Seen style owner content shown)
      (hrest : SeenFrom style owner rest long) :
      SeenFrom style owner (before ++ marker ++ (content ++ '}' :: rest)) (before ++ shown ++ long)

/-- What is put in the place of a link is what is seen of it from the class that it is read for. -/
theorem Link.seen_read? (style : LinkStyle) (owner : String) (content : List Char) :
    Seen style owner content
      (((Link.read? content owner).map fun link => (link.render style).toList).getD
      (LinkedText.marker ++ content ++ ['}'])) := by
  by_cases hblank : AllBlank content
  · rw [read?_eq_none_iff.mpr hblank]
    exact .blank hblank
  rcases hsplit : splitWord content with ⟨target, label⟩
  -- a link that is not blank has a target
  have htarget : target ≠ [] := by
    rintro rfl
    have hread : read? content owner = none := by simp [read?, hsplit]
    exact hblank (read?_eq_none_iff.mp hread)
  rcases cutFirst_cases '#' target with ⟨-, hcut⟩ | ⟨class_, name, rfl, -, hcut⟩
  · have hread : ∀ current, read? content current =
        some ⟨String.ofList target, none, String.ofList
          (if label.isEmpty then target else label)⟩ := by
      intro current
      simp [read?, hsplit, htarget, hcut]
    rw [hread]
    exact .elsewhere hread
  · cases class_ with
    | nil =>
      have hread : read? content owner =
          some ⟨owner, some (String.ofList name), String.ofList
            (if label.isEmpty then name else label)⟩ := by
        simp only [read?, hsplit, hcut]
        rfl
      rw [hread]
      exact .member hsplit
    | cons c class_ =>
      have hread : ∀ current, read? content current =
          some ⟨String.ofList (c :: class_), some (String.ofList name),
            String.ofList (if label.isEmpty then c :: class_ ++ '.' :: name else label)⟩ := by
        intro current
        simp only [read?, hsplit, hcut]
        rfl
      rw [hread]
      exact .elsewhere hread

/-- A text whose links are replaced for a class is the text as it is seen from this class. -/
theorem LinkedText.seenFrom_replace (style : LinkStyle) (owner : String) (text : List Char) :
    SeenFrom style owner text
      ((read text).replace (fun link => (link.render style).toList) owner) := by
  fun_induction read text with
  | case1 text hcut =>
    refine .unlinked fun before inside heq => ?_
    exact absurd ⟨before, inside, heq.symm⟩ (cut?_eq_none hcut)
  | case2 text before inside hcut content hinside =>
    obtain ⟨rfl, hfirst⟩ := cut?_eq_some (by decide) hcut
    have hopen : '}' ∉ marker ++ inside := by
      rcases cutFirst_cases '}' inside with ⟨hfree, -⟩ | ⟨_, _, -, -, hsome⟩
      · exact fun hmem => (List.mem_append.mp hmem).elim (by decide) hfree
      · rw [hinside] at hsome
        cases hsome
    -- a link that is opened later is not closed either
    refine .unlinked fun before' inside' heq hmem => hopen ?_
    obtain ⟨k, rfl⟩ := prefix_of_first hfirst heq
    rw [List.append_assoc, List.append_assoc, List.append_assoc, List.append_cancel_left_eq] at heq
    rw [heq]
    simp [hmem]
  | case3 text before inside hcut content after hinside more ih =>
    obtain ⟨rfl, hfirst⟩ := cut?_eq_some (by decide) hcut
    rcases cutFirst_cases '}' inside with ⟨-, hnone⟩ | ⟨content', after', rfl, hcontent, hsome⟩
    · rw [hinside] at hnone
      cases hnone
    rw [hinside, Prod.mk.injEq, Option.some.injEq] at hsome
    obtain ⟨rfl, rfl⟩ := hsome
    rw [replace_cons]
    exact .link hfirst hcontent (Link.seen_read? style owner content) ih

/-- The long form of a description is its text as it is seen from the class that it was made for. -/
theorem Description.seenFrom_ofText (style : LinkStyle) (text : Option String) (owner : String)
    (always : Bool) :
    LinkedText.SeenFrom style owner (text.getD "").toList
      (ofText style text owner always).value.long.toList := by
  rw [value_ofText, String.toList_ofList]
  exact LinkedText.seenFrom_replace style owner _

end ClassReference
