import ClassReference.Description.Summary
import ClassReference.Proofs.TextParts

/-!
# Proofs: texts without inline links

Expanding the links of a text leaves it as it is exactly if no link is to be found in it, that is,
if there is only blank text between each opening of a link and the next closing brace
(`ofText_eq_iff`). A hyperlink starts with a character that the opening of a link does not start
with, so the text changes at its first link.
-/

namespace ClassReference

open Text

/-- There is only blank text between each opening of an inline link and the next closing brace. -/
def NoLinks (s : List Char) : Prop :=
  ∀ a content b, s = a ++ LinkedText.marker ++ content ++ '}' :: b → '}' ∉ content →
    AllBlank content

theorem noLinks_of_free {s : List Char} (h : ¬ LinkedText.marker <:+: s) : NoLinks s := by
  intro a content b heq _
  exact absurd ⟨a, content ++ '}' :: b, by rw [heq]; simp⟩ h

/-- What stands between the braces of a link is no link exactly if it is blank. -/
theorem Link.read?_eq_none_iff {content : List Char} {currentClass : String} :
    Link.read? content currentClass = none ↔ AllBlank content := by
  have hword : takeWord (trim content) = [] ↔ trim content = [] := by
    constructor
    · intro h
      cases ht : trim content with
      | nil => rfl
      | cons c t =>
        have hc : isBlank c = false := (trimmed_trim content).start c (by rw [ht]; rfl)
        rw [ht, takeWord, List.takeWhile_cons, if_pos (by rw [hc]; rfl)] at h
        cases h
    · intro h
      rw [h]
      rfl
  rw [← trim_eq_nil_iff, ← hword]
  unfold Link.read?
  simp only [splitWord, List.isEmpty_iff]
  split
  · rename_i h
    simp [h]
  · rename_i h
    simp only [h, iff_false]
    split <;> simp

namespace LinkedText

/-- The links of a text are the first one and those behind it. -/
theorem noLinks_cons_iff {before content after : List Char}
    (hfirst : ¬ marker <:+: before ++ marker.dropLast) (hcontent : '}' ∉ content) :
    NoLinks (before ++ marker ++ (content ++ '}' :: after)) ↔ AllBlank content ∧ NoLinks after := by
  constructor
  · intro h
    refine ⟨h before content after (by simp) hcontent, ?_⟩
    intro a c b hafter hc
    refine h (before ++ marker ++ (content ++ '}' :: a)) c b ?_ hc
    simp [hafter]
  · rintro ⟨hblank, hrest⟩ a c b heq hc
    have hsplit : before ++ marker ++ (content ++ '}' :: after) =
        a ++ marker ++ (c ++ '}' :: b) := by
      rw [heq, List.append_assoc]
    obtain ⟨k, rfl⟩ := prefix_of_first hfirst hsplit
    rw [List.append_assoc, List.append_assoc, List.append_assoc,
      List.append_cancel_left_eq] at hsplit
    cases k with
    | nil =>
      -- both are the first link
      have hcut := congrArg (cutFirst '}') (List.append_cancel_left hsplit)
      rw [cutFirst_append hcontent, cutFirst_append hc, Prod.mk.injEq] at hcut
      exact hcut.1 ▸ hblank
    | cons x k =>
      -- the opening brace of the other link stands behind the first link
      have hfree : '{' ∉ marker.tail ++ content ++ ['}'] := by
        simp only [List.mem_append, not_or]
        refine ⟨⟨by decide, ?_⟩, by decide⟩
        intro hmem
        exact absurd (hblank _ hmem) (by decide)
      have hopen : (marker.tail ++ content ++ ['}']) ++ after =
          k ++ '{' :: (marker.tail ++ (c ++ '}' :: b)) := by
        have htail := (List.cons.inj hsplit).2
        simpa [marker] using htail
      obtain ⟨k', -, hafter⟩ := exists_append_of_not_mem hfree hopen
      exact hrest k' c b (by rw [hafter]; simp [marker]) hc

/-- A link that is opened and not closed is none. -/
theorem noLinks_of_unclosed {before inside : List Char}
    (hfirst : ¬ marker <:+: before ++ marker.dropLast) (hinside : '}' ∉ inside) :
    NoLinks (before ++ marker ++ inside) := by
  intro a c b heq _
  have hsplit : before ++ marker ++ inside = a ++ marker ++ (c ++ '}' :: b) := by
    rw [heq, List.append_assoc]
  obtain ⟨k, rfl⟩ := prefix_of_first hfirst hsplit
  rw [List.append_assoc, List.append_assoc, List.append_assoc, List.append_cancel_left_eq] at hsplit
  have hmem : '}' ∈ marker ++ inside := by
    rw [hsplit]
    simp
  rcases List.mem_append.mp hmem with hmem | hmem
  · exact absurd hmem (by decide)
  · exact absurd hmem hinside

theorem replace_cons (before content : List Char) (more : LinkedText) (f : Link → List Char)
    (currentClass : String) :
    (LinkedText.mk ((before, content) :: more.links) more.rest).replace f currentClass =
      before ++ ((Link.read? content currentClass).map f).getD (marker ++ content ++ ['}']) ++
        more.replace f currentClass := by
  simp only [replace, List.flatMap_cons, List.append_assoc]
  cases Link.read? content currentClass <;> simp

/-- Either there is no link in a text, and no replacement changes it, or its first link is
replaced. -/
theorem replace_cases (s : List Char) (currentClass : String) :
    (NoLinks s ∧ ∀ f, (read s).replace f currentClass = s) ∨
      (¬ NoLinks s ∧ ∃ a y link, s = a ++ marker ++ y ∧
        ∀ f, ∃ x, (read s).replace f currentClass = a ++ f link ++ x) := by
  fun_induction read s with
  | case1 s hcut =>
    exact Or.inl ⟨noLinks_of_free (cut?_eq_none hcut), fun f => rfl⟩
  | case2 s before inside hcut content hinside =>
    obtain ⟨rfl, hfirst⟩ := cut?_eq_some (by decide) hcut
    rcases cutFirst_cases '}' inside with ⟨hfree, -⟩ | ⟨_, _, -, -, hsome⟩
    · exact Or.inl ⟨noLinks_of_unclosed hfirst hfree, fun f => rfl⟩
    · rw [hinside] at hsome
      cases hsome
  | case3 s before inside hcut content after hinside more ih =>
    obtain ⟨rfl, hfirst⟩ := cut?_eq_some (by decide) hcut
    rcases cutFirst_cases '}' inside with ⟨-, hnone⟩ | ⟨content', after', rfl, hcontent, hsome⟩
    · rw [hinside] at hnone
      cases hnone
    rw [hinside, Prod.mk.injEq, Option.some.injEq] at hsome
    obtain ⟨rfl, rfl⟩ := hsome
    simp only [replace_cons, noLinks_cons_iff hfirst hcontent]
    cases hlink : Link.read? content currentClass with
    | none =>
      have hblank := Link.read?_eq_none_iff.mp hlink
      rcases ih with ⟨hno, hsame⟩ | ⟨hlinks, a, y, link, hafter, hreplace⟩
      · refine Or.inl ⟨⟨hblank, hno⟩, fun f => ?_⟩
        rw [hsame f]
        simp
      · refine Or.inr
          ⟨fun h => hlinks h.2, before ++ marker ++ content ++ '}' :: a, y, link, ?_, fun f => ?_⟩
        · rw [hafter]
          simp
        · obtain ⟨x, hx⟩ := hreplace f
          exact ⟨x, by rw [hx]; simp⟩
    | some link =>
      refine Or.inr ⟨?_, before, _, link, rfl, fun f => ⟨_, rfl⟩⟩
      rintro ⟨hblank, -⟩
      rw [Link.read?_eq_none_iff.mpr hblank] at hlink
      cases hlink

end LinkedText

/-! ## Descriptions -/

theorem Link.render_eq_cons (style : LinkStyle) (link : Link) :
    ∃ rest, (link.render style).toList = '<' :: rest := by
  unfold Link.render
  cases link.memberName with
  | none => exact ⟨_, by simp only [String.toList_append]; rfl⟩
  | some name => exact ⟨_, by simp only [String.toList_append]; rfl⟩

namespace Description

theorem value_ofText (style : LinkStyle) (text : Option String) (currentClass : String)
    (always : Bool) :
    (ofText style text currentClass always).value =
      ⟨String.ofList
        ((LinkedText.read (text.getD "").toList).replace (fun link => (link.render style).toList)
          currentClass),
        summary? style
          (String.ofList
            ((LinkedText.read (text.getD "").toList).replace (fun link => link.label.toList)
          currentClass)) always⟩ := by
  simp only [ofText, Expansion.ofText, Logged.value_bind, Logged.value_pure, value_summarize]
  split <;> rfl

/-- The description of a text without links: the text itself, with its summary if it is long. -/
def plain (style : LinkStyle) (text : String) : Description where
  long := text
  short := summary? style text false

/-- A text is described by itself exactly if there is no link in it. -/
theorem ofText_eq_iff {style : LinkStyle} {text : List Char} {currentClass : String} :
    (ofText style (some (String.ofList text)) currentClass).value =
      plain style (String.ofList text) ↔
      NoLinks text := by
  rw [value_ofText, Option.getD_some, String.toList_ofList]
  rcases LinkedText.replace_cases text currentClass with ⟨hno, hsame⟩ | ⟨hlinks, a, y, link,
    htext, hreplace⟩
  · simp only [hno, iff_true, hsame]
    rfl
  · refine iff_of_false ?_ hlinks
    intro heq
    have hlong := String.ofList_injective (congrArg Description.long heq)
    obtain ⟨x, hx⟩ := hreplace fun link => (link.render style).toList
    obtain ⟨rest, hrest⟩ := link.render_eq_cons style
    -- the hyperlink stands where the link is opened
    rw [hx, htext, hrest, List.append_assoc, List.append_assoc] at hlong
    exact absurd (List.cons.inj (List.append_cancel_left hlong)).1 (by decide)

/-- Two copies of a text, one of them behind another text, do not go on with a character that the
other text does not have. -/
theorem append_cons_ne {a x p y : List Char} {c : Char} (hp : p ≠ []) (hc : c ∉ p) :
    a ++ c :: x ≠ p ++ a ++ y := by
  -- `p` is taken off the front of `a` again and again, until it is longer than what is left
  induction hn : a.length using Nat.strong_induction_on generalizing a with
  | _ n ih =>
    intro heq
    rw [List.append_assoc] at heq
    obtain ⟨a', rfl, hrest⟩ := exists_append_of_not_mem hc heq.symm
    have hlt : a'.length < n := by
      have hpos := List.length_pos_iff.mpr hp
      rw [List.length_append] at hn
      omega
    exact ih a'.length hlt rfl hrest.symm

/-- The description of a text is never the text behind another one, unless there is a hyperlink in
that one. -/
theorem long_ne_append {style : LinkStyle} {text p v : List Char} {currentClass : String}
    (hp : p ≠ []) (hlt : '<' ∉ p) :
    (ofText style (some (String.ofList text)) currentClass).value.long ≠
      String.ofList (p ++ text ++ v) := by
  rw [value_ofText, Option.getD_some, String.toList_ofList]
  intro heq
  have hlong := String.ofList_injective heq
  rcases LinkedText.replace_cases text currentClass with
    ⟨-, hsame⟩ | ⟨-, a, y, link, htext, hreplace⟩
  · have hpos := List.length_pos_iff.mpr hp
    have hlength := congrArg List.length hlong
    simp only [hsame, List.length_append] at hlength
    omega
  · obtain ⟨x, hx⟩ := hreplace fun link => (link.render style).toList
    obtain ⟨rest, hrest⟩ := link.render_eq_cons style
    rw [hx, hrest, htext] at hlong
    refine append_cons_ne (a := a) (x := rest ++ x) (y := LinkedText.marker ++ y ++ v) hp hlt ?_
    simpa using hlong

end Description

end ClassReference
