import ClassReference.Proofs.InlineLinks

/-!
# Proofs: a text is divided at its links in one way

The parts of a text are its links, each with the text before it, and the text behind the last link.
Three rules tell them apart: no link is opened in the text before a link, a link ends at the first
closing brace, and the first link that is opened behind the last one is never closed. Only one
division of a text keeps these rules (`LinkedText.Divides.eq_read`). Expanding the links of a text
replaces them and nothing else (`Expansion.replaces_links`).
-/

namespace ClassReference

open Text

namespace LinkedText

/-- A link with the given content as it is written. -/
def written (content : List Char) : List Char :=
  marker ++ content ++ ['}']

/-- The parts of a text one after the other, with something shown in the place of each link. -/
def join (shown : List Char → List Char) (t : LinkedText) : List Char :=
  t.links.flatMap (fun part => part.1 ++ shown part.2) ++ t.rest

/-- The parts are those of the given text. -/
structure Divides (t : LinkedText) (text : List Char) : Prop where
  /-- One after the other, the parts are the text. -/
  joined : t.join written = text
  /-- No link is opened in the text before a link. -/
  before : ∀ part ∈ t.links, ¬ marker <:+: part.1
  /-- A link ends at the first closing brace. -/
  content : ∀ part ∈ t.links, '}' ∉ part.2
  /-- Behind the last link, none is opened, or the first one that is opened is not closed. -/
  rest : ¬ marker <:+: t.rest ∨
    ∃ before inside, t.rest = before ++ marker ++ inside ∧ ¬ marker <:+: before ∧ '}' ∉ inside

@[simp] theorem join_cons (shown : List Char → List Char) (before content : List Char)
    (links : List (List Char × List Char)) (rest : List Char) :
    join shown ⟨(before, content) :: links, rest⟩ =
      before ++ shown content ++ join shown ⟨links, rest⟩ := by
  simp [join]

/-- The opening of a link cannot begin inside another one. -/
theorem free_append_dropLast {before : List Char} (h : ¬ marker <:+: before) :
    ¬ marker <:+: before ++ marker.dropLast := by
  induction before with
  | nil => decide
  | cons c before ih =>
    rw [List.infix_cons_iff, not_or] at h
    rw [List.cons_append, List.infix_cons_iff, not_or]
    refine ⟨fun hpre => h.1 ?_, ih h.2⟩
    -- the brace of the other opening is not among the characters that follow the first brace
    have hpre' : '{' :: marker.tail <+: c :: (before ++ marker.dropLast) := hpre
    obtain ⟨hc, htail⟩ := List.cons_prefix_cons.mp hpre'
    have hbefore : marker.tail <+: before :=
      prefix_of_prefix_append_cons (x := '{') (by decide) htail
    exact List.cons_prefix_cons.mpr ⟨hc, hbefore⟩

theorem free_of_append_dropLast {before : List Char} (h : ¬ marker <:+: before ++ marker.dropLast) :
    ¬ marker <:+: before :=
  fun hin => h (hin.trans (List.prefix_append before _).isInfix)

/-! ## Reading keeps the rules -/

theorem read_of_free {s : List Char} (h : ¬ marker <:+: s) : read s = ⟨[], s⟩ := by
  have hcut : cut? marker s = none := cut?_eq_none_of_free (by decide) h
  unfold read
  split
  · rfl
  · rename_i heq
    rw [hcut] at heq
    cases heq

theorem read_of_unclosed {before inside : List Char} (hbefore : ¬ marker <:+: before)
    (hinside : '}' ∉ inside) :
    read (before ++ marker ++ inside) = ⟨[], before ++ marker ++ inside⟩ := by
  have hcut := cut?_append (by decide) (free_append_dropLast hbefore) inside
  unfold read
  split
  · rfl
  · rename_i heq
    rw [hcut, Option.some.injEq, Prod.mk.injEq] at heq
    obtain ⟨rfl, rfl⟩ := heq
    split
    · rfl
    · rename_i hfirst
      rw [cutFirst_eq_none hinside] at hfirst
      cases hfirst

theorem read_link {before content : List Char} (hbefore : ¬ marker <:+: before)
    (hcontent : '}' ∉ content) (after : List Char) :
    read (before ++ written content ++ after) =
      ⟨(before, content) :: (read after).links, (read after).rest⟩ := by
  have htext : before ++ written content ++ after =
      before ++ marker ++ (content ++ '}' :: after) := by
    simp [written]
  have hcut := cut?_append (by decide) (free_append_dropLast hbefore) (content ++ '}' :: after)
  rw [htext, read]
  split
  · rename_i heq
    rw [hcut] at heq
    cases heq
  · rename_i heq
    rw [hcut, Option.some.injEq, Prod.mk.injEq] at heq
    obtain ⟨rfl, rfl⟩ := heq
    split
    · rename_i hfirst
      rw [cutFirst_append hcontent] at hfirst
      cases hfirst
    · rename_i hfirst
      rw [cutFirst_append hcontent, Prod.mk.injEq, Option.some.injEq] at hfirst
      obtain ⟨rfl, rfl⟩ := hfirst
      rfl

theorem divides_read (text : List Char) : (read text).Divides text := by
  fun_induction read text with
  | case1 text hcut =>
    exact ⟨rfl, by simp, by simp, Or.inl (cut?_eq_none hcut)⟩
  | case2 text before inside hcut content hinside =>
    obtain ⟨rfl, hfirst⟩ := cut?_eq_some (by decide) hcut
    have hopen : '}' ∉ inside := by
      rcases cutFirst_cases '}' inside with ⟨hfree, -⟩ | ⟨_, _, -, -, hsome⟩
      · exact hfree
      · rw [hinside] at hsome
        cases hsome
    exact ⟨rfl, by simp, by simp, Or.inr ⟨before, inside, rfl,
      free_of_append_dropLast hfirst, hopen⟩⟩
  | case3 text before inside hcut content after hinside more ih =>
    obtain ⟨rfl, hfirst⟩ := cut?_eq_some (by decide) hcut
    rcases cutFirst_cases '}' inside with ⟨-, hnone⟩ | ⟨content', after', rfl, hcontent, hsome⟩
    · rw [hinside] at hnone
      cases hnone
    rw [hinside, Prod.mk.injEq, Option.some.injEq] at hsome
    obtain ⟨rfl, rfl⟩ := hsome
    refine ⟨?_, ?_, ?_, ih.rest⟩
    · rw [join_cons, ih.joined]
      simp [written]
    · exact List.forall_mem_cons.mpr ⟨free_of_append_dropLast hfirst, ih.before⟩
    · exact List.forall_mem_cons.mpr ⟨hcontent, ih.content⟩

/-- The parts that keep the rules are those that are read. -/
theorem Divides.eq_read {t : LinkedText} {text : List Char} (h : t.Divides text) :
    t = read text := by
  obtain ⟨links, rest⟩ := t
  obtain ⟨rfl, hbefore, hcontent, hrest⟩ := h
  induction links with
  | nil =>
    rcases hrest with hfree | ⟨before, inside, rfl, hfree, hinside⟩
    · exact (read_of_free hfree).symm
    · exact (read_of_unclosed hfree hinside).symm
  | cons part links ih =>
    obtain ⟨before, content⟩ := part
    obtain ⟨hbefore, hbefores⟩ := List.forall_mem_cons.mp hbefore
    obtain ⟨hcontent, hcontents⟩ := List.forall_mem_cons.mp hcontent
    rw [join_cons, read_link hbefore hcontent, ← ih hbefores hcontents hrest]

/-! ## Expanding replaces the links -/

theorem replace_eq_join (f : Link → List Char) (currentClass : String) (t : LinkedText) :
    t.replace f currentClass =
      t.join fun content => ((Link.read? content currentClass).map f).getD (written content) := by
  obtain ⟨links, rest⟩ := t
  induction links with
  | nil => rfl
  | cons part links ih =>
    rw [replace_cons part.1 part.2 ⟨links, rest⟩, ih, join_cons]
    rfl

end LinkedText

/-- What stands in the place of a link with the given content, in the form with hyperlinks and in
the plain form. -/
inductive Link.Expands (style : LinkStyle) (currentClass : String) :
    (content long plain : List Char) → Prop where
  /-- A link is a hyperlink in one form and its label in the other. -/
  | link {content : List Char} {link : Link} (hcontent : ∃ c ∈ content, isBlank c = false)
      (hread : Link.read? content currentClass = some link) :
      Expands style currentClass content (link.render style).toList link.label.toList
  /-- A blank link stays as it is written. -/
  | blank {content : List Char} (hcontent : AllBlank content) :
      Expands style currentClass content (LinkedText.written content) (LinkedText.written content)

theorem Link.expands_read? (style : LinkStyle) (currentClass : String) (content : List Char) :
    Expands style currentClass content
      (((Link.read? content currentClass).map fun link => (link.render style).toList).getD
        (LinkedText.written content))
      (((Link.read? content currentClass).map fun link => link.label.toList).getD
        (LinkedText.written content)) := by
  cases hread : Link.read? content currentClass with
  | none => exact .blank (read?_eq_none_iff.mp hread)
  | some link =>
    have hcontent : ¬ AllBlank content := by
      intro hblank
      rw [read?_eq_none_iff.mpr hblank] at hread
      cases hread
    rw [AllBlank] at hcontent
    push Not at hcontent
    exact .link (by simpa using hcontent) hread

namespace Expansion

theorem value_ofText (style : LinkStyle) (text currentClass : String) :
    (ofText style text currentClass).value =
      ⟨String.ofList ((LinkedText.read text.toList).replace
          (fun link => (link.render style).toList) currentClass),
        String.ofList ((LinkedText.read text.toList).replace
          (fun link => link.label.toList) currentClass)⟩ := by
  simp only [ofText]
  split <;> rfl

/-- A text has one division into links and the text around them. Expanding its links replaces each
of them by the hyperlink in the long form and by its label in the plain form, keeps blank links as
they are written, and leaves all text around the links as it is. -/
theorem replaces_links (style : LinkStyle) (text currentClass : String) :
    (∃! t : LinkedText, t.Divides text.toList) ∧
      ∀ t : LinkedText, t.Divides text.toList →
        ∃ long plain : List Char → List Char,
          (∀ content, Link.Expands style currentClass content (long content) (plain content)) ∧
          (ofText style text currentClass).value =
            ⟨String.ofList (t.join long), String.ofList (t.join plain)⟩ := by
  refine ⟨⟨_, LinkedText.divides_read text.toList, fun t ht => ht.eq_read⟩, fun t ht => ?_⟩
  refine ⟨_, _, Link.expands_read? style currentClass, ?_⟩
  rw [value_ofText, ht.eq_read, LinkedText.replace_eq_join, LinkedText.replace_eq_join]

/-- A text with a link that has a label, a link without one, a blank link and a link that is not
closed. -/
def mixedLinks : String :=
  "See \x7b@link #run it\x7d or \x7b@link A\x7d, \x7b@link \x7d and \x7b@link B"

/-- Its parts. -/
def mixedParts : LinkedText where
  links := [("See ".toList, " #run it".toList), (" or ".toList, " A".toList),
    (", ".toList, " ".toList)]
  rest := " and \x7b@link B".toList

theorem mixedLinks_replaced :
    mixedParts.Divides mixedLinks.toList ∧
      (∃ long plain : List Char → List Char,
        (∀ content, Link.Expands {} "K" content (long content) (plain content)) ∧
        (ofText {} mixedLinks "K").value =
          ⟨String.ofList (mixedParts.join long), String.ofList (mixedParts.join plain)⟩) ∧
      (ofText {} mixedLinks "K").value =
        ⟨"See <a href=\"K.html#K-run\" data-cls=\"K\" data-member=\"run\">it</a> or " ++
            "<a href=\"A.html\" data-cls=\"A\">A</a>, \x7b@link \x7d and \x7b@link B",
          "See it or A, \x7b@link \x7d and \x7b@link B"⟩ := by
  have hparts : mixedParts.Divides mixedLinks.toList := by
    refine ⟨by decide +kernel, by decide +kernel, by decide +kernel, Or.inr ⟨" and ".toList,
      " B".toList, ?_⟩⟩
    decide +kernel
  exact ⟨hparts, (replaces_links {} mixedLinks "K").2 mixedParts hparts, by decide +kernel⟩

end Expansion

end ClassReference
