import ClassReference.Proofs.LinkDivision

/-!
# Proofs: markup and the text that is seen

Markup reaches from a `<` to the next `>`. Where it is taken away, no `<` is left with a `>` behind
it (`Text.markupFree_stripMarkup`), and the laws of taking it away leave no choice
(`Text.takesMarkup_iff`). A hyperlink is its label between two pieces of markup, so that the long
form of a text without markup of its own shows what the plain form says
(`Expansion.strip_long_eq_plain`).
-/

namespace ClassReference

namespace Text

/-- No `<` in the text has a `>` behind it. -/
def MarkupFree (s : List Char) : Prop :=
  ∀ a b, s = a ++ '<' :: b → '>' ∉ b

/-- The text has no `<` and no `>` in it. -/
structure Unmarked (s : List Char) : Prop where
  noOpening : '<' ∉ s
  noClosing : '>' ∉ s

theorem Unmarked.of_subset {s t : List Char} (h : Unmarked t) (hs : s ⊆ t) : Unmarked s :=
  ⟨fun hmem => h.noOpening (hs hmem), fun hmem => h.noClosing (hs hmem)⟩

theorem Unmarked.append {s t : List Char} (hs : Unmarked s) (ht : Unmarked t) : Unmarked (s ++ t) :=
  ⟨fun h => (List.mem_append.mp h).elim hs.noOpening ht.noOpening,
    fun h => (List.mem_append.mp h).elim hs.noClosing ht.noClosing⟩

/-! ## Taking markup away -/

theorem stripMarkup_cons {c : Char} (h : c ≠ '<') (s : List Char) :
    stripMarkup (c :: s) = c :: stripMarkup s := by
  rw [stripMarkup, if_neg h]

theorem stripMarkup_tag {x : List Char} (h : '>' ∉ x) (s : List Char) :
    stripMarkup ('<' :: (x ++ '>' :: s)) = stripMarkup s := by
  rw [stripMarkup, if_pos rfl]
  split
  · rename_i hcut
    rw [cutFirst_append h, Prod.mk.injEq, Option.some.injEq] at hcut
    rw [hcut.2]
  · rename_i hcut
    rw [cutFirst_append h] at hcut
    cases hcut

theorem stripMarkup_append {u : List Char} (h : '<' ∉ u) (s : List Char) :
    stripMarkup (u ++ s) = u ++ stripMarkup s := by
  induction u with
  | nil => rfl
  | cons c u ih =>
    rw [List.mem_cons, not_or] at h
    rw [List.cons_append, stripMarkup_cons (Ne.symm h.1), ih h.2, List.cons_append]

theorem stripMarkup_of_not_mem {s : List Char} (h : '<' ∉ s) : stripMarkup s = s := by
  have happend := stripMarkup_append h []
  rwa [List.append_nil, stripMarkup, List.append_nil] at happend

theorem MarkupFree.cons {s : List Char} (h : MarkupFree s) {c : Char} (hc : c ≠ '<') :
    MarkupFree (c :: s) := by
  intro a b heq
  cases a with
  | nil => exact absurd (List.cons.inj heq).1 hc
  | cons x a => exact h a b (List.cons.inj heq).2

theorem markupFree_of_not_mem {s : List Char} (h : '>' ∉ s) : MarkupFree s := by
  rintro a b rfl hmem
  exact h (by simp [hmem])

theorem MarkupFree.take {s : List Char} (h : MarkupFree s) (n : Nat) : MarkupFree (s.take n) := by
  intro a b heq hmem
  refine h a (b ++ s.drop n) ?_ (List.mem_append_left _ hmem)
  rw [← List.cons_append, ← List.append_assoc, ← heq, List.take_append_drop]

theorem not_mem_of_cutFirst {d : Char} {s before : List Char} (h : cutFirst d s = (before, none)) :
    d ∉ s := by
  rcases cutFirst_cases d s with ⟨hfree, -⟩ | ⟨_, _, -, -, hsome⟩
  · exact hfree
  · rw [h] at hsome
    cases hsome

theorem exists_of_cutFirst {d : Char} {s before after : List Char}
    (h : cutFirst d s = (before, some after)) : d ∉ before ∧ s = before ++ d :: after := by
  rcases cutFirst_cases d s with ⟨-, hnone⟩ | ⟨a, b, hs, ha, hsome⟩
  · rw [h] at hnone
    cases hnone
  · rw [h, Prod.mk.injEq, Option.some.injEq] at hsome
    obtain ⟨rfl, rfl⟩ := hsome
    exact ⟨ha, hs⟩

/-- A text without its markup has no markup in it. -/
theorem markupFree_stripMarkup (s : List Char) : MarkupFree (stripMarkup s) := by
  fun_induction stripMarkup s with
  | case1 => exact markupFree_of_not_mem (by simp)
  | case2 rest before after hcut ih => exact ih
  | case3 rest before hcut =>
    -- what is left begins with a `<` that nothing closes
    exact markupFree_of_not_mem (by simp [not_mem_of_cutFirst hcut])
  | case4 c rest hc ih => exact ih.cons hc

theorem MarkupFree.stripMarkup_eq {s : List Char} (h : MarkupFree s) : stripMarkup s = s := by
  fun_induction stripMarkup s with
  | case1 => rfl
  | case2 rest before after hcut ih =>
    have hclosed : '>' ∈ rest := by
      rw [(exists_of_cutFirst hcut).2]
      simp
    exact absurd hclosed (h [] rest rfl)
  | case3 rest before hcut => rfl
  | case4 c rest hc ih =>
    have hrest : MarkupFree rest := by
      intro a b heq
      exact h (c :: a) b (by rw [heq, List.cons_append])
    rw [ih hrest]

/-- Markup is found at the first `<`, and reaches to the next `>`. -/
theorem exists_tag {s : List Char} (h : ¬ MarkupFree s) :
    ∃ u x v, '<' ∉ u ∧ '>' ∉ x ∧ s = u ++ '<' :: (x ++ '>' :: v) := by
  unfold MarkupFree at h
  push Not at h
  obtain ⟨a, b, rfl, hb⟩ := h
  obtain ⟨u, rest, heq, hu⟩ := List.eq_append_cons_of_mem (show '<' ∈ a ++ '<' :: b by simp)
  -- the first `<` is the one that was given, or stands before it
  have hrest : '>' ∈ rest := by
    obtain ⟨k, rfl, hk⟩ := exists_append_of_not_mem hu heq.symm
    cases k with
    | nil =>
      obtain rfl := (List.cons.inj hk).2
      exact hb
    | cons c k =>
      obtain rfl := (List.cons.inj hk).2
      simp [hb]
  obtain ⟨x, v, rfl, hx⟩ := List.eq_append_cons_of_mem hrest
  exact ⟨u, x, v, hu, hx, heq⟩

/-- What is asked of a function that takes the markup out of texts. -/
structure TakesMarkup (f : List Char → List Char) : Prop where
  /-- No markup is left. -/
  free : ∀ s, MarkupFree (f s)
  /-- So there is nothing to do a second time. -/
  idempotent : ∀ s, f (f s) = f s
  /-- A text without markup is left as it is. -/
  kept : ∀ s, MarkupFree s → f s = s
  /-- The first piece of markup goes, what is before it stays, and what is behind it is treated in
  the same way. -/
  removed : ∀ u x v, '<' ∉ u → '>' ∉ x → f (u ++ '<' :: (x ++ '>' :: v)) = u ++ f v

theorem takesMarkup_stripMarkup : TakesMarkup stripMarkup where
  free := markupFree_stripMarkup
  idempotent s := (markupFree_stripMarkup s).stripMarkup_eq
  kept _ h := h.stripMarkup_eq
  removed u x v hu hx := by rw [stripMarkup_append hu, stripMarkup_tag hx]

theorem TakesMarkup.eq_stripMarkup {f : List Char → List Char} (h : TakesMarkup f) (s : List Char) :
    f s = stripMarkup s := by
  by_cases hfree : MarkupFree s
  · rw [h.kept s hfree, hfree.stripMarkup_eq]
  · obtain ⟨u, x, v, hu, hx, rfl⟩ := exists_tag hfree
    rw [h.removed u x v hu hx, takesMarkup_stripMarkup.removed u x v hu hx, h.eq_stripMarkup v]
termination_by s.length
decreasing_by
  subst_vars
  simp
  omega

/-- Markup is taken out as is asked for, and there is no other function that does so. -/
theorem takesMarkup_iff (f : List Char → List Char) : TakesMarkup f ↔ f = stripMarkup := by
  constructor
  · intro h
    funext s
    exact h.eq_stripMarkup s
  · rintro rfl
    exact takesMarkup_stripMarkup

end Text

open Text

/-! ## Links -/

theorem Text.splitWord_subset {content target label : List Char}
    (h : splitWord content = (target, label)) : target ⊆ content ∧ label ⊆ content := by
  have htrimEnd := trimEnd_prefix (trimStart content)
  have htrim : trim content ⊆ content :=
    List.Subset.trans htrimEnd.subset (List.dropWhile_suffix _).subset
  obtain ⟨rfl, rfl⟩ := Prod.mk.inj h
  refine ⟨List.Subset.trans (List.takeWhile_prefix _).subset htrim, ?_⟩
  exact List.Subset.trans (List.dropWhile_suffix _).subset
    (List.Subset.trans (List.dropWhile_suffix _).subset htrim)

/-- A link is made of the text between its braces, the class at hand and a dot. -/
theorem Link.unmarked_read? {content : List Char} {currentClass : String} {link : Link}
    (h : Link.read? content currentClass = some link) (hcontent : Unmarked content)
    (hclass : Unmarked currentClass.toList) :
    Unmarked link.label.toList ∧ Unmarked link.className.toList ∧
      ∀ name ∈ link.memberName, Unmarked name.toList := by
  rcases hsplit : splitWord content with ⟨target, label⟩
  obtain ⟨htarget, hlabel⟩ := splitWord_subset hsplit
  replace htarget : Unmarked target := hcontent.of_subset htarget
  replace hlabel : Unmarked label := hcontent.of_subset hlabel
  have hlabelOr : ∀ {other : List Char}, Unmarked other →
      Unmarked (if label.isEmpty then other else label) := by
    intro other hother
    split
    · exact hother
    · exact hlabel
  simp only [read?, hsplit] at h
  split at h
  · cases h
  rcases cutFirst_cases '#' target with ⟨-, hcut⟩ | ⟨owner, name, rfl, -, hcut⟩
  · rw [hcut] at h
    cases h
    exact ⟨by simpa using hlabelOr htarget, by simpa using htarget, by simp⟩
  · have howner : Unmarked owner := htarget.of_subset (List.subset_append_left owner _)
    have hname : Unmarked name := htarget.of_subset (by simp)
    rw [hcut] at h
    cases owner with
    | nil =>
      cases h
      exact ⟨by simpa using hlabelOr hname, hclass, by simpa using hname⟩
    | cons c owner =>
      cases h
      have hdot : Unmarked ['.'] := ⟨by decide, by decide⟩
      have hdotted : Unmarked (c :: owner ++ '.' :: name) := howner.append (hdot.append hname)
      exact ⟨by simpa using hlabelOr hdotted, by simpa using howner, by simpa using hname⟩

/-- A hyperlink is its label between two pieces of markup. -/
theorem Link.render_eq {style : LinkStyle} {link : Link}
    (hpage : Unmarked style.pageExtension.toList) (hclass : Unmarked link.className.toList)
    (hmember : ∀ name ∈ link.memberName, Unmarked name.toList) :
    ∃ attributes, '>' ∉ attributes ∧
      (link.render style).toList =
        '<' :: (attributes ++ '>' :: (link.label.toList ++ '<' :: ("/a".toList ++ ['>']))) := by
  unfold Link.render pageName anchorName
  cases hname : link.memberName with
  | none =>
    refine ⟨"a href=\"".toList ++ (link.className.toList ++ '.' :: style.pageExtension.toList) ++
      "\" data-cls=\"".toList ++ link.className.toList ++ ['"'], ?_, by simp⟩
    simp [hpage.noClosing, hclass.noClosing]
  | some name =>
    have hname := hmember name hname
    refine ⟨"a href=\"".toList ++ (link.className.toList ++ '.' :: style.pageExtension.toList) ++
      '#' :: (link.className.toList ++ '-' :: name.toList) ++ "\" data-cls=\"".toList ++
      link.className.toList ++
      "\" data-member=\"".toList ++ name.toList ++ ['"'], ?_, by simp⟩
    simp [hpage.noClosing, hclass.noClosing, hname.noClosing]

theorem LinkedText.unmarked_written {content : List Char} (h : Unmarked content) :
    Unmarked (written content) :=
  ((⟨by decide, by decide⟩ : Unmarked marker).append h).append ⟨by decide, by decide⟩

/-- In the place of a link, the long form shows what the plain form says. -/
theorem Link.Expands.strip {style : LinkStyle} {currentClass : String}
    {content long plain : List Char} (h : Link.Expands style currentClass content long plain)
    (hcontent : Unmarked content) (hclass : Unmarked currentClass.toList)
    (hpage : Unmarked style.pageExtension.toList) :
    Unmarked plain ∧ ∀ s, stripMarkup (long ++ s) = plain ++ stripMarkup s := by
  cases h with
  | blank _ =>
    have hwritten := LinkedText.unmarked_written hcontent
    exact ⟨hwritten, fun s => stripMarkup_append hwritten.noOpening s⟩
  | @link link _ hread =>
    obtain ⟨hlabel, hname, hmember⟩ := Link.unmarked_read? hread hcontent hclass
    obtain ⟨attributes, hattributes, hrender⟩ := Link.render_eq hpage hname hmember
    refine ⟨hlabel, fun s => ?_⟩
    calc stripMarkup ((link.render style).toList ++ s)
        = stripMarkup ('<' :: (attributes ++
            '>' :: (link.label.toList ++ '<' :: ("/a".toList ++ '>' :: s)))) := by
          rw [hrender]
          simp
      _ = stripMarkup (link.label.toList ++ '<' :: ("/a".toList ++ '>' :: s)) :=
          stripMarkup_tag hattributes _
      _ = link.label.toList ++ stripMarkup ('<' :: ("/a".toList ++ '>' :: s)) :=
          stripMarkup_append hlabel.noOpening _
      _ = link.label.toList ++ stripMarkup s := by rw [stripMarkup_tag (by decide)]

/-! ## Texts -/

namespace LinkedText

theorem unmarked_parts {t : LinkedText} {text : List Char} (h : t.Divides text)
    (htext : Unmarked text) :
    (∀ part ∈ t.links, Unmarked part.1 ∧ Unmarked part.2) ∧ Unmarked t.rest := by
  have hpart : ∀ part ∈ t.links, part.1 ++ written part.2 ⊆ text := by
    intro part hpart c hc
    rw [← h.joined]
    exact List.mem_append_left _ (List.mem_flatMap.mpr ⟨part, hpart, hc⟩)
  have hrest : t.rest ⊆ text := by
    rw [← h.joined]
    exact List.subset_append_right _ _
  refine ⟨fun part hmem => ⟨htext.of_subset fun c hc => ?_, htext.of_subset fun c hc => ?_⟩,
    htext.of_subset hrest⟩
  · exact hpart part hmem (by simp [hc])
  · exact hpart part hmem (by simp [written, hc])

theorem unmarked_join {t : LinkedText} {shown : List Char → List Char}
    (hparts : ∀ part ∈ t.links, Unmarked part.1 ∧ Unmarked (shown part.2))
      (hrest : Unmarked t.rest) :
    Unmarked (t.join shown) := by
  obtain ⟨links, rest⟩ := t
  induction links with
  | nil => exact hrest
  | cons part links ih =>
    obtain ⟨⟨hbefore, hshown⟩, hparts⟩ := List.forall_mem_cons.mp hparts
    rw [join_cons]
    exact (hbefore.append hshown).append (ih hparts hrest)

/-- If markup is taken away in the place of each link, it is taken away in all of the text. -/
theorem stripMarkup_join {t : LinkedText} {long plain : List Char → List Char}
    (hparts : ∀ part ∈ t.links, Unmarked part.1 ∧
      ∀ s, stripMarkup (long part.2 ++ s) = plain part.2 ++ stripMarkup s)
    (hrest : Unmarked t.rest) : stripMarkup (t.join long) = t.join plain := by
  obtain ⟨links, rest⟩ := t
  induction links with
  | nil => exact stripMarkup_of_not_mem hrest.noOpening
  | cons part links ih =>
    obtain ⟨⟨hbefore, hshown⟩, hparts⟩ := List.forall_mem_cons.mp hparts
    rw [join_cons, join_cons, List.append_assoc, stripMarkup_append hbefore.noOpening, hshown,
      ih hparts hrest, List.append_assoc]

end LinkedText

/-- If there is no markup in a text, the class at hand and the extension of pages, then the long
form without its markup is the plain form, which has no markup in it. So the summary of the text is
that of what the long form shows. -/
theorem Expansion.strip_long_eq_plain (style : LinkStyle) (text currentClass : String)
    (htext : Unmarked text.toList) (hclass : Unmarked currentClass.toList)
    (hpage : Unmarked style.pageExtension.toList) :
    stripMarkup (ofText style text currentClass).value.long.toList =
        (ofText style text currentClass).value.plain.toList ∧
      Unmarked (ofText style text currentClass).value.plain.toList ∧
      ∀ always, (Description.ofText style (some text) currentClass always).value =
        ⟨(ofText style text currentClass).value.long, Description.summary? style
          (String.ofList (stripMarkup (ofText style text currentClass).value.long.toList))
            always⟩ := by
  obtain ⟨hparts, hrest⟩ := LinkedText.unmarked_parts (LinkedText.divides_read text.toList) htext
  have hshown := fun content hcontent =>
    (Link.expands_read? style currentClass content).strip hcontent hclass hpage
  have hstrip : stripMarkup (ofText style text currentClass).value.long.toList =
      (ofText style text currentClass).value.plain.toList := by
    simp only [value_ofText, String.toList_ofList, LinkedText.replace_eq_join]
    exact LinkedText.stripMarkup_join
      (fun part hpart => ⟨(hparts part hpart).1, (hshown _ (hparts part hpart).2).2⟩) hrest
  refine ⟨hstrip, ?_, fun always => ?_⟩
  · simp only [value_ofText, String.toList_ofList, LinkedText.replace_eq_join]
    exact LinkedText.unmarked_join
      (fun part hpart => ⟨(hparts part hpart).1, (hshown _ (hparts part hpart).2).1⟩) hrest
  · rw [hstrip, String.ofList_toList, Description.value_ofText, value_ofText]
    rfl

theorem Expansion.mixedLinks_shown :
    Unmarked mixedLinks.toList ∧ Unmarked "K".toList ∧
    Unmarked ({} : LinkStyle).pageExtension.toList ∧
      stripMarkup (ofText {} mixedLinks "K").value.long.toList =
        "See it or A, \x7b@link \x7d and \x7b@link B".toList ∧
      (Description.ofText { limit := 9 } (some mixedLinks) "K").value.short =
        some "See it or..." := by
  have htext : Unmarked mixedLinks.toList := ⟨by decide +kernel, by decide +kernel⟩
  have hclass : Unmarked "K".toList := ⟨by decide, by decide⟩
  have hpage : Unmarked "html".toList := ⟨by decide, by decide⟩
  have hplain :
      (ofText {} mixedLinks "K").value.plain = "See it or A, \x7b@link \x7d and \x7b@link B" := by
    decide +kernel
  refine ⟨htext, hclass, hpage, ?_, ?_⟩
  · rw [(strip_long_eq_plain {} mixedLinks "K" htext hclass hpage).1, hplain]
  · rw [(strip_long_eq_plain { limit := 9 } mixedLinks "K" htext hclass hpage).2.2]
    decide +kernel

end ClassReference
