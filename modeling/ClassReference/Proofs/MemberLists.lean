import ClassReference.Hierarchy.Inheritance
import Mathlib.Data.List.Nodup
import Mathlib.Data.String.Basic

/-!
# Proofs: lists of members

Members come in four kinds, and whatever is done to the members of a class is done kind by kind. The
members that a class has are gathered along its ancestors (`gather`) and then listed: by name, then
by the class that declares them, and those that agree in both in the order in which they were
gathered.
-/

namespace ClassReference

/-! ## Kinds of members -/

/-- A kind of members. -/
inductive MemberKind where
  | cfg
  | property
  | method
  | event
deriving DecidableEq, Repr

/-- What only members of a kind have. -/
def MemberKind.Detail : MemberKind → Type
  | cfg => CfgDetail
  | property => PropertyDetail
  | method => MethodDetail
  | event => EventDetail

namespace Members

/-- The members of a kind. -/
def ofKind (ms : Members) : (k : MemberKind) → List (Member k.Detail)
  | .cfg => ms.cfgs
  | .property => ms.properties
  | .method => ms.methods
  | .event => ms.events

theorem ext_ofKind {a b : Members} (h : ∀ k, a.ofKind k = b.ofKind k) : a = b := by
  obtain ⟨h1, h2, h3, h4⟩ : a.cfgs = b.cfgs ∧ a.properties = b.properties ∧ a.methods = b.methods ∧
    a.events = b.events := ⟨h .cfg, h .property, h .method, h .event⟩
  cases a
  cases b
  simp_all

@[simp] theorem ofKind_inherit (a b : Members) (k : MemberKind) :
    (a.inherit b).ofKind k = Member.inherit (a.ofKind k) (b.ofKind k) := by
  cases k <;> rfl

@[simp] theorem ofKind_listed (a : Members) (k : MemberKind) :
    a.listed.ofKind k = Member.listed (a.ofKind k) := by
  cases k <;> rfl

@[simp] theorem ofKind_declaredBy (a : Members) (full : String) (k : MemberKind) :
    (a.declaredBy full).ofKind k = (a.ofKind k).filter (·.owner.full == full) := by
  cases k <;> rfl

end Members

/-! ## Gathering -/

variable {α : Type}

/-- The members that a class has, hidden ones included: those that it declares itself, and behind
them those that its ancestors pass on, the closest first. -/
def Member.gather (ms : List (Member α)) (own : String) (ancestors : List String) :
    List (Member α) :=
  ancestors.foldl (fun acc a => Member.inherit acc (ms.filter (·.owner.full == a)))
    (ms.filter (·.owner.full == own))

/-- The members that a class has, hidden ones included, kind by kind. -/
def Members.gather (ms : Members) (own : String) (ancestors : List String) : Members :=
  ancestors.foldl (fun acc a => acc.inherit (ms.declaredBy a)) (ms.declaredBy own)

theorem Members.ofKind_gather (ms : Members) (own : String) (ancestors : List String)
    (k : MemberKind) :
    (ms.gather own ancestors).ofKind k = Member.gather (ms.ofKind k) own ancestors := by
  have hfold : ∀ acc : Members,
      (ancestors.foldl (fun acc a => acc.inherit (ms.declaredBy a)) acc).ofKind k =
      ancestors.foldl (fun acc a => Member.inherit acc ((ms.ofKind k).filter (·.owner.full == a)))
        (acc.ofKind k) := by
    induction ancestors with
    | nil => intro acc; rfl
    | cons a ancestors ih =>
      intro acc
      rw [List.foldl_cons, ih, List.foldl_cons, ofKind_inherit, ofKind_declaredBy]
  rw [Members.gather, hfold, ofKind_declaredBy, Member.gather]

/-! ## Stable sorting -/

section Stable

variable {β : Type} {le : β → β → Bool}

/-- Sorting keeps the order of elements that are tied with each other. -/
theorem filter_mergeSort_tied (trans : ∀ a b c, le a b → le b c → le a c)
    (total : ∀ a b, le a b || le b a) (l : List β) (a : β) :
    (l.mergeSort le).filter (fun x => le a x && le x a) = l.filter fun x => le a x && le x a := by
  have htied : (l.filter fun x => le a x && le x a).Pairwise fun x y => le x y := by
    refine List.pairwise_of_forall_mem_list ?_
    intro x hx y hy
    simp only [List.mem_filter, Bool.and_eq_true] at hx hy
    exact trans x a y hx.2.2 hy.2.1
  have hsub := (List.sublist_mergeSort trans total htied List.filter_sublist).filter
    fun x => le a x && le x a
  rw [List.filter_filter] at hsub
  simp only [Bool.and_self] at hsub
  refine (hsub.eq_of_length ?_).symm
  exact ((List.mergeSort_perm l le).filter _).length_eq.symm

/-- Sorted lists in which tied elements stand in the same order are the same. -/
theorem eq_of_sorted_of_tied (total : ∀ a b, le a b || le b a) {l l' : List β}
    (hl : l.Pairwise fun a b => le a b) (hl' : l'.Pairwise fun a b => le a b)
    (h : ∀ a, l.filter (fun x => le a x && le x a) = l'.filter fun x => le a x && le x a) :
    l = l' := by
  have hrefl : ∀ a, le a a = true := fun a => by simpa using total a a
  have hmem : ∀ {s s' : List β},
      (∀ a, s.filter (fun x => le a x && le x a) = s'.filter fun x => le a x && le x a) →
      ∀ x ∈ s, x ∈ s' := by
    intro s s' hs x hx
    have hxs : x ∈ s.filter fun y => le x y && le y x := List.mem_filter.mpr ⟨hx, by simp [hrefl]⟩
    rw [hs x] at hxs
    exact (List.mem_filter.mp hxs).1
  induction l generalizing l' with
  | nil =>
    cases l' with
    | nil => rfl
    | cons y l' => exact absurd (hmem (fun a => (h a).symm) y List.mem_cons_self) (by simp)
  | cons x l ih =>
    cases l' with
    | nil => exact absurd (hmem h x List.mem_cons_self) (by simp)
    | cons y l' =>
      -- the two first elements are tied, and the first in their class on both sides
      have hxy : le x y = true := by
        rcases List.mem_cons.mp (hmem (fun a => (h a).symm) y List.mem_cons_self) with rfl | hy
        · exact hrefl y
        · exact List.rel_of_pairwise_cons hl hy
      have hyx : le y x = true := by
        rcases List.mem_cons.mp (hmem h x List.mem_cons_self) with rfl | hx
        · exact hrefl x
        · exact List.rel_of_pairwise_cons hl' hx
      have hhead := h x
      simp only [List.filter_cons, hrefl, hxy, hyx, Bool.and_self, if_true,
        List.cons.injEq] at hhead
      obtain ⟨rfl, -⟩ := hhead
      refine congrArg (x :: ·) (ih hl.tail hl'.tail fun a => ?_)
      have ha := h a
      simp only [List.filter_cons] at ha
      split at ha
      · exact List.cons.inj ha |>.2
      · exact ha

/-- Lists in which tied elements stand in the same order are sorted to the same list. -/
theorem mergeSort_congr_tied (trans : ∀ a b c, le a b → le b c → le a c)
    (total : ∀ a b, le a b || le b a) {l l' : List β}
    (h : ∀ a, l.filter (fun x => le a x && le x a) = l'.filter fun x => le a x && le x a) :
    l.mergeSort le = l'.mergeSort le := by
  refine eq_of_sorted_of_tied total (List.pairwise_mergeSort trans total l)
    (List.pairwise_mergeSort trans total l') fun a => ?_
  rw [filter_mergeSort_tied trans total, filter_mergeSort_tied trans total, h a]

/-- If the tied elements of a list stand in the order `r`, so do those of the sorted list. -/
theorem pairwise_mergeSort_tied (trans : ∀ a b c, le a b → le b c → le a c)
    (total : ∀ a b, le a b || le b a) {r : β → β → Prop} {l : List β}
    (h : l.Pairwise fun a b => le a b → le b a → r a b) :
    (l.mergeSort le).Pairwise fun a b => le a b ∧ (le b a → r a b) := by
  rw [List.pairwise_iff_forall_sublist]
  intro a b hab
  have hle : le a b = true := by
    simpa using (List.pairwise_mergeSort trans total l).sublist hab
  refine ⟨hle, fun hba => ?_⟩
  have hrefl : le a a = true := by simpa using total a a
  have htied := hab.filter fun x => le a x && le x a
  rw [filter_mergeSort_tied trans total] at htied
  simp only [List.filter_cons, hrefl, hle, hba, Bool.and_self, if_true, List.filter_nil] at htied
  exact List.pairwise_iff_forall_sublist.mp h (htied.trans List.filter_sublist) hle hba

end Stable

/-! ## The order of listing -/

namespace Member

theorem listedBefore_iff {a b : Member α} :
    a.listedBefore b = true ↔ a.name < b.name ∨ a.name = b.name ∧ a.owner.full ≤ b.owner.full := by
  simp only [listedBefore, Bool.or_eq_true, decide_eq_true_eq, Bool.and_eq_true, beq_iff_eq]

theorem listedBefore_trans (a b c : Member α) (hab : a.listedBefore b = true)
    (hbc : b.listedBefore c = true) : a.listedBefore c = true := by
  rw [listedBefore_iff] at *
  rcases hab with hab | ⟨hab, hoab⟩
  · rcases hbc with hbc | ⟨hbc, -⟩
    · exact Or.inl (hab.trans hbc)
    · exact Or.inl (hbc ▸ hab)
  · rcases hbc with hbc | ⟨hbc, hobc⟩
    · exact Or.inl (hab ▸ hbc)
    · exact Or.inr ⟨hab.trans hbc, hoab.trans hobc⟩

theorem listedBefore_total (a b : Member α) : (a.listedBefore b || b.listedBefore a) = true := by
  rw [Bool.or_eq_true, listedBefore_iff, listedBefore_iff]
  rcases lt_trichotomy a.name b.name with h | h | h
  · exact Or.inl (Or.inl h)
  · rcases le_total a.owner.full b.owner.full with ho | ho
    · exact Or.inl (Or.inr ⟨h, ho⟩)
    · exact Or.inr (Or.inr ⟨h.symm, ho⟩)
  · exact Or.inr (Or.inl h)

/-- Members are tied exactly if they agree in name and owner. -/
theorem tied_iff {a b : Member α} :
    a.listedBefore b = true ∧ b.listedBefore a = true ↔
      a.name = b.name ∧ a.owner.full = b.owner.full := by
  rw [listedBefore_iff, listedBefore_iff]
  constructor
  · rintro ⟨hab | ⟨hn, ho⟩, hba | ⟨hn', ho'⟩⟩
    · exact absurd (hab.trans hba) (lt_irrefl _)
    · exact absurd hab (hn' ▸ lt_irrefl _)
    · exact absurd hba (hn ▸ lt_irrefl _)
    · exact ⟨hn, le_antisymm ho ho'⟩
  · rintro ⟨hn, ho⟩
    exact ⟨Or.inr ⟨hn, ho.le⟩, Or.inr ⟨hn.symm, ho.ge⟩⟩

end Member

end ClassReference
