import ClassReference.Hierarchy.Ancestors
import Mathlib.Data.List.Chain
import Mathlib.Logic.Relation
import Mathlib.Data.List.Nodup
import Mathlib.Data.List.Perm.Subperm

/-!
# Proofs: following parents

A walk follows a partial function `next` from a start. Either it ends, and then the visited elements
form a `Trail`, or it comes back to an element that was visited before, and then they form a `Loop`.
The two exclude each other, and each of them is determined by its start. `Climbs` is the walk with
no bound on its steps, and `climb` comes to its result if its number of steps is at least the number
of elements that can be visited.
-/

namespace ClassReference.Hierarchy

open Relation

variable {α : Type} {next : α → Option α}

/-- Following `next` from `a` visits the elements of the list in order and then ends. -/
inductive Trail (next : α → Option α) : α → List α → Prop where
  /-- There is nothing to visit. -/
  | stop {a : α} (h : next a = none) : Trail next a []
  /-- The first element is visited, and then those that follow it. -/
  | step {a b : α} {l : List α} (h : next a = some b) (t : Trail next b l) : Trail next a (b :: l)

/-- Following `next` from `a` visits the elements of the list, which begins with `a`. Only the last
of them was visited before. -/
def Loop (next : α → Option α) (a : α) (visited : List α) : Prop :=
  ∃ chain p, visited = a :: chain ++ [p] ∧ visited.IsChain (fun x y => next x = some y) ∧
    (a :: chain).Nodup ∧ p ∈ a :: chain

/-- Following `next` from `a` never ends. -/
def Endless (next : α → Option α) (a : α) : Prop :=
  ∀ b, ReflTransGen (fun x y => next x = some y) a b → next b ≠ none

/-- Whatever can be visited from an element of `space` is in it, if `next` does not leave it. -/
theorem mem_of_reaches {space : List α} (hclosed : ∀ x ∈ space, ∀ y, next x = some y → y ∈ space)
    {a b : α} (ha : a ∈ space) (h : ReflTransGen (fun x y => next x = some y) a b) : b ∈ space := by
  induction h with
  | refl => exact ha
  | tail _ hs ih => exact hclosed _ ih _ hs

/-! ## Walks that end -/

theorem Trail.unique {a : α} {l l' : List α} (h : Trail next a l) (h' : Trail next a l') :
    l = l' := by
  induction h generalizing l' with
  | stop hn =>
    cases h' with
    | stop _ => rfl
    | step hs _ => rw [hn] at hs; cases hs
  | step hs _ ih =>
    cases h' with
    | stop hn => rw [hn] at hs; cases hs
    | step hs' t' =>
      obtain rfl : _ = _ := Option.some.inj (hs.symm.trans hs')
      rw [ih t']

/-- From an element of a trail the rest of the trail is followed, which is shorter. -/
theorem Trail.of_mem {a b : α} {l : List α} (h : Trail next a l) (hb : b ∈ l) :
    ∃ l', Trail next b l' ∧ l'.length < l.length := by
  induction h with
  | stop _ => cases hb
  | step hs t ih =>
    rcases List.mem_cons.mp hb with rfl | hb
    · exact ⟨_, t, by simp⟩
    · obtain ⟨l', t', hl⟩ := ih hb
      exact ⟨l', t', by simp only [List.length_cons]; omega⟩

theorem Trail.not_mem {a : α} {l : List α} (h : Trail next a l) : a ∉ l := by
  intro ha
  obtain ⟨l', h', hl⟩ := h.of_mem ha
  rw [h.unique h'] at hl
  omega

/-- A trail visits nothing twice, and does not come back to its start. -/
theorem Trail.nodup {a : α} {l : List α} (h : Trail next a l) : (a :: l).Nodup := by
  induction h with
  | stop _ => simp
  | step hs t ih => exact List.nodup_cons.mpr ⟨(Trail.step hs t).not_mem, ih⟩

/-- Whatever is reached from the start of a trail by one step or more is on the trail. -/
theorem Trail.mem_of_transGen {a b : α} {l : List α} (h : Trail next a l)
    (hr : TransGen (fun x y => next x = some y) a b) : b ∈ l := by
  induction hr using TransGen.head_induction_on generalizing l with
  | single hs =>
    cases h with
    | stop hn => rw [hn] at hs; cases hs
    | step hs' _ => rw [Option.some.inj (hs.symm.trans hs')]; exact List.mem_cons_self
  | head hs _ ih =>
    cases h with
    | stop hn => rw [hn] at hs; cases hs
    | step hs' t =>
      obtain rfl : _ = _ := Option.some.inj (hs.symm.trans hs')
      exact List.mem_cons_of_mem _ (ih t)

theorem Trail.reaches {a : α} {l : List α} (h : Trail next a l) :
    ∀ b ∈ l, ReflTransGen (fun x y => next x = some y) a b := by
  induction h with
  | stop _ => simp
  | step hs _ ih =>
    intro b hb
    rcases List.mem_cons.mp hb with rfl | hb
    · exact ReflTransGen.single hs
    · exact (ih b hb).head hs

theorem Trail.of_reflTransGen {a b : α} {l : List α} (h : Trail next a l)
    (hr : ReflTransGen (fun x y => next x = some y) a b) : ∃ l', Trail next b l' := by
  rcases reflTransGen_iff_eq_or_transGen.mp hr with rfl | hr
  · exact ⟨l, h⟩
  · obtain ⟨l', h', _⟩ := h.of_mem (h.mem_of_transGen hr)
    exact ⟨l', h'⟩

/-- Nothing that is reached from the start of a trail is reached again from itself. -/
theorem Trail.not_revisited {a b : α} {l : List α} (h : Trail next a l)
    (hr : ReflTransGen (fun x y => next x = some y) a b) :
    ¬ TransGen (fun x y => next x = some y) b b := by
  intro hb
  obtain ⟨l', h'⟩ := h.of_reflTransGen hr
  exact h'.not_mem (h'.mem_of_transGen hb)

/-- A walk is endless exactly if there is no trail. -/
theorem endless_iff {a : α} : Endless next a ↔ ¬ ∃ l, Trail next a l := by
  constructor
  · rintro he ⟨l, h⟩
    induction h with
    | stop hn => exact he _ ReflTransGen.refl hn
    | step hs _ ih => exact ih fun b hb => he b (hb.head hs)
  · intro hn b hb hend
    apply hn
    induction hb using ReflTransGen.head_induction_on with
    | refl => exact ⟨[], Trail.stop hend⟩
    | head hs _ ih =>
      obtain ⟨l, t⟩ := ih fun ⟨l, t⟩ => hn ⟨_, Trail.step hs t⟩
      exact ⟨_, Trail.step hs t⟩

/-- There is a trail exactly if something is reached from which nothing follows. -/
theorem exists_trail_iff {a : α} :
    (∃ l, Trail next a l) ↔ ∃ b, ReflTransGen (fun x y => next x = some y) a b ∧ next b = none := by
  rw [← not_iff_not, ← endless_iff]
  simp only [Endless, not_exists, not_and, ne_eq]

/-! ## Walks that come back -/

theorem Loop.reaches {a : α} {visited : List α} (h : Loop next a visited) :
    ∀ b ∈ visited, ReflTransGen (fun x y => next x = some y) a b := by
  obtain ⟨chain, p, rfl, hc, -, -⟩ := h
  exact hc.induction _ _ (fun _ _ hs hx => hx.tail hs) fun _ => ReflTransGen.refl

/-- A loop reaches an element that is reached again from itself. -/
theorem Loop.revisited {a : α} {visited : List α} (h : Loop next a visited) :
    ∃ b, ReflTransGen (fun x y => next x = some y) a b ∧
      TransGen (fun x y => next x = some y) b b := by
  obtain ⟨chain, p, rfl, hc, -, hp⟩ := h
  obtain ⟨before, after, hba⟩ := List.append_of_mem hp
  refine ⟨p, ?_, ?_⟩
  · -- the part of the loop up to the first visit of `p`
    have hc1 : (before ++ [p]).IsChain (fun x y => next x = some y) := by
      rw [show a :: chain ++ [p] = before ++ [p] ++ (after ++ [p]) by simp [hba]] at hc
      exact hc.left_of_append
    cases before with
    | nil =>
      obtain ⟨rfl, -⟩ := List.cons.inj hba
      exact ReflTransGen.refl
    | cons x before =>
      obtain ⟨rfl, -⟩ := List.cons.inj hba
      simpa using List.relationReflTransGen_of_exists_isChain _ hc1 (by simp)
  · -- the part from the first visit of `p` to the second
    have hc2 : (p :: (after ++ [p])).IsChain (fun x y => next x = some y) := by
      rw [show a :: chain ++ [p] = before ++ (p :: (after ++ [p])) by simp [hba]] at hc
      exact hc.right_of_append
    cases after with
    | nil => exact TransGen.single (by simpa using hc2)
    | cons y after =>
      rw [List.cons_append, List.isChain_cons_cons] at hc2
      refine TransGen.head' hc2.1 ?_
      simpa using List.relationReflTransGen_of_exists_isChain _ hc2.2 (by simp)

/-- A walk that comes back does not end. -/
theorem Loop.not_trail {a : α} {visited l : List α} (h : Loop next a visited) :
    ¬ Trail next a l := by
  intro t
  obtain ⟨b, hab, hbb⟩ := h.revisited
  exact t.not_revisited hab hbb

/-- Two walks from one start follow each other as long as both go on. -/
theorem follow_isChain {a : α} {l l' : List α} (h : (a :: l).IsChain (fun x y => next x = some y))
    (h' : (a :: l').IsChain (fun x y => next x = some y)) :
    (∃ t, l' = l ++ t) ∨ ∃ t, l = l' ++ t := by
  induction l generalizing a l' with
  | nil => exact Or.inl ⟨l', rfl⟩
  | cons b l ih =>
    cases l' with
    | nil => exact Or.inr ⟨b :: l, rfl⟩
    | cons b' l' =>
      rw [List.isChain_cons_cons] at h h'
      obtain rfl : b = b' := Option.some.inj (h.1.symm.trans h'.1)
      rcases ih h.2 h'.2 with ⟨t, rfl⟩ | ⟨t, rfl⟩
      · exact Or.inl ⟨t, rfl⟩
      · exact Or.inr ⟨t, rfl⟩

/-- A loop does not go on: only its last element was visited before. -/
theorem Loop.eq_of_append {a : α} {v t : List α} (h : Loop next a v) (h' : Loop next a (v ++ t)) :
    t = [] := by
  obtain ⟨chain, p, rfl, -, -, hp⟩ := h
  obtain ⟨chain', p', heq, -, hnd', -⟩ := h'
  rcases List.eq_nil_or_concat t with rfl | ⟨t', q, rfl⟩
  · rfl
  · have hinit : a :: chain ++ [p] ++ t' = a :: chain' := by
      rw [List.concat_eq_append, ← List.append_assoc] at heq
      exact (List.append_inj' heq rfl).1
    rw [← hinit] at hnd'
    have hdup := (List.nodup_append.mp (List.nodup_append.mp hnd').1).2.2
    exact absurd rfl (hdup p hp p (List.mem_singleton.mpr rfl))

theorem Loop.unique {a : α} {v v' : List α} (h : Loop next a v) (h' : Loop next a v') : v = v' := by
  have hc : ∃ l, v = a :: l ∧ (a :: l).IsChain (fun x y => next x = some y) := by
    obtain ⟨chain, p, rfl, hc, -, -⟩ := h
    exact ⟨chain ++ [p], rfl, hc⟩
  have hc' : ∃ l, v' = a :: l ∧ (a :: l).IsChain (fun x y => next x = some y) := by
    obtain ⟨chain, p, rfl, hc, -, -⟩ := h'
    exact ⟨chain ++ [p], rfl, hc⟩
  obtain ⟨l, rfl, hl⟩ := hc
  obtain ⟨l', rfl, hl'⟩ := hc'
  rcases follow_isChain hl hl' with ⟨t, rfl⟩ | ⟨t, rfl⟩
  · rw [h.eq_of_append h', List.append_nil]
  · rw [h'.eq_of_append h, List.append_nil]

/-! ## Walks in another representation -/

section Map

variable {β : Type} {next' : β → Option β} {f : α → β} {space : List α}

theorem Trail.map (hclosed : ∀ x ∈ space, ∀ y, next x = some y → y ∈ space)
    (hnext : ∀ x ∈ space, next' (f x) = (next x).map f) {a : α} {l : List α} (ha : a ∈ space)
    (h : Trail next a l) : Trail next' (f a) (l.map f) := by
  induction h with
  | stop hn => exact Trail.stop (by rw [hnext _ ha, hn]; rfl)
  | step hs _ ih => exact Trail.step (by rw [hnext _ ha, hs]; rfl) (ih (hclosed _ ha _ hs))

theorem Loop.map (hf : ∀ x ∈ space, ∀ y ∈ space, f x = f y → x = y)
    (hnext : ∀ x ∈ space, next' (f x) = (next x).map f) {a : α} {v : List α}
    (hv : ∀ x ∈ v, x ∈ space) (h : Loop next a v) : Loop next' (f a) (v.map f) := by
  obtain ⟨chain, p, rfl, hc, hnd, hp⟩ := h
  refine ⟨chain.map f, f p, by simp, ?_, ?_, ?_⟩
  · rw [List.isChain_map]
    refine hc.imp_of_mem_imp ?_
    intro x y hx _ hxy
    rw [hnext x (hv x hx), hxy]
    rfl
  · rw [← List.map_cons]
    refine hnd.map_on ?_
    intro x hx y hy hxy
    exact hf x (hv x (List.mem_append_left _ hx)) y (hv y (List.mem_append_left _ hy)) hxy
  · rw [← List.map_cons]
    exact List.mem_map_of_mem hp

end Map

/-! ## Climbing -/

section Climb

variable {start : α}

/-- The walk from `start` without a bound on its steps, as `climb` takes them: after `chain` it goes
on with the given element, if there is one. -/
inductive Climbs (next : α → Option α) (start : α) :
    List α → Option α → Except (List α) (List α) → Prop where
  /-- There is nothing to go on with. -/
  | done {chain : List α} : Climbs next start chain none (.ok chain)
  /-- The element was visited before. -/
  | back {chain : List α} {p : α} (h : p ∈ start :: chain) :
    Climbs next start chain (some p) (.error (start :: chain ++ [p]))
  /-- The element is visited, and the walk goes on from there. -/
  | on {chain : List α} {p : α} {r : Except (List α) (List α)} (h : p ∉ start :: chain)
    (t : Climbs next start (chain ++ [p]) (next p) r) : Climbs next start chain (some p) r

theorem isChain_concat {chain : List α} {p : α}
    (hc : (start :: chain).IsChain (fun x y => next x = some y))
    (hp : next ((start :: chain).getLast (by simp)) = some p) :
    (start :: (chain ++ [p])).IsChain (fun x y => next x = some y) := by
  rw [← List.cons_append]
  refine hc.append (List.isChain_singleton p) ?_
  intro x hx y hy
  simp only [List.getLast?_eq_some_getLast (l := start :: chain) (by simp),
    Option.mem_some_iff] at hx
  simp only [List.head?_cons, Option.mem_some_iff] at hy
  rw [← hx, ← hy]
  exact hp

theorem nodup_concat {chain : List α} {p : α} (hnd : (start :: chain).Nodup)
    (hp : p ∉ start :: chain) : (start :: (chain ++ [p])).Nodup := by
  rw [← List.cons_append, ← List.concat_eq_append]
  exact hnd.concat hp

theorem forall_mem_concat {chain space : List α} {p : α} (hsub : ∀ x ∈ start :: chain, x ∈ space)
    (hp : p ∈ space) : ∀ x ∈ start :: (chain ++ [p]), x ∈ space := by
  rw [← List.cons_append]
  exact List.forall_mem_append.mpr ⟨hsub, List.forall_mem_singleton.mpr hp⟩

/-- The walk keeps what it has visited, as a chain in which nothing occurs twice. So what it adds is
the trail of the last element, or else it has come back. -/
theorem Climbs.walked {chain : List α} {o : Option α} {r : Except (List α) (List α)}
    (h : Climbs next start chain o r) (ho : next ((start :: chain).getLast (by simp)) = o)
    (hc : (start :: chain).IsChain (fun x y => next x = some y)) (hnd : (start :: chain).Nodup) :
    (∃ l, r = .ok (chain ++ l) ∧ Trail next ((start :: chain).getLast (by simp)) l) ∨
    ∃ visited, r = .error visited ∧ Loop next start visited := by
  induction h with
  | done => exact Or.inl ⟨[], by simp, Trail.stop ho⟩
  | back hp => exact Or.inr ⟨_, rfl, _, _, rfl, isChain_concat hc ho, hnd, hp⟩
  | on hp _ ih =>
    have hlast : ∀ (l : List α) (p : α), (start :: (l ++ [p])).getLast (by simp) = p := by simp
    rcases ih (by rw [hlast]) (isChain_concat hc ho) (nodup_concat hnd hp) with ⟨l, rfl, ht⟩ | hloop
    · rw [hlast] at ht
      exact Or.inl ⟨_ :: l, by simp, Trail.step ho ht⟩
    · exact Or.inr hloop

section Start

variable {r : Except (List α) (List α)}

theorem Climbs.start_cases (h : Climbs next start [] (next start) r) :
    (∃ l, r = .ok l ∧ Trail next start l) ∨ ∃ visited,
      r = .error visited ∧ Loop next start visited :=
  h.walked rfl (List.isChain_singleton start) (List.nodup_singleton start)

theorem Climbs.ok_iff (h : Climbs next start [] (next start) r) (l : List α) :
    r = .ok l ↔ Trail next start l := by
  rcases h.start_cases with ⟨l', rfl, ht⟩ | ⟨visited, rfl, hloop⟩
  · constructor
    · rintro ⟨⟩
      exact ht
    · intro ht'
      rw [ht.unique ht']
  · exact iff_of_false (by simp) hloop.not_trail

theorem Climbs.error_iff (h : Climbs next start [] (next start) r) (visited : List α) :
    r = .error visited ↔ Loop next start visited := by
  rcases h.start_cases with ⟨l, rfl, ht⟩ | ⟨visited', rfl, hloop⟩
  · exact iff_of_false (by simp) fun hloop => hloop.not_trail ht
  · constructor
    · rintro ⟨⟩
      exact hloop
    · intro hloop'
      rw [hloop.unique hloop']

/-- A walk comes to one result only. -/
theorem Climbs.unique (h : Climbs next start [] (next start) r) {r' : Except (List α) (List α)}
    (h' : Climbs next start [] (next start) r') : r = r' := by
  cases r' with
  | ok l => exact (h.ok_iff l).mpr ((h'.ok_iff l).mp rfl)
  | error visited => exact (h.error_iff visited).mpr ((h'.error_iff visited).mp rfl)

end Start

variable [DecidableEq α]

/-- If `space` is what can be visited, then as many steps as it has elements are enough: `climb`
does not stop before the walk does. -/
theorem climbs_climb {space : List α} (hclosed : ∀ x ∈ space, ∀ y, next x = some y → y ∈ space)
    (steps : Nat) (chain : List α) (o : Option α) (ho : ∀ p, o = some p → p ∈ space)
    (hsub : ∀ x ∈ start :: chain, x ∈ space) (hnd : (start :: chain).Nodup)
    (hle : space.length ≤ steps + chain.length) :
    Climbs next start chain o (climb next start steps chain o) := by
  induction steps generalizing chain o with
  | zero =>
    -- all of `space` would have been visited, and `start` besides
    have hlen := (List.subperm_of_subset hnd hsub).length_le
    simp only [List.length_cons] at hlen
    omega
  | succ steps ih =>
    cases o with
    | none => exact Climbs.done
    | some p =>
      rw [climb]
      split
      · rename_i hp
        exact Climbs.back (List.mem_cons.mpr hp)
      · rename_i hp
        have hp' : p ∉ start :: chain := fun hmem => hp (List.mem_cons.mp hmem)
        have hpspace : p ∈ space := ho p rfl
        refine Climbs.on hp'
          (ih (chain ++ [p]) (next p) (hclosed p hpspace) (forall_mem_concat hsub hpspace)
          (nodup_concat hnd hp') ?_)
        simp only [List.length_append, List.length_singleton]
        omega

theorem climbs_start {space : List α} (hclosed : ∀ x ∈ space, ∀ y, next x = some y → y ∈ space)
    (hstart : start ∈ space) {steps : Nat} (hle : space.length ≤ steps) :
    Climbs next start [] (next start) (climb next start steps [] (next start)) :=
  climbs_climb hclosed steps [] (next start) (hclosed start hstart) (by simpa using hstart)
    (List.nodup_singleton start) (by simpa using hle)

/-- Climbing from a start gives its trail, or fails with its loop. -/
theorem climb_start {space : List α} (hclosed : ∀ x ∈ space, ∀ y, next x = some y → y ∈ space)
    (hstart : start ∈ space) {steps : Nat} (hle : space.length ≤ steps) :
    (∃ l, climb next start steps [] (next start) = .ok l ∧ Trail next start l) ∨
    ∃ visited, climb next start steps [] (next start) = .error visited ∧ Loop next start visited :=
  (climbs_start hclosed hstart hle).start_cases

/-- As long as all can be visited, more steps make no difference. -/
theorem climb_steps {space : List α} (hclosed : ∀ x ∈ space, ∀ y, next x = some y → y ∈ space)
    (hstart : start ∈ space) {steps steps' : Nat} (hle : space.length ≤ steps)
    (hle' : space.length ≤ steps') :
    climb next start steps [] (next start) = climb next start steps' [] (next start) :=
  (climbs_start hclosed hstart hle).unique (climbs_start hclosed hstart hle')

/-- Climbing does not depend on how the elements are represented: `f` carries a walk along `next` to
the walk along `next'`, as long as it keeps apart what is visited. -/
theorem climb_map {β : Type} [DecidableEq β] {next' : β → Option β} {f : α → β} {space : List α}
    (hclosed : ∀ x ∈ space, ∀ y, next x = some y → y ∈ space)
    (hf : ∀ x ∈ space, ∀ y ∈ space, f x = f y → x = y)
    (hnext : ∀ x ∈ space, next' (f x) = (next x).map f) (steps : Nat) (chain : List α)
    (hsub : ∀ x ∈ start :: chain, x ∈ space) (o : Option α) (ho : ∀ p, o = some p → p ∈ space) :
    climb next' (f start) steps (chain.map f) (o.map f) =
      ((climb next start steps chain o).map (List.map f)).mapError (List.map f) := by
  induction steps generalizing chain o with
  | zero => cases o <;> rfl
  | succ steps ih =>
    cases o with
    | none => rfl
    | some p =>
      have hp : p ∈ space := ho p rfl
      have hmem : (f p = f start ∨ f p ∈ chain.map f) ↔ (p = start ∨ p ∈ chain) := by
        constructor
        · rintro (h | h)
          · exact Or.inl (hf p hp start (hsub start List.mem_cons_self) h)
          · obtain ⟨x, hx, hxp⟩ := List.mem_map.mp h
            rw [← hf x (hsub x (List.mem_cons_of_mem _ hx)) p hp hxp]
            exact Or.inr hx
        · rintro (h | h)
          · exact Or.inl (congrArg f h)
          · exact Or.inr (List.mem_map_of_mem h)
      simp only [Option.map_some, climb, hmem]
      by_cases hv : p = start ∨ p ∈ chain
      · simp [hv, Except.map, Except.mapError]
      · rw [if_neg hv, if_neg hv, hnext p hp]
        have hstep := ih (chain ++ [p]) (forall_mem_concat hsub hp) (next p) (hclosed p hp)
        simpa using hstep

end Climb

end ClassReference.Hierarchy
