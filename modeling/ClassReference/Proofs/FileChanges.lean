import ClassReference.FileTree
import Mathlib.Data.List.Basic

/-!
# Proofs: where paths lead, and what changes keep

A path that leads anywhere leads to the location that its names give by themselves
(`locate_eq_target`). Nothing that is done to files takes a file or a directory away: a change keeps
all that is not at a location that it touches, and there it keeps directories and leaves files to be
files (`Keeps`). So a path that leads to a location goes on leading to it (`Keeps.locate`).
-/

namespace ClassReference.FileTree

variable {t t' u : FileTree} {l m : Location} {p : Path} {touched touched' : Location → Prop}

/-! ## Where paths lead -/

/-- The location that a name leads to from another. -/
def nameStep (l : Location) (n : String) : Location :=
  if n = "." then l else if n = ".." then l.dropLast else l ++ [n]

/-- The location that a path names by itself, whatever is there. -/
def target (t : FileTree) (p : Path) : Location :=
  p.parts.foldl nameStep (t.start p.anchor)

/-- Names that lead from one location to another lead there step by step. -/
theorem walk_eq_foldl {names : List String} (h : t.walk l names = .ok m) :
    m = names.foldl nameStep l := by
  fun_induction walk t l names with
  | case1 => simpa using h.symm
  | case2 l rest ih => simpa [nameStep] using ih h
  | case3 l rest hdot ih => simpa [nameStep] using ih h
  | case4 => cases h
  | case5 l n hdot hup hsize rest hget ih => simpa [nameStep, hdot, hup] using ih h
  | case6 l n hdot hup hsize => simpa [nameStep, hdot, hup] using (Except.ok.inj h).symm
  | case7 => cases h
  | case8 => cases h

/-- A path that leads anywhere leads to the location that it names by itself. -/
theorem locate_eq_target (h : t.locate p = .ok l) : l = t.target p := by
  unfold locate at h
  split at h
  · cases h
  · exact walk_eq_foldl h

/-- The names are no dots: each of them leads on from where it stands. -/
def Plain (names : List String) : Prop :=
  ∀ n ∈ names, n ≠ "." ∧ n ≠ ".."

instance : DecidablePred Plain :=
  fun names => inferInstanceAs (Decidable (∀ n ∈ names, n ≠ "." ∧ n ≠ ".."))

/-- Names that are no dots are put behind the location they start from. -/
theorem foldl_nameStep {names : List String} (h : Plain names) (l : Location) :
    names.foldl nameStep l = l ++ names := by
  induction names generalizing l with
  | nil => simp
  | cons n names ih =>
    obtain ⟨hdot, hup⟩ := h n List.mem_cons_self
    rw [List.foldl_cons, ih fun m hm => h m (List.mem_cons_of_mem _ hm), nameStep, if_neg hdot,
      if_neg hup, List.append_assoc, List.singleton_append]

/-- Names that are no dots lead on from the location that a path names. -/
theorem target_append {names : List String} (h : Plain names) :
    t.target { p with parts := p.parts ++ names } = t.target p ++ names := by
  rw [target, List.foldl_append, foldl_nameStep h, target]

theorem Plain.nameStep (h : Plain l) (n : String) : Plain (FileTree.nameStep l n) := by
  unfold FileTree.nameStep
  split_ifs with hdot hup
  · exact h
  · exact fun m hm => h m (List.dropLast_subset l hm)
  · intro m hm
    rcases List.mem_append.mp hm with hm | hm
    · exact h m hm
    · exact List.mem_singleton.mp hm ▸ ⟨hdot, hup⟩

/-- No file or directory is named by dots, and neither is a part of the way to the working
directory. -/
structure PlainNames (t : FileTree) : Prop where
  working : Plain t.working
  found : ∀ l, t.get? l ≠ none → Plain l

/-- It is enough to look at the entries of a tree and at its working directory. -/
theorem PlainNames.of_entries (hworking : Plain t.working) (h : ∀ e ∈ t.entries, Plain e.1) :
    t.PlainNames := by
  refine ⟨hworking, fun l hl => ?_⟩
  cases l with
  | nil => exact fun _ hn => nomatch hn
  | cons a l =>
    obtain ⟨n, hn⟩ := Option.ne_none_iff_exists'.mp hl
    obtain ⟨e, he, -⟩ := Option.map_eq_some_iff.mp hn
    have hkey : e.1 = a :: l := by simpa using List.find?_some he
    exact hkey ▸ h e (List.mem_of_find?_eq_some he)

/-- A path names a location without dots, even if there are dots in the path. -/
theorem PlainNames.target (h : t.PlainNames) (p : Path) : Plain (t.target p) := by
  have hstart : Plain (t.start p.anchor) := by
    cases p.anchor with
    | working => exact h.working
    | root => exact fun _ hn => nomatch hn
    | doubleRoot => exact fun _ hn => nomatch hn
    | builtin => show Plain builtinLocation; decide
  unfold FileTree.target
  generalize t.start p.anchor = l at hstart
  induction p.parts generalizing l with
  | nil => exact hstart
  | cons n names ih => exact ih _ (hstart.nameStep n)

/-- The last name of a path leads on whatever is there. -/
theorem walk_plain {n : String} (hdot : n ≠ ".") (hup : n ≠ "..")
    (hsize : n.utf8ByteSize ≤ maxNameSize) : t.walk l [n] = .ok (l ++ [n]) := by
  unfold walk
  rw [if_neg hdot, if_neg hup, if_neg (Nat.not_lt.mpr hsize)]
  split <;> simp_all [walk]

theorem walk_dot {rest : List String} : t.walk l ("." :: rest) = t.walk l rest := by
  conv_lhs => unfold walk
  rw [if_pos rfl]

theorem walk_up {rest : List String} : t.walk l (".." :: rest) = t.walk l.dropLast rest := by
  conv_lhs => unfold walk
  rw [if_neg (by decide), if_pos rfl]

theorem lookup_eq_ok {n : Node} (h : t.locate p = .ok l) (hget : t.get? l = some n) :
    t.lookup p = .ok n := by
  simp only [lookup, h, bind, Except.bind, hget]

/-! ## What changes keep -/

/-- From one tree to another, only what is at touched locations may change. Directories stay, and
files stay files. -/
structure Keeps (touched : Location → Prop) (t t' : FileTree) : Prop where
  working : t'.working = t.working
  other : ∀ l, ¬ touched l → t'.get? l = t.get? l
  directory : ∀ l, t.get? l = some .directory → t'.get? l = some .directory
  file : ∀ l c, t.get? l = some (.file c) → ∃ c', t'.get? l = some (.file c')

namespace Keeps

theorem refl (t : FileTree) : Keeps touched t t :=
  ⟨rfl, fun _ _ => rfl, fun _ h => h, fun _ c h => ⟨c, h⟩⟩

/-- What each of two changes keeps, the two of them keep. -/
theorem trans (h : Keeps touched t t') (h' : Keeps touched t' u) : Keeps touched t u where
  working := h'.working.trans h.working
  other l hl := (h'.other l hl).trans (h.other l hl)
  directory l hl := h'.directory l (h.directory l hl)
  file l c hl := by
    obtain ⟨c', hl'⟩ := h.file l c hl
    exact h'.file l c' hl'

/-- A change that keeps all but some locations keeps all but more of them. -/
theorem mono (h : Keeps touched t t') (hsub : ∀ l, touched l → touched' l) : Keeps touched' t t' :=
  ⟨h.working, fun l hl => h.other l fun hl' => hl (hsub l hl'), h.directory, h.file⟩

/-- Where something is, something stays. -/
theorem get?_ne_none (h : Keeps touched t t') (hl : t.get? l ≠ none) : t'.get? l ≠ none := by
  cases hn : t.get? l with
  | none => exact absurd hn hl
  | some n =>
    cases n with
    | directory => simp [h.directory l hn]
    | file c =>
      obtain ⟨c', hc'⟩ := h.file l c hn
      simp [hc']

/-- Where nothing is after a change, nothing was before. -/
theorem none_of_none (h : Keeps touched t t') (hl : t'.get? l = none) : t.get? l = none := by
  by_contra hsome
  exact h.get?_ne_none hsome hl

theorem start (h : Keeps touched t t') (a : Anchor) : t'.start a = t.start a := by
  cases a with
  | working => exact h.working
  | root => rfl
  | doubleRoot => rfl
  | builtin => rfl

/-- A path names the same location after a change. -/
theorem target (h : Keeps touched t t') (p : Path) : t'.target p = t.target p := by
  rw [FileTree.target, FileTree.target, h.start]

/-- Names that lead to a location go on leading there. -/
theorem walk (h : Keeps touched t t') {names : List String} (hw : t.walk l names = .ok m) :
    t'.walk l names = .ok m := by
  fun_induction FileTree.walk t l names with
  | case1 => exact hw
  | case2 l rest ih => exact walk_dot.trans (ih hw)
  | case3 l rest hdot ih => exact walk_up.trans (ih hw)
  | case4 => cases hw
  | case5 l n hdot hup hsize rest hget ih =>
    rw [FileTree.walk.eq_2 _ _ _ _ (h.directory _ hget), if_neg hdot, if_neg hup, if_neg hsize]
    exact ih hw
  | case6 l n hdot hup hsize =>
    rw [walk_plain hdot hup (Nat.le_of_not_lt hsize)]
    exact hw
  | case7 => cases hw
  | case8 => cases hw

/-- A path that leads to a location goes on leading to it. -/
theorem locate (h : Keeps touched t t') (hl : t.locate p = .ok l) : t'.locate p = .ok l := by
  unfold FileTree.locate at hl ⊢
  split at hl
  · cases hl
  · rw [h.start]
    exact h.walk hl

end Keeps

theorem ne_nil_of_get? (h : t.get? l ≠ some .directory) : l ≠ [] := by
  rintro rfl
  exact h rfl

/-- A file that is put where no directory is keeps all that is elsewhere. -/
theorem keeps_put_file (h : t.get? l ≠ some .directory) (c : Content) :
    Keeps (· = l) t (t.put l (.file c)) where
  working := by
    unfold put
    split <;> rfl
  other m hm := get?_put_of_ne t _ hm
  directory m hm := by
    refine (get?_put_of_ne t _ ?_).trans hm
    rintro rfl
    exact h hm
  file m c' hm := by
    by_cases hml : m = l
    · exact ⟨c, hml ▸ get?_put_self t l _ (ne_nil_of_get? h)⟩
    · exact ⟨c', (get?_put_of_ne t _ hml).trans hm⟩

/-- A directory that is put where nothing is keeps all that is elsewhere. -/
theorem keeps_put_directory (h : t.get? l = none) : Keeps (· = l) t (t.put l .directory) where
  working := by
    unfold put
    split <;> rfl
  other m hm := get?_put_of_ne t _ hm
  directory m hm := by
    by_cases hml : m = l
    · rw [hml, h] at hm
      cases hm
    · exact (get?_put_of_ne t _ hml).trans hm
  file m c hm := by
    refine ⟨c, (get?_put_of_ne t _ ?_).trans hm⟩
    rintro rfl
    rw [h] at hm
    cases hm

/-! ## Writing -/

/-- The path leads to a file that holds the content. -/
structure Holds (t : FileTree) (p : Path) (c : Content) : Prop where
  locate : t.locate p = .ok (t.target p)
  content : t.get? (t.target p) = some (.file c)

theorem Holds.read {c : Content} (h : t.Holds p c) : t.read p = .ok c := by
  rw [FileTree.read, lookup_eq_ok h.locate h.content]
  rfl

/-- A file that is not touched holds what it held. -/
theorem Holds.of_keeps {c : Content} (h : t.Holds p c) (hk : Keeps touched t t')
    (hp : ¬ touched (t.target p)) :
    t'.Holds p c where
  locate := by
    rw [hk.target]
    exact hk.locate h.locate
  content := by
    rw [hk.target, hk.other _ hp]
    exact h.content

/-- A file is written where its path leads, unless a directory is there. -/
theorem write_eq_ok {c : Content} (h : t.write p c = .ok t') :
    t.locate p = .ok (t.target p) ∧ t.get? (t.target p) ≠ some .directory ∧
    t' = t.put (t.target p) (.file c) := by
  unfold write at h
  cases hl : t.locate p with
  | error cause =>
    rw [hl] at h
    cases h
  | ok l =>
    obtain rfl := locate_eq_target hl
    simp only [hl] at h
    split at h
    · cases h
    · rename_i hget
      exact ⟨rfl, fun hdir => hget hdir, (Except.ok.inj h).symm⟩

/-- Writing a file touches no other location. -/
theorem keeps_write {c : Content} (h : t.write p c = .ok t') : Keeps (· = t.target p) t t' := by
  obtain ⟨-, hdir, rfl⟩ := write_eq_ok h
  exact keeps_put_file hdir c

/-- A file that was written holds what was written. -/
theorem holds_of_write {c : Content} (h : t.write p c = .ok t') : t'.Holds p c := by
  have hk := keeps_write h
  obtain ⟨hl, hdir, rfl⟩ := write_eq_ok h
  refine ⟨?_, ?_⟩
  · rw [hk.target]
    exact hk.locate hl
  · rw [hk.target]
    exact get?_put_self t _ _ (ne_nil_of_get? hdir)

/-- Appending to a file touches no other location. -/
theorem keeps_append {c : Content} (h : t.get? l = some (.file c)) (s : String) :
    Keeps (· = l) t (t.append l s) := by
  have hdir : t.get? l ≠ some .directory := by simp [h]
  unfold append
  split
  · exact keeps_put_file hdir _
  · exact keeps_put_file hdir _
  · exact keeps_put_file hdir _

/-! ## Making directories -/

/-- The location is on the way of the path: some of its first names lead there. -/
def OnWay (t : FileTree) (p : Path) (l : Location) : Prop :=
  ∃ names, names <+: p.parts ∧ l = t.target { p with parts := names }

theorem OnWay.further {q : Path} (h : t.OnWay q l) (hanchor : q.anchor = p.anchor)
    (hparts : q.parts <+: p.parts) : t.OnWay p l := by
  obtain ⟨names, hnames, rfl⟩ := h
  exact ⟨names, hnames.trans hparts, by rw [hanchor]⟩

theorem onWay_target (t : FileTree) (p : Path) : t.OnWay p (t.target p) :=
  ⟨p.parts, List.prefix_refl _, rfl⟩

theorem Keeps.onWay (h : Keeps touched t t') : t'.OnWay p l ↔ t.OnWay p l := by
  unfold OnWay
  simp only [h.target]

/-- Nothing is at the location yet, which is on the way of the path. -/
def Missing (t : FileTree) (p : Path) (l : Location) : Prop :=
  t.get? l = none ∧ t.OnWay p l

theorem Keeps.missing (h : Keeps touched t t') (hl : t'.Missing p l) : t.Missing p l :=
  ⟨h.none_of_none hl.1, h.onWay.mp hl.2⟩

/-- Making a directory fills in nothing but what is missing. -/
theorem keeps_makeDirectory (h : t.makeDirectory p = .ok t') : Keeps (t.Missing p) t t' := by
  unfold makeDirectory at h
  cases hl : t.locate p with
  | error cause =>
    rw [hl] at h
    cases h
  | ok l =>
    simp only [hl, bind, Except.bind] at h
    split at h
    · cases h
    · rename_i hget
      obtain rfl := Except.ok.inj h
      refine (keeps_put_directory hget).mono ?_
      rintro m rfl
      refine ⟨hget, ?_⟩
      rw [locate_eq_target hl]
      exact t.onWay_target p

theorem keeps_ensureDirectory (h : t.ensureDirectory p = .ok t') : Keeps (t.Missing p) t t' := by
  unfold ensureDirectory at h
  split at h
  · rename_i made hmade
    obtain rfl := Except.ok.inj h
    exact keeps_makeDirectory hmade
  · split at h
    · obtain rfl := Except.ok.inj h
      exact Keeps.refl t
    · cases h

/-- A change that may fail keeps what it keeps when it does not. -/
theorem keeps_attempt {r : Except FileCause FileTree} (h : ∀ t', r = .ok t' → Keeps touched t t') :
    Keeps touched t (t.attempt r).1 := by
  cases r with
  | ok t' => exact h t' rfl
  | error cause => exact Keeps.refl t

/-- What is missing on the way to a directory is missing on the way to all that is below. -/
theorem Missing.of_up {anchor : Anchor} {n : String} {up : List String}
    (h : t.Missing ⟨anchor, up.reverse⟩ l) : t.Missing ⟨anchor, (n :: up).reverse⟩ l := by
  refine ⟨h.1, h.2.further rfl ?_⟩
  rw [List.reverse_cons]
  exact List.prefix_append _ _

/-- What is on the way of a path can be made without giving plain names away. -/
theorem Keeps.plainNames (hk : Keeps touched t t') (h : t.PlainNames)
    (htouched : ∀ l, touched l → t.OnWay p l) :
    t'.PlainNames where
  working := hk.working ▸ h.working
  found l hl := by
    by_cases htl : touched l
    · obtain ⟨names, -, rfl⟩ := htouched l htl
      exact h.target _
    · rw [hk.other l htl] at hl
      exact h.found l hl

/-- Making a directory with those on the way to it only fills in what is missing, even if it
fails. -/
theorem keeps_ensureAll (anchor : Anchor) (depth : Nat) (names : List String) (t : FileTree) :
    Keeps (t.Missing ⟨anchor, names.reverse⟩) t (ensureAll anchor depth names t).1 := by
  have hattempt :
      ∀ (names : List String) (t : FileTree), Keeps (t.Missing ⟨anchor, names.reverse⟩) t
      (t.attempt (t.ensureDirectory ⟨anchor, names.reverse⟩)).1 :=
    fun names t => keeps_attempt fun _ h => keeps_ensureDirectory h
  fun_induction ensureAll anchor depth names t with
  | case1 => exact Keeps.refl _
  | case2 depth t n up t' hup p hfound ih =>
    rw [hup] at ih
    have hway := ih.mono fun l hl => Missing.of_up (n := n) hl
    exact hway.trans ((hattempt (n :: up) t').mono fun l hl => hway.missing hl)
  | case3 depth t n up p hfound hfailed ih => exact ih.mono fun l hl => Missing.of_up (n := n) hl
  | case4 depth names t p hother => exact hattempt names t

theorem keeps_ensureDirectories (t : FileTree) (p : Path) :
    Keeps (t.Missing p) t (t.ensureDirectories p).1 := by
  have h := keeps_ensureAll p.anchor maxDepth p.parts.reverse t
  rw [List.reverse_reverse] at h
  exact h

/-! ## Copying -/

theorem get?_ne_none_of_mem {e : Location × Node} (h : e ∈ t.entries) : t.get? e.1 ≠ none := by
  obtain ⟨l, n⟩ := e
  cases l with
  | nil => exact Option.some_ne_none _
  | cons a l =>
    have hfound : (t.entries.find? (·.1 == a :: l)).isSome = true :=
      List.find?_isSome.mpr ⟨_, h, by simp⟩
    intro hnone
    rw [Option.map_eq_none_iff.mp hnone] at hfound
    cases hfound

/-- What is listed below a location is there. -/
theorem get?_ne_none_of_mem_below {e : Location × Node} (h : e ∈ t.below l) :
    t.get? (l ++ e.1) ≠ none := by
  obtain ⟨⟨m, n⟩, hm, hsome⟩ := List.mem_filterMap.mp (List.mem_mergeSort.mp h)
  obtain ⟨hbelow, he⟩ := Option.ite_none_right_eq_some.mp hsome
  obtain rfl := Option.some.inj he
  obtain ⟨rest, rfl⟩ := List.isPrefixOf_iff_prefix.mp (Bool.and_eq_true_iff.mp hbelow).1
  rw [List.drop_left]
  exact get?_ne_none_of_mem hm

/-- What is listed below a path is named without dots. -/
theorem PlainNames.mem_belowPath (h : t.PlainNames) {e : Location × Node} (he : e ∈ t.belowPath p) :
    Plain e.1 := by
  unfold belowPath at he
  split at he
  · split at he
    · exact fun n hn => h.found _ (get?_ne_none_of_mem_below he) n (List.mem_append_right _ hn)
    · cases he
  · cases he

theorem keeps_makeAll (anchor : Anchor) (depth : Nat) (names : List String) (t : FileTree) :
    Keeps (t.Missing ⟨anchor, names.reverse⟩) t (makeAll anchor depth names t).1 := by
  induction depth generalizing names t with
  | zero => exact Keeps.refl t
  | succ depth ih =>
    unfold makeAll
    extract_lets p way
    have hway : Keeps (t.Missing p) t way.1 := by
      unfold way
      split
      · split
        · exact Keeps.refl t
        · exact (ih _ t).mono fun l hl => Missing.of_up hl
      · exact Keeps.refl t
    have hmake : ∀ {t' made : FileTree}, way.1 = t' → t'.makeDirectory p = .ok made →
        Keeps (t.Missing p) t made := by
      rintro _ made rfl hmade
      exact hway.trans ((keeps_makeDirectory hmade).mono fun l hl => hway.missing hl)
    clear_value way
    split
    · rename_i t'
      split
      · rename_i made hmade
        exact hmake rfl hmade
      · split <;> exact hway
    · rename_i t'
      split
      · rename_i made hmade
        exact hmake rfl hmade
      · split <;> exact hway
    · exact hway

/-- Where a file can go that is copied: to its place below the target, or into a directory that is
there. -/
def CopiedTo (t : FileTree) (dst : Path) (names l : Location) : Prop :=
  l = t.target { dst with parts := dst.parts ++ names } ∨
    l = t.target { dst with parts := dst.parts ++ (names ++ [names.getLast?.getD ""]) }

/-- A file without dots in its names is copied to names without dots. -/
theorem plain_copied {names : Location} (h : Plain names) :
    Plain (names ++ [names.getLast?.getD ""]) := by
  refine List.forall_mem_append.mpr ⟨h, List.forall_mem_singleton.mpr ?_⟩
  cases hlast : names.getLast? with
  | none => decide
  | some n => exact h n (List.mem_of_getLast? hlast)

theorem Keeps.copiedTo (h : Keeps touched t t') {dst : Path} {names : Location} :
    t'.CopiedTo dst names l ↔ t.CopiedTo dst names l := by
  unfold CopiedTo
  simp only [h.target]

/-- Copying an entry of a tree fills in what is missing and touches the place of the entry. -/
theorem keeps_copyEntry (source : Location) (dst : Path) (state : FileTree × Bool)
    (entry : Location × Node) :
    Keeps (fun l => state.1.get? l = none ∨ state.1.CopiedTo dst entry.1 l) state.1
      (copyEntry source dst state entry).1 := by
  obtain ⟨t, whole⟩ := state
  obtain ⟨names, n⟩ := entry
  cases n with
  | directory =>
    simp only [copyEntry]
    split
    · rename_i made hmade
      exact (keeps_ensureDirectory hmade).mono fun l hl => Or.inl hl.1
    · exact Keeps.refl t
  | file content =>
    simp only [copyEntry]
    split
    · rename_i l written hl hwritten
      have hkeeps : Keeps (fun l => t.get? l = none ∨ t.CopiedTo dst names l) t written := by
        refine (keeps_write hwritten).mono ?_
        rintro m rfl
        split
        · exact Or.inr (Or.inr (by rw [List.append_assoc]))
        · exact Or.inr (Or.inl rfl)
      split <;> exact hkeeps
    · exact Keeps.refl t

theorem keeps_copyEntries (source : Location) (dst : Path) (entries : List (Location × Node))
    (state : FileTree × Bool) :
    Keeps (fun l => state.1.get? l = none ∨ ∃ e ∈ entries, state.1.CopiedTo dst e.1 l) state.1
      (entries.foldl (copyEntry source dst) state).1 := by
  induction entries generalizing state with
  | nil => exact Keeps.refl _
  | cons e entries ih =>
    have hhead := keeps_copyEntry source dst state e
    refine (hhead.mono fun l hl => hl.imp_right fun hl => ⟨e, List.mem_cons_self, hl⟩).trans
      ((ih _).mono ?_)
    rintro l (hl | ⟨e', he', hl⟩)
    · exact Or.inl (hhead.none_of_none hl)
    · exact Or.inr ⟨e', List.mem_cons_of_mem _ he', hhead.copiedTo.mp hl⟩

/-- Copying a tree fills in what is missing and touches the places of its entries, even if it fails.
-/
theorem keeps_copyTree (t : FileTree) (src dst : Path) :
    Keeps (fun l => t.get? l = none ∨ ∃ e ∈ t.belowPath src, t.CopiedTo dst e.1 l) t
      (t.copyTree src dst).1 := by
  unfold copyTree
  split
  · exact Keeps.refl t
  · rename_i source hsource
    have hmade := keeps_makeAll dst.anchor maxDepth dst.parts.reverse t
    rw [List.reverse_reverse] at hmade
    split
    · rename_i made cause hfailed
      rw [hfailed] at hmade
      exact hmade.mono fun l hl => Or.inl hl.1
    · rename_i made hdone
      rw [hdone] at hmade
      refine (hmade.mono fun l hl => Or.inl hl.1).trans
        ((keeps_copyEntries source dst _ (made, true)).mono ?_)
      rintro l (hl | ⟨e, he, hl⟩)
      · exact Or.inl (hmade.none_of_none hl)
      · exact Or.inr ⟨e, he, hmade.copiedTo.mp hl⟩

end ClassReference.FileTree
