import ClassReference.CommandLine.Run
import ClassReference.Proofs.Runs
import ClassReference.Proofs.SolidNames

/-!
# Proofs: collected files

A source file is classified as it is read, and read on as long as it grows. Nothing of this is seen
in what is collected: it is what the comments that were found add at once
(`Collection.Finds.findIn`). The scanner has found them, so there are no blanks in the words behind
them (`Collection.next_of_addFile`).

So a model that is built from files is one that is built after a history of such additions
(`CommandLine.exists_history_of_buildModel`), and what holds for every history holds for it.
-/

namespace ClassReference

/-! ## Comments of files -/

/-- The words behind the comments of a file have no blanks in them, whether or not it can be read
to its end. -/
theorem SourceFile.wordy_of_mem_scan {files : FileTree} {path : Path} {encoding : Value} {s : Scan}
    (h : scan files path encoding = .ok s) : ∀ x ∈ s.comments, x.Wordy := by
  have hreading : ∀ r, ∀ x ∈ (scanReading r).comments, x.Wordy := by
    rintro (blocks | blocks)
    · exact Comment.wordy_of_mem_scanPieces
    · exact (Scanner.wordy_start.feedAll blocks).2
  simp only [scan] at h
  cases hopened : opened files path encoding with
  | error e =>
    rw [hopened] at h
    cases h
  | ok r =>
    rw [hopened] at h
    cases r with
    | error cause =>
      obtain rfl := Except.ok.inj h
      simp
    | ok e =>
      obtain rfl := Except.ok.inj h
      exact hreading _

/-! ## Classifying in parts -/

theorem Classifier.classifyAll_append (cl : Classifier) (first more : List Comment)
    (ctx : Context) :
    cl.classifyAll (first ++ more) ctx = do
      let results ← cl.classifyAll first ctx
      return results ++ (← cl.classifyAll more ((results.getLast?.map (·.context)).getD ctx)) := by
  induction first generalizing ctx with
  | nil => simp [classifyAll]
  | cons x first ih => simp [classifyAll, ih, List.getLast?_cons, Option.getD_map]

/-- The findings with those in further comments. -/
def Findings.extended (f : Findings) (results : List Classification) : Findings where
  context := (results.getLast?.map (·.context)).getD f.context
  entities := f.entities ++ results.flatMap (·.entities)

theorem Findings.extended_append (f : Findings) (first more : List Classification) :
    f.extended (first ++ more) = (f.extended first).extended more := by
  simp only [extended, List.flatMap_append, List.append_assoc, List.getLast?_append]
  cases more.getLast? <;> rfl

namespace Collection

variable {c c' : Collection} {fileName : String} {comments more : List Comment} {f g : Findings}
  {w w' : World}

theorem findIn_eq (h : (c.findIn f more).Returns w g w') :
    (∀ s ∈ (c.session.classifier.classifyAll more f.context).steps,
      s.reliedOn? c.config.unusable = none) ∧
    g = f.extended (c.session.classifier.classifyAll more f.context).value := by
  simp only [findIn, Run.returns_bind, Run.returns_logged, Run.returns_result,
    Run.returns_pure] at h
  obtain ⟨_, _, ⟨hr, -⟩, results, _, ⟨hok, -⟩, rfl, -⟩ := h
  obtain ⟨hsteps, rfl⟩ := Logged.relying_value_eq_ok.mp (hr.trans hok)
  exact ⟨hsteps, rfl⟩

/-- The findings are those in the comments of a file, and every setting that they rely on can be
used. -/
structure Finds (c : Collection) (fileName : String) (comments : List Comment) (f : Findings) :
    Prop where
  usable : ∀ s ∈ (c.session.classifier.classifyAll comments { fileName }).steps,
    s.reliedOn? c.config.unusable = none
  findings : f = Findings.extended { context := { fileName } }
    (c.session.classifier.classifyAll comments { fileName }).value

theorem finds_nil (c : Collection) (fileName : String) :
    c.Finds fileName [] { context := { fileName } } where
  usable := by
    intro s hs
    cases hs
  findings := rfl

/-- What is found in further comments is what is found in all of them at once. -/
theorem Finds.findIn (h : c.Finds fileName comments f) (hmore : (c.findIn f more).Returns w g w') :
    c.Finds fileName (comments ++ more) g := by
  obtain ⟨hsteps, rfl⟩ := findIn_eq hmore
  obtain ⟨husable, rfl⟩ := h
  constructor
  · rw [Classifier.classifyAll_append]
    intro s hs
    rcases List.mem_append.mp hs with hs | hs
    · exact husable s hs
    · rcases List.mem_append.mp hs with hs | hs
      · exact hsteps s hs
      · cases hs
  · rw [Classifier.classifyAll_append, ← Findings.extended_append]
    rfl

theorem Finds.contribution (h : c.Finds fileName comments f) :
    c.contribution (.comments comments fileName) = .ok (Catalog.ofEntities f.entities) := by
  obtain ⟨husable, rfl⟩ := h
  exact contribution_eq_ok.mpr ⟨husable, rfl⟩

/-! ## Reading on -/

/-- The findings are those in comments without blanks in the words behind them. -/
def FindsWordy (c : Collection) (fileName : String) (f : Findings) : Prop :=
  ∃ comments, (∀ x ∈ comments, x.Wordy) ∧ c.Finds fileName comments f

theorem FindsWordy.findIn (h : c.FindsWordy fileName f) (hwordy : ∀ x ∈ more, x.Wordy)
    (hmore : (c.findIn f more).Returns w g w') : c.FindsWordy fileName g := by
  obtain ⟨comments, hcomments, hfinds⟩ := h
  exact ⟨comments ++ more, List.forall_mem_append.mpr ⟨hcomments, hwordy⟩, hfinds.findIn hmore⟩

theorem FindsWordy.next_keep (h : c.FindsWordy fileName f) :
    ∃ a : Addition, a.Wordy ∧ c.next (.add a) = ((c.keep f).1, .collected (.ok (c.keep f).2)) := by
  obtain ⟨comments, hwordy, hfinds⟩ := h
  refine ⟨.comments comments fileName, hwordy, ?_⟩
  rw [next, hfinds.contribution]
  rfl

/-- However often a file is read on, only comments of the scanner are found in it. -/
theorem FindsWordy.readOn {path : Path} {e : Encoding} {rounds : Nat} {p : Progress}
    (hscanner : p.scanner.Wordy) (hfound : c.FindsWordy fileName p.findings)
    (h : (c.readOn path e rounds p).Returns w f w') : c.FindsWordy fileName f := by
  -- a round leaves both: no blanks wait in the scanner, and what was found comes from such comments
  induction rounds generalizing p w with
  | zero => exact absurd h Run.returns_throw
  | succ rounds ih =>
    rw [Collection.readOn, Run.returns_bind] at h
    obtain ⟨files, _, -, h⟩ := h
    dsimp only at h
    split at h
    · exact hfound.findIn hscanner.close h
    · split at h
      · rename_i blocks _
        obtain ⟨hnext, hcomments⟩ := hscanner.feedAll blocks
        obtain ⟨findings, _, hfindIn, h⟩ := Run.returns_bind.mp h
        exact ih hnext (hfound.findIn hcomments hfindIn) h
      · rename_i blocks _
        obtain ⟨findings, _, hfindIn, h⟩ := Run.returns_bind.mp h
        obtain ⟨_, _, -, h⟩ := Run.returns_bind.mp h
        obtain ⟨rfl, -⟩ := Run.returns_pure.mp h
        exact hfound.findIn (hscanner.feedAll blocks).2 hfindIn

/-! ## Files -/

/-- A file that is collected adds what comments add without blanks in the words behind them. -/
theorem next_of_addFile {path : Path} {found : Catalog}
    (h : (c.addFile path).Returns w (c', found) w') :
    ∃ a : Addition, a.Wordy ∧ c.next (.add a) = (c', .collected (.ok found)) := by
  have hnone : c.FindsWordy path.name { context := { fileName := path.name } } :=
    ⟨[], by simp, c.finds_nil path.name⟩
  obtain ⟨f, hfinds, hkeep⟩ : ∃ f, c.FindsWordy path.name f ∧ c.keep f = (c', found) := by
    simp only [addFile, Run.returns_bind] at h
    obtain ⟨_, _, -, _, _, -, opened, _, -, h⟩ := h
    cases opened with
    | error cause =>
      obtain ⟨_, _, -, h⟩ := Run.returns_bind.mp h
      exact ⟨_, hnone, (Run.returns_pure.mp h).1⟩
    | ok e =>
      obtain ⟨f, _, hread, h⟩ := Run.returns_bind.mp h
      exact ⟨f, hnone.readOn Scanner.wordy_start hread, (Run.returns_pure.mp h).1⟩
  obtain ⟨a, ha, hnext⟩ := hfinds.next_keep
  refine ⟨a, ha, ?_⟩
  rw [hnext, hkeep]

theorem nextAll_of_addFiles {ε : Type} {paths : List Path} {failure : Option SourceError}
    (h : Run.Returns (c.addFiles paths : Run ε _) w (c', failure) w') :
    ∃ additions : List Addition, (∀ a ∈ additions, a.Wordy) ∧
      (c.nextAll (additions.map .add)).1 = c' := by
  induction paths generalizing c w with
  | nil =>
    obtain ⟨heq, -⟩ := Run.returns_pure.mp h
    exact ⟨[], by simp, (Prod.mk.inj heq).1⟩
  | cons path paths ih =>
    rw [addFiles, Run.returns_bind] at h
    obtain ⟨r, w₁, hattempt, h⟩ := h
    cases r with
    | error e =>
      obtain ⟨heq, -⟩ := Run.returns_pure.mp h
      exact ⟨[], by simp, (Prod.mk.inj heq).1⟩
    | ok result =>
      obtain ⟨c₁, found⟩ := result
      obtain ⟨a, ha, hnext⟩ := next_of_addFile (Run.returns_attempt.mp hattempt)
      obtain ⟨additions, hwordy, hall⟩ := ih h
      refine ⟨a :: additions, List.forall_mem_cons.mpr ⟨ha, hwordy⟩, ?_⟩
      rw [List.map_cons, nextAll, hnext]
      exact hall

end Collection

/-- A model that is built from files is what a build answers after additions that have no blanks in
the words behind their comments. -/
theorem CommandLine.exists_history_of_buildModel {config : Config} {paths : List Path}
    {w w' : World} {model : Model} (h : (buildModel config paths).Returns w model w') :
    ∃ history : List Collection.Call, (∀ a ∈ Collection.additionsOf history, a.Wordy) ∧
      ∀ w, Collection.answer config history .build w = .built (.ok model) := by
  rw [buildModel, Run.returns_bind] at h
  obtain ⟨⟨c, failure⟩, w₁, hadd, h⟩ := h
  obtain ⟨additions, hwordy, rfl⟩ := Collection.nextAll_of_addFiles hadd
  have hadditions : Collection.additionsOf (additions.map .add) = additions := by
    simp [Collection.additionsOf, List.filterMap_map]
  refine ⟨additions.map .add, by rwa [hadditions], ?_⟩
  intro w
  rw [Collection.answer_eq, Collection.next]
  cases failure with
  | some e =>
    obtain ⟨_, _, hthrow, -⟩ := Run.returns_bind.mp h
    exact absurd hthrow Run.returns_throw
  | none =>
    obtain ⟨_, _, hbuild, h⟩ := Run.returns_bind.mp h
    obtain ⟨rfl, -⟩ := Run.returns_logged.mp hbuild
    split at h
    · rename_i hbuilt
      obtain ⟨rfl, -⟩ := Run.returns_pure.mp h
      rw [hbuilt]
    · obtain ⟨_, _, -, hthrow⟩ := Run.returns_bind.mp h
      exact absurd hthrow Run.returns_throw

end ClassReference
