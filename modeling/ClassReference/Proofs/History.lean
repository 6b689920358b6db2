import ClassReference.Collection
import ClassReference.Proofs.DeclaredHalves

/-!
# Proofs: the history of a collection

A collection is called again and again: sources are added, models are built, and some builds fail.
What a call answers depends on the additions before it and on nothing else in its history
(`answer_independent_of_history`). The world, in which the calls leave their log records, has no
influence on the answers; so a run of calls is first replaced by a function without a world (`next`,
`nextAll`).
-/

namespace ClassReference

namespace Collection

/-- Something to be collected. -/
inductive Addition where
  /-- A source text, with the name of its file. -/
  | source (text fileName : String)
  /-- The comments of a source, with the name of its file. -/
  | comments (comments : List Comment) (fileName : String)
deriving DecidableEq, Repr

/-- A call of a collection. -/
inductive Call where
  /-- Something is to be collected. -/
  | add (a : Addition)
  /-- A model is to be built. -/
  | build
deriving DecidableEq, Repr

/-- What a call answers. -/
inductive Answer where
  /-- The entities that were collected, or why they could not be. -/
  | collected (found : Except SourceError Catalog)
  /-- The model that was built, or the cycle that was met. -/
  | built (result : Except Cycle Model)

/-- Collects an addition. -/
def collect (c : Collection) : Addition → Run SourceError (Collection × Catalog)
  | .source text fileName => c.addSource text fileName
  | .comments comments fileName => c.addComments comments fileName

/-- Carries out a call. An addition that cannot be collected leaves the collection as it is. -/
def perform (c : Collection) : Call → StateM World (Collection × Answer)
  | .add a => do
    match ← (c.collect a).run with
    | .ok (c, found) => return (c, .collected (.ok found))
    | .error e => return (c, .collected (.error e))
  | .build => do
    let built := c.session.build
    modify fun w => built.log.foldl World.send w
    return ({ c with session := built.value.1 }, .built built.value.2)

/-- Carries out calls one after the other. -/
def performAll (c : Collection) : List Call → StateM World (Collection × List Answer)
  | [] => return (c, [])
  | call :: calls => do
    let (c, answer) ← c.perform call
    let (c, answers) ← c.performAll calls
    return (c, answer :: answers)

/-- The comments of an addition, with the name of their file. -/
def Addition.file : Addition → List Comment × String
  | source text fileName => (Comment.scan text, fileName)
  | comments found fileName => (found, fileName)

/-- The entities of an addition, or why they cannot be collected. -/
def contribution (c : Collection) (a : Addition) : Except SourceError Catalog :=
  match ((c.session.classifier.classifyAll a.file.1 { fileName := a.file.2 }).relying
    c.config.unusable).value with
  | .ok results => .ok (Catalog.ofEntities (results.flatMap (·.entities)))
  | .error key => .error (.setting ⟨key⟩)

/-- What a call makes of a collection, and what it answers. -/
def next (c : Collection) : Call → Collection × Answer
  | .add a =>
    match c.contribution a with
    | .ok found => ({ c with session := c.session.add found }, .collected (.ok found))
    | .error e => (c, .collected (.error e))
  | .build => ({ c with session := c.session.build.value.1 }, .built c.session.build.value.2)

theorem addComments_value (c : Collection) (comments : List Comment) (fileName : String)
    (w : World) :
    ((c.addComments comments fileName).run w).1 =
      (c.contribution (.comments comments fileName)).map fun found =>
        ({ c with session := c.session.add found }, found) := by
  simp only [contribution, Addition.file, addComments, findIn, Run.logged]
  cases (c.session.classifier.classifyAll comments { fileName }).relying c.config.unusable
    |>.value <;> rfl

theorem collect_value (c : Collection) (a : Addition) (w : World) :
    ((c.collect a).run w).1 = (c.contribution a).map fun found =>
      ({ c with session := c.session.add found }, found) := by
  cases a with
  | source text fileName => exact c.addComments_value (Comment.scan text) fileName w
  | comments found fileName => exact c.addComments_value found fileName w

/-- The world has no influence on what a call makes of a collection and what it answers. -/
theorem perform_value (c : Collection) (call : Call) (w : World) :
    (c.perform call w).1 = c.next call := by
  cases call with
  | build => rfl
  | add a =>
    have hrun : (c.perform (.add a) w).1 =
        match ((c.collect a).run w).1 with
        | .ok (c, found) => (c, .collected (.ok found))
        | .error e => (c, .collected (.error e)) := by
      simp only [perform, bind, StateT.bind]
      rcases (c.collect a).run w with ⟨⟨c, found⟩ | e, w'⟩ <;> rfl
    rw [hrun, collect_value, next]
    cases c.contribution a <;> rfl

/-- What calls make of a collection, and what they answer. -/
def nextAll (c : Collection) : List Call → Collection × List Answer
  | [] => (c, [])
  | call :: calls =>
    (((c.next call).1.nextAll calls).1, (c.next call).2 :: ((c.next call).1.nextAll calls).2)

theorem performAll_value (c : Collection) (calls : List Call) (w : World) :
    (c.performAll calls w).1 = c.nextAll calls := by
  induction calls generalizing c w with
  | nil => rfl
  | cons call calls ih =>
    rw [nextAll, ← perform_value c call w]
    rw [← ih _ (c.perform call w).2]
    rfl

/-! ## Collections that agree -/

/-- Two collections have the same configuration, and their sessions agree. -/
structure Agrees (c d : Collection) : Prop where
  config : c.config = d.config
  session : c.session.Agrees d.session

theorem Agrees.refl (c : Collection) : c.Agrees c :=
  ⟨rfl, .refl _⟩

theorem Agrees.trans {c d e : Collection} (h : c.Agrees d) (h' : d.Agrees e) : c.Agrees e :=
  ⟨h.config.trans h'.config, h.session.trans h'.session⟩

theorem Agrees.contribution {c d : Collection} (h : c.Agrees d) (a : Addition) :
    c.contribution a = d.contribution a := by
  unfold Collection.contribution
  rw [h.config, h.session.classifier]

theorem Agrees.next_add {c d : Collection} (h : c.Agrees d) (a : Addition) :
    (c.next (.add a)).1.Agrees (d.next (.add a)).1 := by
  simp only [next, h.contribution a]
  cases d.contribution a with
  | ok found => exact ⟨h.config, h.session.add found⟩
  | error e => exact h

theorem agrees_next_build (c : Collection) : (c.next .build).1.Agrees c :=
  ⟨rfl, c.session.agrees_build⟩

theorem Agrees.answer {c d : Collection} (h : c.Agrees d) (call : Call) :
    (c.next call).2 = (d.next call).2 := by
  cases call with
  | build => exact congrArg Answer.built h.session.build_result
  | add a =>
    simp only [next, h.contribution a]
    cases d.contribution a <;> rfl

/-- What can be collected of an addition does not depend on the calls before. -/
theorem contribution_next (c : Collection) (call : Call) (a : Addition) :
    (c.next call).1.contribution a = c.contribution a := by
  cases call with
  | build => exact c.agrees_next_build.contribution a
  | add b =>
    rw [next]
    cases c.contribution b <;> rfl

theorem contribution_nextAll (c : Collection) (calls : List Call) (a : Addition) :
    (c.nextAll calls).1.contribution a = c.contribution a := by
  induction calls generalizing c with
  | nil => rfl
  | cons call calls ih => rw [nextAll, ih, contribution_next]

/-- The additions among some calls. -/
def additionsOf (calls : List Call) : List Addition :=
  calls.filterMap fun
    | .add a => some a
    | .build => none

/-- Without the builds among them, calls make of a collection one that agrees with it. -/
theorem Agrees.nextAll {c d : Collection} (h : c.Agrees d) (calls : List Call) :
    (c.nextAll calls).1.Agrees (d.nextAll ((additionsOf calls).map .add)).1 := by
  induction calls generalizing c d with
  | nil => exact h
  | cons call calls ih =>
    cases call with
    | build => exact ih (c.agrees_next_build.trans h)
    | add a => exact ih (h.next_add a)

/-! ## Answers -/

/-- The answer to a call after some other calls, of a collection that held nothing before. -/
def answer (config : Config) (history : List Call) (call : Call) (w : World) : Answer :=
  ((do
    let (c, _) ← (start config).performAll history
    c.perform call : StateM World (Collection × Answer)) w).1.2

theorem answer_eq (config : Config) (history : List Call) (call : Call) (w : World) :
    answer config history call w = (((start config).nextAll history).1.next call).2 := by
  rw [← performAll_value (start config) history w, ← perform_value _ call
    ((start config).performAll history w).2]
  rfl

/-- Whatever was called before, builds that failed included, an addition contributes what it
contributes to a collection that holds nothing, and a build answers what it answers after the same
additions and no other build. That is because resolution does not depend on what an earlier one has
filled in. -/
theorem answer_independent_of_history (config : Config) (history : List Call) (w w' : World) :
    (∀ a, answer config history (.add a) w = answer config [] (.add a) w') ∧
    answer config history .build w = answer config ((additionsOf history).map .add) .build w' ∧
    ∀ (rules : Hierarchy.Rules) (c c' : Catalog),
      c.classes.map ClassEntry.declared = c'.classes.map ClassEntry.declared →
      c.members = c'.members →
      (Hierarchy.resolve rules c).value.outcome = (Hierarchy.resolve rules c').value.outcome := by
  refine ⟨fun a => ?_, ?_, fun rules c c' hclasses hmembers => ?_⟩
  · rw [answer_eq, answer_eq]
    simp only [next, contribution_nextAll]
    cases (start config).contribution a <;> rfl
  · rw [answer_eq, answer_eq]
    exact ((Agrees.refl (start config)).nextAll history).answer .build
  · rw [Hierarchy.resolve_outcome, Hierarchy.resolve_outcome,
      Hierarchy.settleAll_congr rules hclasses hmembers]

/-- A configuration by which excluded classes pass on members. -/
def excludedInherit : Config :=
  { hierarchy := { inheritFromExcluded := .bool true } }

/-- Two classes that are parents of each other, one of them excluded. -/
def loopedClasses : Addition :=
  .comments [{ body := "@class A\n@extends B\n@private" }, { body := "@class B\n@extends A" }] "a"

/-- A public definition of the excluded class, without a parent. -/
def publicRoot : Addition :=
  .comments [{ body := "@class A" }] "b"

/-- The entities of the two classes. -/
def loopedCatalog : Catalog where
  classes := [{ name := ⟨"A", "A"⟩, definedIn := "a", parentName := some "B", excluded := true },
    { name := ⟨"B", "B"⟩, definedIn := "a", parentName := some "A" }]

/-- The same classes with links that do not fit them. -/
def misresolved : Catalog where
  classes := [{ name := ⟨"A", "A"⟩, definedIn := "a", parentName := some "B", excluded := true,
                parentIndex := some 7 },
    { name := ⟨"B", "B"⟩, definedIn := "a", parentName := some "A", component := true,
      superClasses := [⟨"B", "B"⟩] }]

/-- A world without files. -/
def noFiles : World where
  files := ⟨[], []⟩

theorem loopedClasses_forgotten :
    answer excludedInherit [.add loopedClasses] .build noFiles = .built (.error ⟨["A", "B", "A"]⟩) ∧
    answer excludedInherit [.add loopedClasses, .build, .add publicRoot] .build noFiles =
      answer excludedInherit [.add loopedClasses, .add publicRoot] .build noFiles ∧
    loopedCatalog.classes.map ClassEntry.declared = misresolved.classes.map ClassEntry.declared ∧
    (Hierarchy.resolve {} loopedCatalog).value.outcome =
      (Hierarchy.resolve {} misresolved).value.outcome := by
  have hfound : (start excludedInherit).contribution loopedClasses = .ok loopedCatalog := by
    decide +kernel
  have hcycle : (Hierarchy.resolve excludedInherit.session.rules loopedCatalog).value.outcome =
      .error ⟨["A", "B", "A"]⟩ := by cbv
  have hdeclared : loopedCatalog.classes.map ClassEntry.declared =
      misresolved.classes.map ClassEntry.declared := by
    decide +kernel
  obtain ⟨-, hbuild, hresolve⟩ := answer_independent_of_history excludedInherit
    [.add loopedClasses, .build, .add publicRoot] noFiles noFiles
  refine ⟨?_, hbuild, hdeclared, hresolve {} loopedCatalog misresolved hdeclared rfl⟩
  rw [answer_eq]
  simp only [nextAll, next, hfound, Session.build_result]
  change Answer.built
    ((Hierarchy.resolve excludedInherit.session.rules loopedCatalog).value.outcome.map _) = _
  rw [hcycle]
  rfl

end Collection

end ClassReference
