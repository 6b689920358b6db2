import ClassReference.Proofs.FileChanges
import ClassReference.World

/-!
# Proofs: parts of runs that return

A part of a run returns a result and leaves another world (`Run.Returns`). What each primitive part
does is said once, and a sequence returns exactly if its parts do, one after the other.

Log lines go to the ends of files that exist. So logging touches no file but the log files
(`World.keeps_send`). Where there are none, it is enough to say what the parts of a run leave as
files (`Run.Leaves`).
-/

namespace ClassReference

/-! ## Returning -/

namespace Run

variable {ε δ α β : Type} {w w' : World}

/-- The part of a run returns the result and leaves the second world. -/
def Returns (x : Run ε α) (w : World) (a : α) (w' : World) : Prop :=
  (x.run w).1 = .ok a ∧ (x.run w).2 = w'

theorem returns_pure {a b : α} : Returns (pure a : Run ε α) w b w' ↔ a = b ∧ w = w' :=
  and_congr_left fun _ => Except.ok.injEq a b |>.to_iff

/-- A run that has ended early returns nothing. -/
theorem returns_throw {e : ε} {a : α} : ¬ Returns (throw e : Run ε α) w a w' := by
  rintro ⟨h, -⟩
  cases h

/-- A sequence returns exactly if its first part returns and the rest does from the world that is
left. -/
theorem returns_bind {x : Run ε α} {f : α → Run ε β} {b : β} :
    Returns (x >>= f) w b w' ↔ ∃ a w₁, x.Returns w a w₁ ∧ (f a).Returns w₁ b w' := by
  have hrun : (x >>= f).run w = ExceptT.bindCont f (x.run w).1 (x.run w).2 := rfl
  unfold Returns
  rw [hrun]
  cases (x.run w).1 with
  | error e =>
    constructor
    · rintro ⟨h, -⟩
      cases h
    · rintro ⟨a, w₁, ⟨h, -⟩, -⟩
      cases h
  | ok a =>
    constructor
    · exact fun h => ⟨a, _, ⟨rfl, rfl⟩, h⟩
    · rintro ⟨a', w₁, ⟨ha, rfl⟩, h⟩
      obtain rfl := Except.ok.inj ha
      exact h

/-- A part whose result is not used returns whatever the result is. -/
theorem returns_discard {x : Run ε α} {u : PUnit} :
    Returns (discard x) w u w' ↔ ∃ a, x.Returns w a w' := by
  have hbind : discard x = x >>= fun _ => pure PUnit.unit := by
    change Functor.mapConst PUnit.unit x = _
    rw [LawfulFunctor.map_const, Function.comp_apply, map_eq_pure_bind]
  rw [hbind, returns_bind]
  constructor
  · rintro ⟨a, w₁, hx, hpure⟩
    obtain ⟨-, rfl⟩ := returns_pure.mp hpure
    exact ⟨a, hx⟩
  · rintro ⟨a, hx⟩
    exact ⟨a, w', hx, returns_pure.mpr ⟨rfl, rfl⟩⟩

/-- Sending a record returns in every world. -/
theorem returns_tell {level : Log.Level} {channel message : String} {u : Unit} :
    Returns (tell level channel message : Run ε Unit) w u w' ↔
      w.send ⟨level, channel, message⟩ = w' := by
  refine ⟨fun h => h.2, fun h => ⟨rfl, h⟩⟩

theorem returns_files {t : FileTree} :
    Returns (files : Run ε FileTree) w t w' ↔ w.files = t ∧ w = w' :=
  and_congr_left fun _ => Except.ok.injEq w.files t |>.to_iff

/-- Logged work returns its value, and its records are sent in order. -/
theorem returns_logged {x : Logged α} {a : α} :
    Returns (logged x : Run ε α) w a w' ↔ x.value = a ∧ x.log.foldl World.send w = w' :=
  and_congr_left fun _ => Except.ok.injEq x.value a |>.to_iff

/-- A result that may be a failure returns if it is none, and leaves the world as it is. -/
theorem returns_result {f : δ → ε} {r : Except δ α} {a : α} :
    Returns (result f r : Run ε α) w a w' ↔ r = .ok a ∧ w = w' := by
  cases r with
  | ok b =>
    rw [Except.ok.injEq]
    exact returns_pure
  | error e => exact ⟨fun h => absurd h returns_throw, fun h => by cases h.1⟩

theorem returns_adapt {f : δ → ε} {x : Run δ α} {a : α} :
    Returns (adapt f x : Run ε α) w a w' ↔ x.Returns w a w' := by
  have hrun : (adapt f x : Run ε α).run w = ((x.run w).1.mapError f, (x.run w).2) := rfl
  unfold Returns
  rw [hrun]
  cases (x.run w).1 <;> simp [Except.mapError]

/-- A part whose failure does not end the run returns what the part itself returns. -/
theorem returns_attempt {x : Run δ α} {a : α} :
    Returns (attempt x : Run ε (Except δ α)) w (.ok a) w' ↔ x.Returns w a w' := by
  have hrun : (attempt x : Run ε (Except δ α)).run w = (.ok (x.run w).1, (x.run w).2) := rfl
  unfold Returns
  rw [hrun, Except.ok.injEq]

theorem returns_modify {f : World → World} {u : PUnit} :
    Returns (modify f : Run ε PUnit) w u w' ↔ f w = w' :=
  ⟨fun h => h.2, fun h => ⟨rfl, h⟩⟩

/-- A change of the files returns if it does not fail. -/
theorem returns_change {g : FileTree → FileTree × Option FileError} {u : Unit} :
    (change g).Returns w u w' ↔ (g w.files).2 = none ∧ { w with files := (g w.files).1 } = w' := by
  unfold change
  simp only [returns_bind, returns_files, returns_modify]
  constructor
  · rintro ⟨_, _, ⟨rfl, rfl⟩, _, _, rfl, h⟩
    cases hfailed : (g w.files).2 with
    | none =>
      rw [hfailed] at h
      exact ⟨rfl, (returns_pure.mp h).2⟩
    | some e =>
      rw [hfailed] at h
      exact absurd h returns_throw
  · rintro ⟨hdone, rfl⟩
    refine ⟨_, _, ⟨rfl, rfl⟩, (), _, rfl, ?_⟩
    rw [hdone]
    exact returns_pure.mpr ⟨rfl, rfl⟩

end Run

/-! ## Logging -/

namespace World

variable {touched touched' : Location → Prop} {w w' w'' : World} {l : Location}

/-- From one world to another, logging is set up in the same way, and of the files only what is at
touched locations may change. -/
structure Keeps (touched : Location → Prop) (w w' : World) : Prop where
  logging : w'.logging = w.logging
  files : w.files.Keeps touched w'.files

theorem Keeps.trans (h : Keeps touched w w') (h' : Keeps touched w' w'') : Keeps touched w w'' :=
  ⟨h'.logging.trans h.logging, h.files.trans h'.files⟩

theorem Keeps.mono (h : Keeps touched w w') (hsub : ∀ l, touched l → touched' l) :
    Keeps touched' w w' :=
  ⟨h.logging, h.files.mono hsub⟩

/-- A handler writes to the end of the file at the location. -/
def LogsTo (w : World) (l : Location) : Prop :=
  ∃ h ∈ w.logging.handlers, h.sink = .file l

/-- The files that handlers write to exist. -/
def HasLogFiles (w : World) : Prop :=
  ∀ l, w.LogsTo l → ∃ c, w.files.get? l = some (.file c)

theorem Keeps.logsTo (h : Keeps touched w w') : w'.LogsTo l ↔ w.LogsTo l := by
  rw [LogsTo, h.logging, LogsTo]

/-- Changes of files take no log file away. -/
theorem Keeps.hasLogFiles (h : Keeps touched w w') (hlogs : w.HasLogFiles) : w'.HasLogFiles := by
  intro l hl
  obtain ⟨c, hc⟩ := hlogs l (h.logsTo.mp hl)
  exact h.files.file l c hc

/-- A line that is written to a file comes from a handler of that file. -/
theorem logsTo_of_mem_lines {time line : String} {r : Log.Record}
    (h : (.file l, line) ∈ w.logging.lines time r) : w.LogsTo l := by
  have hlast : (.file l, line) ∉ Log.Setup.lastResort r := by
    unfold Log.Setup.lastResort
    split <;> simp
  unfold Log.Setup.lines at h
  split at h
  · split at h
    · split at h
      · exact absurd h hlast
      · obtain ⟨handler, hhandler, heq⟩ := List.mem_map.mp h
        exact ⟨handler, hhandler, (Prod.mk.inj heq).1⟩
    · cases h
  · exact absurd h hlast

theorem keeps_writeLine {x : Log.Sink × String} (hlogs : w.HasLogFiles)
    (h : ∀ l, x.1 = .file l → w.LogsTo l) : Keeps w.LogsTo w (w.writeLine x) := by
  obtain ⟨sink, line⟩ := x
  cases sink with
  | console => exact ⟨rfl, FileTree.Keeps.refl _⟩
  | file l =>
    obtain ⟨c, hc⟩ := hlogs l (h l rfl)
    refine ⟨rfl, (FileTree.keeps_append hc _).mono ?_⟩
    rintro m rfl
    exact h m rfl

/-- Log lines touch the log files only. -/
theorem keeps_writeLines (xs : List (Log.Sink × String)) (hlogs : w.HasLogFiles)
    (h : ∀ x ∈ xs, ∀ l, x.1 = .file l → w.LogsTo l) : Keeps w.LogsTo w (xs.foldl writeLine w) := by
  induction xs generalizing w with
  | nil => exact ⟨rfl, FileTree.Keeps.refl _⟩
  | cons x xs ih =>
    have hhead := keeps_writeLine hlogs (h x List.mem_cons_self)
    refine hhead.trans ((ih (hhead.hasLogFiles hlogs) ?_).mono fun l hl => hhead.logsTo.mp hl)
    intro y hy l hl
    exact hhead.logsTo.mpr (h y (List.mem_cons_of_mem _ hy) l hl)

/-- Sending a record touches the log files only. -/
theorem keeps_send (hlogs : w.HasLogFiles) (r : Log.Record) : Keeps w.LogsTo w (w.send r) := by
  have hlines : ∀ x ∈ w.logging.lines w.time r, ∀ l, x.1 = .file l → w.LogsTo l := by
    rintro ⟨sink, line⟩ hx l rfl
    exact logsTo_of_mem_lines hx
  have hsend :=
    keeps_writeLines (w := { w with sent := w.sent.push r }) (w.logging.lines w.time r) hlogs hlines
  exact ⟨hsend.logging, hsend.files⟩

theorem keeps_sendAll (hlogs : w.HasLogFiles) (rs : List Log.Record) :
    Keeps w.LogsTo w (rs.foldl send w) := by
  induction rs generalizing w with
  | nil => exact ⟨rfl, FileTree.Keeps.refl _⟩
  | cons r rs ih =>
    have hhead := keeps_send hlogs r
    exact hhead.trans ((ih (hhead.hasLogFiles hlogs)).mono fun l hl => hhead.logsTo.mp hl)

/-! ## Without log files -/

/-- Nothing is logged to files. -/
def Quiet (w : World) : Prop :=
  ∀ l, ¬ w.LogsTo l

theorem Quiet.hasLogFiles (h : w.Quiet) : w.HasLogFiles :=
  fun l hl => absurd hl (h l)

theorem Quiet.of_logging {w' : World} (h : w.Quiet) (hlogging : w'.logging = w.logging) :
    w'.Quiet := by
  intro l hl
  rw [LogsTo, hlogging] at hl
  exact h l hl

/-- Where nothing is logged to files, nothing is after a change either. -/
theorem Quiet.of_keeps {touched : Location → Prop} {w' : World} (h : w.Quiet)
    (hk : w.Keeps touched w') : w'.Quiet :=
  h.of_logging hk.logging

theorem files_writeLines (xs : List (Log.Sink × String)) (h : ∀ x ∈ xs, ∀ l, x.1 ≠ .file l) :
    (xs.foldl writeLine w).files = w.files := by
  induction xs generalizing w with
  | nil => rfl
  | cons x xs ih =>
    rw [List.foldl_cons, ih fun y hy => h y (List.mem_cons_of_mem _ hy)]
    obtain ⟨sink, line⟩ := x
    cases sink with
    | console => rfl
    | file l => exact absurd rfl (h _ List.mem_cons_self l)

theorem Quiet.files_send (h : w.Quiet) (r : Log.Record) : (w.send r).files = w.files := by
  refine files_writeLines _ ?_
  rintro ⟨sink, line⟩ hx l rfl
  exact h l (logsTo_of_mem_lines hx)

/-- Without log files, logging leaves the files as they are. -/
theorem Quiet.files_sendAll (h : w.Quiet) (rs : List Log.Record) :
    (rs.foldl send w).files = w.files := by
  induction rs generalizing w with
  | nil => rfl
  | cons r rs ih =>
    rw [List.foldl_cons, ih (h.of_keeps (keeps_send h.hasLogFiles r)), h.files_send]

end World

namespace Run

variable {ε δ α β : Type} {w w' : World} {t t' : FileTree} {a : α} {b : β}

/-- The part of a run returns the result and leaves the files. It sets up logging in no other
way. -/
def Leaves (x : Run ε α) (w : World) (a : α) (t : FileTree) : Prop :=
  ∃ w', x.Returns w a w' ∧ w'.files = t ∧ w'.logging = w.logging

/-- A sequence leaves the files that its last part leaves. -/
theorem Leaves.bind {x : Run ε α} {f : α → Run ε β} (hx : x.Leaves w a t)
    (hf : ∀ w', w'.files = t → w'.logging = w.logging → (f a).Leaves w' b t') :
    (x >>= f).Leaves w b t' := by
  obtain ⟨w₁, hx, hfiles, hlogging⟩ := hx
  obtain ⟨w₂, hfa, hfiles', hlogging'⟩ := hf w₁ hfiles hlogging
  exact ⟨w₂, returns_bind.mpr ⟨a, w₁, hx, hfa⟩, hfiles', hlogging'.trans hlogging⟩

theorem leaves_pure : (pure a : Run ε α).Leaves w a w.files :=
  ⟨w, returns_pure.mpr ⟨rfl, rfl⟩, rfl, rfl⟩

theorem leaves_files : (files : Run ε FileTree).Leaves w w.files w.files :=
  ⟨w, returns_files.mpr ⟨rfl, rfl⟩, rfl, rfl⟩

/-- Without log files, sending a record leaves the files as they are. -/
theorem leaves_tell (h : w.Quiet) (level : Log.Level) (channel message : String) :
    (tell level channel message : Run ε Unit).Leaves w () w.files :=
  ⟨_, returns_tell.mpr rfl, h.files_send _, (World.keeps_send h.hasLogFiles _).logging⟩

theorem leaves_logged (h : w.Quiet) (x : Logged α) :
    (logged x : Run ε α).Leaves w x.value w.files :=
  ⟨_, returns_logged.mpr ⟨rfl, rfl⟩, h.files_sendAll _,
    (World.keeps_sendAll h.hasLogFiles _).logging⟩

theorem leaves_result {f : δ → ε} : (result f (.ok a) : Run ε α).Leaves w a w.files :=
  ⟨w, returns_result.mpr ⟨rfl, rfl⟩, rfl, rfl⟩

/-- A change of the files that does not fail leaves the files that it makes. -/
theorem leaves_change {g : FileTree → FileTree × Option FileError} {f : FileError → ε}
    (h : g w.files = (t, none)) : (adapt f (change g)).Leaves w () t := by
  refine ⟨_, returns_adapt.mpr (returns_change.mpr ⟨?_, rfl⟩), ?_, rfl⟩
  · rw [h]
  · simp only [h]

end Run

end ClassReference
