/-!
# Log records and logged results

Every stage reports what it does as log records, in order. The stages themselves are pure: a result
comes together with the steps of the work behind it, and whoever runs the stage decides what to
show. A step is a record that was sent, or the use of a setting: whoever runs the stage may find
that the setting cannot be used, and then the work counts only up to that step (`Logged.relying`).

Statements about a stage speak of the `value` of its result; `value_pure`, `value_bind`,
`value_tell` and `value_rely` remove the steps from them.
-/

namespace ClassReference

namespace Log

/-- How severe a log record is. -/
inductive Level where
  /-- Detail of the work, for tracing. -/
  | debug
  /-- Progress. -/
  | info
  /-- Something was left out or kept in an unexpected form. -/
  | warning
  /-- Something failed. -/
  | error
  /-- The whole run is at stake. -/
  | critical
deriving DecidableEq, Repr

namespace Level

/-- The number by which levels are compared. -/
def rank : Level → Nat
  | debug => 10
  | info => 20
  | warning => 30
  | error => 40
  | critical => 50

/-- The name of a level as it is logged. -/
def name : Level → String
  | debug => "DEBUG"
  | info => "INFO"
  | warning => "WARNING"
  | error => "ERROR"
  | critical => "CRITICAL"

end Level

/-- One line of the log. -/
structure Record where
  /-- Its severity. -/
  level : Level
  /-- The dotted name of the channel it is sent to. -/
  channel : String
  /-- Its text. -/
  message : String
deriving DecidableEq, Repr

/-! ## Channels

Each part of the program has a channel of its own, below the channel of the whole. -/

/-- The channel of the whole program. -/
def root : String := "apidoc"

/-- Reading source files. -/
def scanning : String := "apidoc.parsers.scanner"

/-- Turning comments into entities. -/
def classifying : String := "apidoc.parsers.classifier"

/-- Expanding inline links. -/
def linking : String := "apidoc.analysis.links"

/-- Resolving the class hierarchy. -/
def resolving : String := "apidoc.analysis.hierarchy"

/-- Collecting sources and building the model. -/
def building : String := "apidoc.generators.doc_builder"

/-- Rendering pages. -/
def rendering : String := "apidoc.generators.template_manager"

/-- Writing the site. -/
def writing : String := "apidoc.output.site"

/-- Loading the configuration. -/
def configuring : String := "apidoc.utils.config"

/-- Loading manifests. -/
def listing : String := "apidoc.utils.manifest"

end Log

/-- A step of work that its result does not show. -/
inductive Log.Step where
  /-- A record was sent. -/
  | sent (r : Log.Record)
  /-- The setting with the given key was used. -/
  | relied (key : String)
deriving DecidableEq, Repr

namespace Log.Step

/-- The record that was sent. -/
def record? : Step → Option Record
  | sent r => some r
  | relied _ => none

/-- The setting that was used, if it is one of the given. -/
def reliedOn? (keys : List String) : Step → Option String
  | sent _ => none
  | relied key => if keys.contains key then some key else none

end Log.Step

/-- A result together with the steps of the work behind it, in order. -/
structure Logged (α : Type) where
  /-- The result. -/
  value : α
  /-- The steps. -/
  steps : List Log.Step := []

namespace Logged

variable {α β : Type}

/-- The records that were sent. -/
def log (x : Logged α) : List Log.Record :=
  x.steps.filterMap Log.Step.record?

/-- Work that only sends one record. -/
def tell (level : Log.Level) (channel message : String) : Logged Unit :=
  ⟨(), [.sent ⟨level, channel, message⟩]⟩

/-- Work that only sends records. -/
def sendAll (records : List Log.Record) : Logged Unit :=
  ⟨(), records.map .sent⟩

/-- Work that only uses a setting. -/
def rely (key : String) : Logged Unit :=
  ⟨(), [.relied key]⟩

instance : Monad Logged where
  pure a := ⟨a, []⟩
  bind x f := ⟨(f x.value).value, x.steps ++ (f x.value).steps⟩

@[simp] theorem value_pure (a : α) : (pure a : Logged α).value = a := rfl

@[simp] theorem value_bind (x : Logged α) (f : α → Logged β) :
    (x >>= f).value = (f x.value).value := rfl

@[simp] theorem value_map (f : α → β) (x : Logged α) : (f <$> x).value = f x.value := rfl

@[simp] theorem value_tell (l : Log.Level) (c m : String) : (tell l c m).value = () := rfl

@[simp] theorem value_sendAll (rs : List Log.Record) : (sendAll rs).value = () := rfl

@[simp] theorem value_rely (key : String) : (rely key).value = () := rfl

instance : LawfulMonad Logged :=
  LawfulMonad.mk' Logged (fun _ => by simp [Functor.map]) (fun _ _ => by simp [bind, pure])
    (fun _ _ _ => by simp [bind])

/-- Work on the elements of a list one after the other results in the list of the results. -/
@[simp] theorem value_mapM (f : α → Logged β) (xs : List α) :
    (xs.mapM f).value = xs.map fun x => (f x).value := by
  induction xs with
  | nil => rfl
  | cons x xs ih => simp [List.mapM_cons, ih]

@[simp] theorem log_pure (a : α) : (pure a : Logged α).log = [] := rfl

@[simp] theorem log_bind (x : Logged α) (f : α → Logged β) :
    (x >>= f).log = x.log ++ (f x.value).log :=
  List.filterMap_append

/-- Work that counts only up to the first use of one of the given settings, on which it fails. -/
def relying (unusable : List String) (x : Logged α) : Logged (Except String α) :=
  match x.steps.findSome? (·.reliedOn? unusable) with
  | some key => ⟨.error key, x.steps.takeWhile fun s => (s.reliedOn? unusable).isNone⟩
  | none => ⟨.ok x.value, x.steps⟩

/-- Work succeeds if every setting can be used. -/
@[simp] theorem relying_nil (x : Logged α) : x.relying [] = ⟨.ok x.value, x.steps⟩ := by
  have none : x.steps.findSome? (·.reliedOn? []) = none := by
    rw [List.findSome?_eq_none_iff]
    intro s _
    cases s <;> simp [Log.Step.reliedOn?]
  simp [relying, none]

end Logged

end ClassReference
