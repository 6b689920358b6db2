import ClassReference.Collection
import ClassReference.CommandLine.Help
import ClassReference.Log.Setup
import ClassReference.Site

/-!
# Running the program

A run reads its arguments, loads the configuration, sets up logging, and carries out a command. It
ends with an exit code; a fault that the program does not deal with ends it without one.
-/

namespace ClassReference.CommandLine

/-- A fault that the program does not deal with. -/
inductive Fault where
  /-- The configuration has the wrong shape or could not be read. -/
  | config (e : ConfigError)
  /-- Logging could not be set up. -/
  | logging (e : Log.SetupError)
  /-- An argument has a null character in it. -/
  | nullCharacter
  /-- A setting cannot be used. -/
  | setting (e : SettingError)
  /-- The manifest or the description of the template set could not be read. -/
  | manifest (e : ManifestError)
  /-- The sources could not be listed. -/
  | listing (e : SourceListError)
  /-- A source could not be collected. -/
  | source (e : SourceError)
  /-- The output could not be written. -/
  | site (e : SiteError)
deriving DecidableEq, Repr

/-- What is said about a fault. -/
def Fault.message : Fault → String
  | config e => e.message
  | logging e => e.message
  | nullCharacter => "an argument cannot have a null character"
  | setting e => e.message
  | manifest e => e.message
  | listing e => e.message
  | source e => e.message
  | site e => e.message

/-- How a run ends. -/
inductive Ending where
  /-- With an exit code. -/
  | exit (code : Nat)
  /-- By a fault. -/
  | fault (f : Fault)
deriving DecidableEq, Repr

/-- A part of a run of the program. -/
abbrev Work (α : Type) := Run Ending α

/-! ## Ending early -/

/-- Ends the run with an error. -/
def fail {α : Type} (message : String) : Work α := do
  Run.complain ("Error: " ++ message)
  throw (.exit 1)

/-- Ends the run because of its arguments. -/
def misuse {α : Type} (message : String) : Work α := do
  Run.complain ("Error: " ++ message)
  throw (.exit 2)

/-- Ends the run because of its arguments, with a reminder of what can be given. -/
def misuseOf {α : Type} (t : Topic) (message : String) : Work α := do
  Run.complain t.usage
  Run.complain t.hint
  Run.complain ""
  misuse message

/-- Ends the run after printing a text. -/
def finish {α : Type} (text : String) : Work α := do
  Run.print text
  throw (.exit 0)

/-! ## Arguments -/

/-- What is said about options that are close to one that does not exist. -/
def suggestion : List String → String
  | [] => ""
  | [name] => " Did you mean " ++ name ++ "?"
  | names => " (Possible options: " ++ String.intercalate ", " names ++ ")"

/-- Reads arguments. -/
def readArguments (t : Topic) (args : List String) : Work Arguments :=
  match t.grammar.read args with
  | .ok a => pure a
  | .error (.unknown name close) => misuseOf t ("No such option: " ++ name ++ suggestion close)
  | .error (.noValue name) => misuse ("Option " ++ Text.quoted name ++ " requires an argument.")
  | .error (.extraValue name) => misuse ("Option " ++ Text.quoted name ++ " does not take a value.")

/-- Prints help or the version, whichever was asked for first. -/
def answerQuestions (t : Topic) (a : Arguments) : Work Unit :=
  match a.rules.find? fun r => r == helpOption || r == versionOption with
  | some r => if r == helpOption then finish t.help else finish version
  | none => pure ()

/-- What is wrong with the value of an option, if anything is. -/
def valueFault (files : FileTree) (kind : ValueKind) (value : String) : Option String :=
  match kind, files.lookupWritten value with
  | .file, .error _ => some ("File " ++ Text.quoted value ++ " does not exist.")
  | .file, .ok .directory => some ("File " ++ Text.quoted value ++ " is a directory.")
  | .directory, .ok (.file _) => some ("Directory " ++ Text.quoted value ++ " is a file.")
  | _, _ => none

/-- Checks that an argument names a path, be anything there or not. -/
def checkName (s : String) : Work Unit :=
  if s.toList.contains (Char.ofNat 0) then throw (.fault .nullCharacter) else pure ()

/-- Checks the value of an option. -/
def checkOption (t : Topic) (a : Arguments) (rule : OptionRule) : Work Unit := do
  if let (some kind, some value) := (rule.value, a.value? rule.name) then
    checkName value
    if let some fault := valueFault (← Run.files) kind value then
      misuseOf t ("Invalid value for '" ++ rule.name ++ "': " ++ fault)

/-- Checks that something is at a path. -/
def checkPath (t : Topic) (p : String) : Work Unit := do
  checkName p
  if let .error _ := (← Run.files).lookupWritten p then
    misuseOf t ("Invalid value for '[PATHS]...': Path " ++ Text.quoted p ++ " does not exist.")

/-- Reads and checks arguments: first the questions, then the options in the order in which they
were given. -/
def takeArguments (t : Topic) (args : List String) : Work Arguments := do
  let a ← readArguments t args
  answerQuestions t a
  a.rules.forM (checkOption t a)
  return a

/-! ## Commands -/

/-- A text that is given and not empty. -/
def given? (s : Option String) : Option String :=
  s.filter (· != "")

/-- Ends the run because a document could not be loaded. -/
def failLoading {α : Type} (e : ManifestError) : Work α :=
  match e with
  | .faulty .. => fail e.message
  | .unread _ => throw (.fault (.manifest e))

/-- The source files that a manifest and paths stand for. -/
def sourceFiles (config : Config) (a : Arguments) : Work (List Path) := do
  let listed ← match given? (a.value? manifestOption.name) with
    | none => pure []
    | some manifest =>
      match ← Run.logged (Manifest.load (← Run.files) (Path.ofString manifest)) with
      | .ok paths => pure paths
      | .error e => failLoading e
  let found ← Run.result (Ending.fault ∘ .listing) (SourceList.ofPaths config (← Run.files) a.rest)
  if (listed ++ found).isEmpty then
    fail "No source files given (use PATHS or --manifest)"
  return listed ++ found

/-- The model of the entities in source files. -/
def buildModel (config : Config) (paths : List Path) : Work Model := do
  let (c, failure) ← (Collection.start config).addFiles paths
  if let some e := failure then
    throw (.fault (.source e))
  match (← Run.logged c.session.build).2 with
  | .ok model => return model
  | .error cycle => fail cycle.message

/-- Lists the source files. -/
def listFiles (paths : List Path) : Work Unit := do
  paths.forM fun p => Run.print ("  Would process: " ++ p.toString)
  Run.print "Dry run complete. Nothing written."

/-- The template set to use: that of the option, that of the configuration, or the built-in one. -/
def templateSet (config : Config) (a : Arguments) : Work TemplateSet := do
  let directory ← match given? (a.value? templatesOption.name) with
    | some s => pure (Path.ofString s)
    | none =>
      if config.output.templates.truthy then
        match config.output.templates with
        | .str s => pure (Path.ofString s)
        | _ => throw (.fault (.setting ⟨"template_dir"⟩))
      else
        pure { anchor := .builtin }
  match TemplateSet.load (← Run.files) directory with
  | .ok set => return set
  | .error (.manifest e) => failLoading e
  | .error (.resources e) => throw (.fault (.setting e))

/-- The output directory, as it was given. -/
def outputDirectory (config : Config) (a : Arguments) : Work String :=
  match given? (a.value? outputDirectoryOption.name), config.output.directory with
  | some s, _ => pure s
  | none, .str s => pure s
  | none, _ => throw (.fault (.setting ⟨"output_dir"⟩))

/-- Whether something that a site needs was not found. -/
def isNotFound : SiteError → Bool
  | .file e => e.cause == .notFound
  | .noResource _ => true
  | .page _ => false

/-- Writes the site. -/
def build (config : Config) (a : Arguments) : Work Unit := do
  let paths ← sourceFiles config a
  Run.print ("Found " ++ toString paths.length ++ " source files")
  if a.has dryRunOption.name then
    listFiles paths
  else
    let set ← templateSet config a
    let model ← buildModel config paths
    let renderer : Renderer := { set, extension := config.pageExtension }
    Run.logged (renderer.start (← Run.files))
    let directory ← outputDirectory config a
    let site : Site := { directory := Path.ofString directory, renderer }
    match ← Run.attempt (site.write model) with
    | .ok () =>
      Run.print ("Documentation for " ++ toString model.classes.length ++ " classes written to "
        ++ directory)
    | .error e => if isNotFound e then fail e.message else throw (.fault (.site e))

/-- Dumps the model. -/
def inspect (config : Config) (a : Arguments) : Work Unit := do
  let model ← buildModel config (← sourceFiles config a)
  match given? (a.value? outputOption.name) with
  | none => Run.print model.toJson
  | some output =>
    Run.adapt (Ending.fault ∘ .site) (model.writeJson (Path.ofString output))
    Run.print ("Model written to " ++ output)

mutual

/-- The lines of a package: its packages, each with what is in it, and its classes. -/
def packageLines (indent : String) : Package → List String
  | ⟨_, _, packages, classes⟩ =>
    packagesLines indent packages ++ classes.map fun c => indent ++ c.short

/-- The lines of packages. -/
def packagesLines (indent : String) : List Package → List String
  | [] => []
  | p :: ps =>
    (indent ++ p.name ++ "/") :: packageLines (indent ++ "  ") p ++ packagesLines indent ps

end

/-- Prints the packages. -/
def tree (config : Config) (a : Arguments) : Work Unit := do
  let model ← buildModel config (← sourceFiles config a)
  (packageLines "" model.tree).forM Run.print
  Run.print ("\nTotal: " ++ toString model.classes.length ++ " classes")

/-- Carries out a command. -/
def carryOut (config : Config) (c : Command) (args : List String) : Work Unit := do
  let a ← takeArguments (.command c) args
  a.rest.forM (checkPath (.command c))
  match c with
  | .build => build config a
  | .inspect => inspect config a
  | .tree => tree config a

/-! ## The program -/

/-- The command with the given name. A name that could not be one shows the help. -/
def commandOf (name : String) : Work Command :=
  match Command.ofName? name with
  | some c => pure c
  | none =>
    match name.toList with
    | c :: _ =>
      if Text.isAlphanumeric c then noCommand else finish Topic.program.help
    | [] => noCommand
where
  /-- Ends the run because there is no such command. -/
  noCommand : Work Command := misuseOf .program ("No such command " ++ Text.quoted name ++ ".")

/-- Loads the configuration and sets up logging. -/
def prepare (a : Arguments) : Work Config := do
  match ← Run.logged (Config.load (← Run.files) (a.value? configOption.name)) with
  | .error (.fault .malformed) => fail ("Invalid configuration: " ++ DocumentFault.malformed.reason)
  | .error (.fault .unprintable) =>
    fail ("Invalid configuration: " ++ DocumentFault.unprintable.reason)
  | .error e => throw (.fault (.config e))
  | .ok config =>
    let settings := config.logging
    Run.adapt (Ending.fault ∘ .logging) (Log.setUp settings.level settings.format settings.file)
    return config

/-- Runs the program. -/
def run (args : List String) : Work Unit := do
  if args.isEmpty then
    finish Topic.program.help
  let a ← takeArguments .program args
  match a.rest with
  | [] => misuseOf .program "Missing command."
  | name :: rest =>
    let c ← commandOf name
    carryOut (← prepare a) c rest

/-- How a run of the program ends, and what it leaves. -/
def outcome (args : List String) (w : World) : Ending × World :=
  match (run args).run.run w with
  | (.ok (), w) => (.exit 0, w)
  | (.error e, w) => (e, w)

end ClassReference.CommandLine
