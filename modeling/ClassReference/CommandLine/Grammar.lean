import ClassReference.Text.Similarity

/-!
# Command line options

Options are written `--name value` or `--name=value`, and those with a letter also `-n value` or
`-nvalue`. Letters of options without values can be written together. Two dashes end the options; a
single dash is no option. The program itself takes options only before the name of its command; a
command takes them anywhere among its paths.
-/

namespace ClassReference.CommandLine

/-- What the value of an option names. -/
inductive ValueKind where
  /-- A file that exists. -/
  | file
  /-- A directory, which need not exist. -/
  | directory
  /-- Something that need not exist. -/
  | path
deriving DecidableEq, Repr

/-- An option. -/
structure OptionRule where
  /-- Its name, with the dashes. -/
  name : String
  /-- Its letter, if it has one. -/
  letter : Option Char := none
  /-- What its value names; none if it takes no value. -/
  value : Option ValueKind := none
deriving DecidableEq, Repr

/-- How arguments are read. -/
structure Grammar where
  /-- The options. -/
  options : List OptionRule
  /-- Whether options may stand after other arguments. -/
  mixed : Bool
deriving DecidableEq, Repr

/-- An option that was given. -/
structure Given where
  /-- The option. -/
  rule : OptionRule
  /-- Its value, if it takes one. -/
  value : Option String
deriving DecidableEq, Repr

/-- The arguments as they were read. -/
structure Arguments where
  /-- The options in the order in which they were given. -/
  given : List Given := []
  /-- The other arguments. -/
  rest : List String := []
deriving DecidableEq, Repr

/-- Why arguments cannot be read. -/
inductive GrammarError where
  /-- There is no such option; some are close to it. -/
  | unknown (name : String) (close : List String)
  /-- The value of an option is missing. -/
  | noValue (name : String)
  /-- An option has a value and takes none. -/
  | extraValue (name : String)
deriving DecidableEq, Repr

namespace Grammar

variable (g : Grammar)

/-- The option with the given name. -/
def named? (name : String) : Option OptionRule :=
  g.options.find? (·.name == name)

/-- The option with the given letter. -/
def lettered? (c : Char) : Option OptionRule :=
  g.options.find? (·.letter == some c)

/-- What an argument was read as, and whether the next argument was its value. -/
abbrev Step := Except GrammarError (List Given × Bool)

/-- Reads an option that takes a value, which stands in the same argument or in the next. -/
def readValue (rule : OptionRule) (name : String) (own next : Option String) : Step :=
  match own, next with
  | some v, _ => .ok ([⟨rule, some v⟩], false)
  | none, some v => .ok ([⟨rule, some v⟩], true)
  | none, none => .error (.noValue name)

/-- Reads an option that is written by its name. -/
def readNamed (rule : OptionRule) (own next : Option String) : Step :=
  match rule.value, own with
  | some _, own => readValue rule rule.name own next
  | none, some _ => .error (.extraValue rule.name)
  | none, none => .ok ([⟨rule, none⟩], false)

/-- Reads options that are written by their letters. -/
def readLetters (next : Option String) : List Char → Step
  | [] => .ok ([], false)
  | c :: cs =>
    let name := String.ofList ['-', c]
    match g.lettered? c with
    | none => .error (.unknown name [])
    | some rule =>
      match rule.value with
      | some _ => readValue rule name (if cs.isEmpty then none else some (String.ofList cs)) next
      | none => do
        let (more, used) ← readLetters next cs
        return (⟨rule, none⟩ :: more, used)

/-- The name of an option, and the value after an equals sign. -/
def nameAndValue (arg : String) : String × Option String :=
  match arg.toList.dropWhile (· != '=') with
  | [] => (arg, none)
  | _ :: value => (String.ofList (arg.toList.takeWhile (· != '=')), some (String.ofList value))

/-- Reads an argument that starts with a dash. -/
def readOption (arg : String) (next : Option String) : Step :=
  let (name, own) := nameAndValue arg
  match g.named? name, arg.toList with
  | some rule, _ => readNamed rule own next
  | none, '-' :: '-' :: _ => .error (.unknown name (Text.closest name (g.options.map (·.name))))
  | none, cs => g.readLetters next (cs.drop 1)

/-- Whether an argument is an option. -/
def isOption (arg : String) : Bool :=
  match arg.toList with
  | '-' :: _ :: _ => true
  | _ => false

/-- Reads arguments. -/
def read : List String → Except GrammarError Arguments
  | [] => .ok {}
  | arg :: rest =>
    if arg = "--" then .ok { rest }
    else if isOption arg then
      match g.readOption arg rest.head? with
      | .error e => .error e
      | .ok (given, used) => do
        let more ← read (if used then rest.tail else rest)
        return { more with given := given ++ more.given }
    else if g.mixed then do
      let more ← read rest
      return { more with rest := arg :: more.rest }
    else
      .ok { rest := arg :: rest }
termination_by args => args.length
decreasing_by
  · rw [List.length_cons]
    split
    · rw [List.length_tail]
      omega
    · omega
  · simp

end Grammar

namespace Arguments

variable (a : Arguments)

/-- Whether an option was given. -/
def has (name : String) : Bool :=
  a.given.any (·.rule.name == name)

/-- The value that was given last for an option. -/
def value? (name : String) : Option String :=
  ((a.given.filter (·.rule.name == name)).getLast?).bind (·.value)

/-- The options that were given, each once, in the order in which they were given first. -/
def rules : List OptionRule :=
  (a.given.map (·.rule)).foldl (fun seen r => if seen.contains r then seen else seen ++ [r]) []

end Arguments

end ClassReference.CommandLine
