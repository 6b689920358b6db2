import ClassReference.CommandLine.Grammar

/-!
# Commands and their help

The commands of the program, the options that each of them takes, and the help that describes them.
-/

namespace ClassReference.CommandLine

/-- A command. -/
inductive Command where
  /-- Writes the site. -/
  | build
  /-- Dumps the model. -/
  | inspect
  /-- Prints the packages. -/
  | tree
deriving DecidableEq, Repr

namespace Command

/-- The name of a command. -/
def name : Command → String
  | build => "build"
  | inspect => "inspect"
  | tree => "tree"

/-- The command with the given name. -/
def ofName? (s : String) : Option Command :=
  [build, inspect, tree].find? (·.name == s)

end Command

/-! ## Options -/

/-- Asks for help. -/
def helpOption : OptionRule := { name := "--help" }

/-- Asks for the version. -/
def versionOption : OptionRule := { name := "--version" }

/-- Names the configuration. -/
def configOption : OptionRule := { name := "--config", value := some .file }

/-- Names the manifest. -/
def manifestOption : OptionRule := { name := "--manifest", value := some .file }

/-- Names the output directory. -/
def outputDirectoryOption : OptionRule := { name := "--output-dir", value := some .path }

/-- Names the template set. -/
def templatesOption : OptionRule := { name := "--template-dir", value := some .directory }

/-- Asks for a list of the source files only. -/
def dryRunOption : OptionRule := { name := "--dry-run" }

/-- Names the output file. -/
def outputOption : OptionRule := { name := "--output", letter := some 'o', value := some .path }

/-- What the program takes before the name of a command. -/
def programGrammar : Grammar where
  options := [versionOption, configOption, helpOption]
  mixed := false

/-- What a command takes. -/
def Command.grammar : Command → Grammar
  | build =>
    ⟨[manifestOption, outputDirectoryOption, templatesOption, dryRunOption, helpOption], true⟩
  | inspect => ⟨[manifestOption, outputOption, helpOption], true⟩
  | tree => ⟨[manifestOption, helpOption], true⟩

/-! ## Texts -/

/-- The name of the program. -/
def programName : String := "apidoc"

/-- The version of the program. -/
def version : String := "apidoc, version 0.1.0"

/-- The program, or one of its commands. -/
inductive Topic where
  /-- The program. -/
  | program
  /-- A command. -/
  | command (c : Command)
deriving DecidableEq, Repr

namespace Topic

/-- How the program or a command is called. -/
def call : Topic → String
  | program => programName
  | command c => programName ++ " " ++ c.name

/-- What the program or a command takes. -/
def usage (t : Topic) : String :=
  "Usage: " ++ t.call ++ match t with
    | program => " [OPTIONS] COMMAND [ARGS]..."
    | command _ => " [OPTIONS] [PATHS]..."

/-- What the program or a command does. -/
def description : Topic → List String
  | program => ["  API Documentation Builder: class reference docs from source comments."]
  | command .build => [
      "  Build the documentation site.",
      "",
      "  Scans every source file, resolves the class hierarchy and renders one page",
      "  per class plus the package tree."]
  | command .inspect => ["  Dump the resolved documentation model as JSON."]
  | command .tree => ["  Print the package tree of the documented classes."]

/-- What the options of the program or a command do. -/
def options : Topic → List String
  | program => [
      "  --version      Show the version and exit.",
      "  --config FILE  Path to a YAML configuration file.",
      "  --help         Show this message and exit."]
  | command .build => [
      "  --manifest FILE           YAML manifest listing the source files.",
      "  --output-dir PATH         Output directory.",
      "  --template-dir DIRECTORY  Template set directory containing template.yaml.",
      "  --dry-run                 List the files that would be processed without",
      "                            writing anything.",
      "  --help                    Show this message and exit."]
  | command .inspect => [
      "  --manifest FILE    YAML manifest listing the source files.",
      "  -o, --output PATH  Output JSON file.",
      "  --help             Show this message and exit."]
  | command .tree => [
      "  --manifest FILE  YAML manifest listing the source files.",
      "  --help           Show this message and exit."]

/-- The commands of the program. -/
def commands : Topic → List String
  | program => [
      "",
      "Commands:",
      "  build    Build the documentation site.",
      "  inspect  Dump the resolved documentation model as JSON.",
      "  tree     Print the package tree of the documented classes."]
  | command _ => []

/-- The help on the program or a command. -/
def help (t : Topic) : String :=
  String.intercalate "\n"
    ([t.usage, ""] ++ t.description ++ ["", "Options:"] ++ t.options ++ t.commands)

/-- Where to find help. -/
def hint (t : Topic) : String :=
  "Try '" ++ t.call ++ " --help' for help."

/-- What the program or a command takes. -/
def grammar : Topic → Grammar
  | program => programGrammar
  | command c => c.grammar

end Topic

end ClassReference.CommandLine
