import Excerpt.CommandLine.Basic

/-!
# The commands

The commands of the program with all their switches, and the shells that it writes completion
scripts for. The switches for less or more output may stand before a command or behind it.
-/

namespace Excerpt

namespace CommandLine

/-- The shells that completion scripts are written for. -/
inductive Shell where
  | bash
  | elvish
  | fish
  | powershell
  | zsh
  deriving DecidableEq, Repr

namespace Shell

/-- All shells, in the order of their names. -/
def all : List Shell := [bash, elvish, fish, powershell, zsh]

/-- The name of a shell. -/
def name : Shell → Text
  | bash => "bash".toList
  | elvish => "elvish".toList
  | fish => "fish".toList
  | powershell => "powershell".toList
  | zsh => "zsh".toList

/-- The shell with a name. -/
def ofName? (t : Text) : Option Shell := all.find? fun s => s.name = t

end Shell

/-! ### Switches -/

/-- Asks for help. -/
def helpSwitch : Switch := ⟨"help".toList, some 'h', .help, "Print help".toList⟩

/-- Asks for the version. -/
def versionSwitch : Switch := ⟨"version".toList, some 'V', .version, "Print version".toList⟩

/-- The switches that every command has. -/
def sharedSwitches : List Switch :=
  [⟨"quiet".toList, none, .flag, "Suppress progress bars and non-essential output".toList⟩,
   ⟨"dry-run".toList, none, .flag,
    "Resolve and print the dependency closure without writing output".toList⟩,
   ⟨"verbose".toList, some 'v', .count,
    "Increase log verbosity (-v info, -vv debug, -vvv trace)".toList⟩]

/-! ### Commands -/

/-- The whole program. -/
def program : Command where
  name := "jck-extract".toList
  about := ["Extract a single test plus the exact closure of its source dependencies ".toList,
    "from a JCK-style corpus".toList].flatten
  operand := none
  switches := sharedSwitches ++ [helpSwitch, versionSwitch]

/-- The line with the program's name and version. -/
def versionLine : Text := program.name ++ " 0.1.0\n".toList

/-- Extracts a test. -/
def extract : Command where
  name := "extract".toList
  about := "Extract one test and its dependency closure into an output directory".toList
  operand := none
  switches :=
    [⟨"jck-dir".toList, none, .path "DIR".toList,
      "Directory with the unpacked corpus (must contain src/ and tests/)".toList⟩,
     ⟨"output-dir".toList, none, .path "DIR".toList,
      "Existing directory where the extracted test is placed".toList⟩,
     ⟨"test".toList, none, .text "TEST".toList,
      "Name of the test to extract (e.g. api/java_lang/Foo/index.html#Foo0001)".toList⟩,
     ⟨"javac".toList, none, .path "PATH".toList,
      "javac executable used as the dependency oracle".toList⟩] ++
    sharedSwitches ++ [helpSwitch]

/-- Writes a settings file. -/
def init : Command where
  name := "init".toList
  about := "Initialize a jck-extract.toml config file".toList
  operand := some ⟨"PATH".toList, some ['.'], [], false,
    "Directory to initialize config in".toList⟩
  switches :=
    ⟨"force".toList, none, .flag, "Overwrite existing config file".toList⟩ ::
    sharedSwitches ++ [helpSwitch]

/-- Writes a completion script. -/
def completions : Command where
  name := "completions".toList
  about := "Generate shell completions".toList
  operand := some ⟨"SHELL".toList, none, Shell.all.map Shell.name, false, "Target shell".toList⟩
  switches :=
    [⟨"out-dir".toList, none, .path "DIR".toList,
      "Directory the script file is written into (required without --stdout)".toList⟩,
     ⟨"stdout".toList, none, .flag,
      "Print completion script to stdout instead of a file".toList⟩] ++
    sharedSwitches ++ [helpSwitch]

/-- Prints help. -/
def help : Command where
  name := "help".toList
  about := "Print this message or the help of the given subcommand(s)".toList
  operand := some ⟨"COMMAND".toList, none, [], true, "Print help for the subcommand(s)".toList⟩
  switches := []

/-- All commands. -/
def commands : List Command := [extract, init, completions, help]

/-- The command with a name. -/
def commandNamed? (name : Text) : Option Command := commands.find? fun c => c.name = name

end CommandLine

end Excerpt
