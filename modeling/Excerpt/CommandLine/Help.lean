import Excerpt.CommandLine.Commands

/-!
# Help

The help of a command: what it does, how it is called, and tables of its commands, operands and
switches. The right column of a table starts two blanks behind the longest entry of the left one.
-/

namespace Excerpt

namespace CommandLine

/-- A table under a title; nothing if it has no rows. -/
def table (title : String) (rows : List (Text × Text)) : Text :=
  if rows.isEmpty then []
  else
    let width := rows.foldl (fun w r => max w r.1.length) 0
    '\n' :: title.toList ++ ":\n".toList ++ rows.flatMap fun r =>
      "  ".toList ++ r.1 ++ List.replicate (width - r.1.length + 2) ' ' ++ r.2 ++ ['\n']

/-- The row of a switch. -/
def Switch.row (s : Switch) : Text × Text :=
  ((match s.letter with
    | some c => ['-', c, ',', ' ']
    | none => "    ".toList) ++ s.title, s.about)

/-- The row of an operand. -/
def Operand.row (o : Operand) : Text × Text :=
  (o.title, o.about ++
    (match o.default with
      | some d => " [default: ".toList ++ d ++ [']']
      | none => []) ++
    (if o.choices.isEmpty then []
      else " [possible values: ".toList ++ Text.join ", ".toList o.choices ++ [']']))

namespace Command

/-- How a command is called. -/
def usage (c : Command) : Text :=
  program.name ++
    (if c = program then [] else ' ' :: c.name) ++
    (if c.switches.isEmpty then [] else " [OPTIONS]".toList) ++
    (if c = program then " <COMMAND>".toList else []) ++
    (match c.operand with
      | some o => ' ' :: o.title
      | none => [])

/-- The help of a command. -/
def render (c : Command) : Text :=
  c.about ++ "\n\nUsage: ".toList ++ c.usage ++ ['\n'] ++
    table "Commands" (if c = program then commands.map fun d => (d.name, d.about) else []) ++
    table "Arguments" (c.operand.toList.map Operand.row) ++
    table "Options" (c.switches.map Switch.row)

end Command

/-- What an extraction needs, in short. It is printed where a request is refused. -/
def argumentSummary : Text :=
  ["Args:\n".toList,
   "  --help                prints this help\n".toList,
   "  --jck-dir [DIR]       directory with unpacked jck (unpacked with -i shell_scripts)\n".toList,
   "  --output-dir [DIR]    directory where to place extracted test\n".toList,
   "  --test [TEST]         name of the test to extract\n".toList].flatten

end CommandLine

end Excerpt
