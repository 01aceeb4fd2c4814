import Excerpt.Act
import Excerpt.CommandLine.Commands

/-!
# Completion scripts

A completion script tells a shell which commands and switches may come next. Every script has a
list of words for the program itself and one for each command.
-/

namespace Excerpt

namespace Completion

open CommandLine

/-- The name of the file that a script goes to. -/
def fileName : Shell → Text
  | .bash => "jck-extract.bash".toList
  | .elvish => "jck-extract.elv".toList
  | .fish => "jck-extract.fish".toList
  | .powershell => "_jck-extract.ps1".toList
  | .zsh => "_jck-extract".toList

/-! ### Words -/

/-- The ways of writing a switch. -/
def spellings (s : Switch) : List Text :=
  (s.letter.toList.map fun c => ['-', c]) ++ [s.dashed]

/-- The words that may follow a command: its switches, the choices of its operand, and behind the
program the commands. -/
def words (c : Command) : List Text :=
  c.switches.flatMap spellings ++
    (if c = program then commands.map (·.name) else []) ++
    (c.operand.toList.flatMap (·.choices))

/-- The program and its commands. -/
def subjects : List Command := program :: commands

/-- The words of a command with blanks between them. -/
def wordLine (c : Command) : Text := Text.join [' '] (words c)

/-- A text between single quotes. -/
def quoted (t : Text) : Text := '\x27' :: Text.replace ['\x27'] "\x27\x27".toList t ++ ['\x27']

/-! ### Scripts -/

/-- The script for bash. -/
def bashScript : Text :=
  ["_jck_extract() \x7b\n".toList,
   "    local word=$\x7bCOMP_WORDS[COMP_CWORD]\x7d command= options=\n".toList,
   "    local i\n".toList,
   "    for ((i = 1; i < COMP_CWORD; i++)); do\n".toList,
   "        case $\x7bCOMP_WORDS[i]\x7d in\n".toList,
   "            -*) ;;\n".toList,
   "            *) command=$\x7bCOMP_WORDS[i]\x7d; break ;;\n".toList,
   "        esac\n".toList,
   "    done\n".toList,
   "    case $command in\n".toList,
   (commands.map fun c =>
      "        ".toList ++ c.name ++ ") options=".toList ++ quoted (wordLine c) ++
        " ;;\n".toList).flatten,
   "        *) options=".toList ++ quoted (wordLine program) ++ " ;;\n".toList,
   "    esac\n".toList,
   "    COMPREPLY=( $(compgen -o default -W \"$options\" -- \"$word\") )\n".toList,
   "\x7d\n".toList,
   "complete -F _jck_extract jck-extract\n".toList].flatten

/-- The script for zsh. -/
def zshScript : Text :=
  ["#compdef jck-extract\n".toList,
   "local command=$\x7bwords[(r)(".toList, Text.join ['|'] (commands.map (·.name)),
   ")]\x7d\n".toList,
   "case $command in\n".toList,
   (commands.map fun c =>
      "    ".toList ++ c.name ++ ") compadd -- ".toList ++ wordLine c ++
        "; _files ;;\n".toList).flatten,
   "    *) compadd -- ".toList, wordLine program, " ;;\n".toList,
   "esac\n".toList].flatten

/-- The line of a fish script for one switch of a command. -/
def fishLine (condition : Text) (s : Switch) : Text :=
  ["complete -c jck-extract -n \"".toList, condition, ['\x22'],
   (s.letter.toList.flatMap fun c => [' ', '-', 's', ' ', c]),
   " -l ".toList, s.name, " -d ".toList, quoted s.about,
   (if s.action.word?.isSome then " -r".toList else []), ['\n']].flatten

/-- The lines of a fish script for one command. -/
def fishCommand (c : Command) : Text :=
  let condition := "__fish_seen_subcommand_from ".toList ++ c.name
  c.switches.flatMap (fishLine condition) ++
    (c.operand.toList.flatMap fun o => o.choices.flatMap fun choice =>
      "complete -c jck-extract -n \"".toList ++ condition ++ "\" -f -a ".toList ++ choice ++ ['\n'])

/-- The script for fish. -/
def fishScript : Text :=
  program.switches.flatMap (fishLine "__fish_use_subcommand".toList) ++
    (commands.flatMap fun c =>
      "complete -c jck-extract -n \"__fish_use_subcommand\" -f -a ".toList ++ c.name ++
        " -d ".toList ++ quoted c.about ++ ['\n']) ++
    commands.flatMap fishCommand

/-- The script for PowerShell. -/
def powershellScript : Text :=
  let list (c : Command) : Text := Text.join ", ".toList ((words c).map quoted)
  ["Register-ArgumentCompleter -Native -CommandName 'jck-extract' -ScriptBlock \x7b\n".toList,
   "    param($word, $line, $position)\n".toList,
   "    $command = $line.CommandElements | Select-Object -Skip 1 |\n".toList,
   "        ForEach-Object \x7b $_.ToString() \x7d |\n".toList,
   "        Where-Object \x7b -not $_.StartsWith('-') \x7d | Select-Object -First 1\n".toList,
   "    $options = switch ($command) \x7b\n".toList,
   (commands.map fun c =>
      "        ".toList ++ quoted c.name ++ " \x7b ".toList ++ list c ++ " \x7d\n".toList).flatten,
   "        default \x7b ".toList, list program, " \x7d\n".toList,
   "    \x7d\n".toList,
   "    $options | Where-Object \x7b $_ -like \"$word*\" \x7d\n".toList,
   "\x7d\n".toList].flatten

/-- The script for Elvish. -/
def elvishScript : Text :=
  ["set edit:completion:arg-completer[jck-extract] = \x7b|@line|\n".toList,
   "    var options = [\n".toList,
   (subjects.map fun c =>
      "        &".toList ++ c.name ++ "=[".toList ++ wordLine c ++ "]\n".toList).flatten,
   "    ]\n".toList,
   "    var command = jck-extract\n".toList,
   "    for word $line[1..-1] \x7b\n".toList,
   "        if (has-key $options $word) \x7b set command = $word; break \x7d\n".toList,
   "    \x7d\n".toList,
   "    all $options[$command]\n".toList,
   "\x7d\n".toList].flatten

/-- The script for a shell. -/
def script : Shell → Text
  | .bash => bashScript
  | .elvish => elvishScript
  | .fish => fishScript
  | .powershell => powershellScript
  | .zsh => zshScript

/-- Writes the script for a shell into a directory, which is made if it is missing, and answers
with the file. -/
def write (shell : Shell) (dir : Path) : Act Path := do
  Act.edit (.makeDir dir) (Store.makeDirs dir)
  let file := dir.joinText (fileName shell)
  Act.change (.writeCompletions shell.name dir) fun s => s.write file (Utf8.encode (script shell))
  return file

end Completion

end Excerpt
