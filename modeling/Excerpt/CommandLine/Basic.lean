import Excerpt.Text.Basic

/-!
# Describing a command line

A command line starts with switches, which have dashes in front, and names a command, which has
switches of its own and at most one operand. Descriptions of these are data: reading arguments,
printing help and writing completion scripts all go by them.
-/

namespace Excerpt

namespace CommandLine

/-- What a switch does: ask for help or for the version, be given or not, be counted, or take a
value that is a text or a path and is called by some word. -/
inductive Action where
  | help
  | version
  | flag
  | count
  | text (word : Text)
  | path (word : Text)
  deriving DecidableEq, Repr

/-- A switch: its name behind two dashes, its letter behind one, and a line of help. -/
structure Switch where
  name : Text
  letter : Option Char
  action : Action
  about : Text
  deriving DecidableEq, Repr

/-- An argument without dashes. Where there are choices it is one of them, and otherwise a path. -/
structure Operand where
  word : Text
  default : Option Text
  choices : List Text
  /-- whether it may be repeated -/
  many : Bool
  about : Text
  deriving DecidableEq, Repr

/-- A command, or the whole program, which is followed by a command. -/
structure Command where
  name : Text
  about : Text
  operand : Option Operand
  switches : List Switch
  deriving DecidableEq, Repr

namespace Action

/-- The word for the value that a switch takes. -/
def word? : Action → Option Text
  | text w => some w
  | path w => some w
  | _ => none

end Action

namespace Switch

/-- The name with its dashes. -/
def dashed (s : Switch) : Text := "--".toList ++ s.name

/-- The switch as it is written in messages and in help. -/
def title (s : Switch) : Text :=
  s.dashed ++ match s.action with
    | .count => "...".toList
    | a => match a.word? with
      | some w => " <".toList ++ w ++ ['>']
      | none => []

end Switch

namespace Operand

/-- Whether the operand has to be given. -/
def required (o : Operand) : Bool := o.default.isNone && !o.many

/-- The operand as it is written in messages and in help. -/
def title (o : Operand) : Text :=
  (if o.required then '<' :: o.word ++ ['>'] else '[' :: o.word ++ [']']) ++
    (if o.many then "...".toList else [])

end Operand

namespace Command

/-- The switch with a name. -/
def switchNamed? (c : Command) (name : Text) : Option Switch :=
  c.switches.find? fun s => s.name = name

/-- The switch with a letter. -/
def switchLettered? (c : Command) (letter : Char) : Option Switch :=
  c.switches.find? fun s => s.letter = some letter

end Command

end CommandLine

end Excerpt
