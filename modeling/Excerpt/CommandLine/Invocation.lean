import Excerpt.CommandLine.Reading
import Excerpt.Path.Basic

/-!
# Invocations

A command line that was understood: the task, and how much is to be said and done about it. A
switch may stand before the command or behind it. Where the counted switch stands in both places,
the count behind the command decides.
-/

namespace Excerpt

namespace CommandLine

/-- What the program is asked to do. -/
inductive Task where
  | extract (corpus output : Option Path) (test : Option Text) (javac : Option Path)
  | init (dir : Path) (force : Bool)
  | completions (shell : Shell) (outDir : Option Path) (stdout : Bool)
  deriving DecidableEq, Repr

/-- A task with the switches that every task has. -/
structure Invocation where
  quiet : Bool
  dryRun : Bool
  verbose : Nat
  task : Task
  deriving DecidableEq, Repr

namespace Invocation

/-- The path that a switch gives. -/
def path? (r : Reading) (name : String) : Option Path := (r.value? name).map Path.ofText

/-- The task of a command. The operand falls back on its default. -/
def taskOf (c : Command) (r : Reading) : Except Rejection Task :=
  match c.operand, (r.operand <|> c.operand.bind (·.default)) with
  | some o, none => .error (.missingOperand o.title)
  | some o, some word =>
    if c = completions then
      match Shell.ofName? word with
      | some shell => .ok (.completions shell (path? r "out-dir") (r.has "stdout"))
      | none => .error (.badValue word o.title)
    else .ok (.init (Path.ofText word) (r.has "force"))
  | none, _ =>
    .ok (.extract (path? r "jck-dir") (path? r "output-dir") (r.value? "test") (path? r "javac"))

/-- The command whose help is asked for by the arguments behind the command for help. -/
def helpFor : List Text → Except Rejection Command
  | [] => .ok program
  | [word] =>
    match commandNamed? word with
    | some c => .ok c
    | none => .error (.unknownCommand word)
  | word :: next :: _ =>
    .error (.unknownCommand (if (commandNamed? word).isSome then next else word))

/-- Understands a command line, given without the name of the program. -/
def ofArguments (arguments : List Text) : Except Rejection Invocation := do
  let (outer, command) ← Reading.toCommand arguments .empty
  match command with
  | none => throw (if outer.values.isEmpty && outer.counted = 0 then .nothingGiven else .noCommand)
  | some (c, rest) =>
    if c = help then
      let subject ← helpFor rest
      throw (.help subject)
    let inner ← Reading.ofArguments c rest .empty
    let task ← taskOf c inner
    return ⟨outer.has "quiet" || inner.has "quiet", outer.has "dry-run" || inner.has "dry-run",
      if 0 < inner.counted then inner.counted else outer.counted, task⟩

end Invocation

end CommandLine

end Excerpt
