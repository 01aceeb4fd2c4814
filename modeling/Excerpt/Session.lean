import Excerpt.CommandLine.Invocation
import Excerpt.Compiler
import Excerpt.Completion
import Excerpt.Extraction
import Excerpt.Settings.Init

/-!
# Sessions

A session carries out one command line: it reads the arguments, does the task, and says what came
of it. The outcome is an exit code and what is printed, with the reports that the filter shows kept
apart.
-/

namespace Excerpt

open CommandLine

/-- What a session prints, and how it ends. -/
structure Outcome where
  exitCode : Nat
  stdout : Text
  stderr : Text
  reports : List Text
  deriving DecidableEq, Repr

/-- What a task has to say on each of the two channels. -/
structure Said where
  stdout : Text
  stderr : Text
  deriving DecidableEq, Repr

namespace Session

/-! ### Colours -/

/-- A text between two control sequences. -/
def styled (on off : String) (t : Text) : Text :=
  '\x1B' :: '[' :: on.toList ++ 'm' :: t ++ '\x1B' :: '[' :: off.toList ++ ['m']

/-- A text in green. -/
def green (t : Text) : Text := styled "32" "39" t

/-- A text in yellow. -/
def yellow (t : Text) : Text := styled "33" "39" t

/-- A text in faint letters. -/
def dimmed (t : Text) : Text := styled "2" "0" t

/-! ### What is said -/

/-- Nothing is said. -/
def silence : Said := ⟨[], []⟩

/-- Says something on the first channel, unless all is to be quiet. -/
def saying (quiet : Bool) (t : Text) : Said := if quiet then silence else ⟨t, []⟩

/-- The list of what would be extracted. -/
def planText (s : Summary) : Text :=
  yellow "DRY RUN: Would extract:".toList ++ ['\n'] ++
  (s.closure.files.toList.flatMap fun p => "  ".toList ++ p.display ++ ['\n']) ++
  (if s.closure.hasNatives then
    "  ".toList ++ dimmed "(plus the shared native tree)".toList ++ ['\n'] else [])

/-- The line about what was extracted. -/
def doneText (r : Request) (s : Summary) : Text :=
  green ['\u2713'] ++ " Extracted ".toList ++ Text.ofNat s.copied ++ " files (".toList ++
    Text.ofNat s.natives ++ " native) for ".toList ++ r.testArg ++ " into ".toList ++
    r.output.display ++ ['\n']

/-! ### Tasks -/

/-- Extracts a test, with the compiler as the oracle. -/
def extract (h : Host) (quiet dryRun : Bool) (corpus output : Option Path) (test : Option Text)
    (javac : Option Path) : Act Said := do
  let settings ← Act.look fun s => Settings.load s h.environment (Path.ofText ['.'])
  let request ← Act.look fun s =>
    match Request.ofArguments s settings.layout corpus output test with
    | .ok r => .ok r
    | .error fault => .error (.request fault)
  let compiler ← Compiler.detect h javac settings.oracle settings.layout.sourceExt
  let summary ← Extraction.run h settings (compiler.discover h) dryRun request
  return saying quiet (if dryRun then planText summary else doneText request summary)

/-- Writes a settings file. -/
def init (quiet dryRun : Bool) (dir : Path) (force : Bool) : Act Said := do
  let file ← Settings.init dir force dryRun
  return saying quiet
    (if dryRun then
      "Would write ".toList ++ file.display ++ ":\n".toList ++ Settings.default.render ++ ['\n']
    else "Created config file at ".toList ++ file.display ++ ['\n'])

/-- Writes a completion script to a directory, or prints it. -/
def completions (quiet dryRun : Bool) (shell : Shell) (outDir : Option Path) (stdout : Bool) :
    Act Said := do
  if stdout then return ⟨Completion.script shell, []⟩
  match outDir with
  | none => throw .noOutDir
  | some dir =>
    if dryRun then
      return saying quiet
        ("Would write ".toList ++ shell.name ++ " completions into ".toList ++ dir.display ++
          ['\n'])
    let file ← Completion.write shell dir
    return if quiet then silence
      else ⟨[], "Wrote completion to ".toList ++ file.display ++ ['\n']⟩

/-- Does what an invocation asks for. -/
def perform (h : Host) (i : Invocation) : Act Said :=
  match i.task with
  | .extract corpus output test javac => extract h i.quiet i.dryRun corpus output test javac
  | .init dir force => init i.quiet i.dryRun dir force
  | .completions shell outDir stdout => completions i.quiet i.dryRun shell outDir stdout

/-! ### Outcomes -/

/-- What is printed about a failure. A request that was refused comes with advice. -/
def failureText : Failure → Text
  | .request fault =>
    RequestFault.code ++ "\n\n  \u00D7 ".toList ++ fault.message ++ "\n  help: ".toList ++
      RequestFault.help ++ "\n\n".toList ++ argumentSummary
  | f => "Error: ".toList ++ f.report ++ ['\n']

/-- The filter for reports: the one that the environment asks for, if it can be read. -/
def filterFor (h : Host) (verbose : Nat) : Log.Filter :=
  ((h.get? "RUST_LOG").bind Log.Filter.ofText?).getD (Log.Filter.ofVerbosity verbose)

/-- The outcome of an invocation. -/
def conclude (h : Host) (i : Invocation) (r : Except Failure Said × World) : Outcome :=
  let reports := (filterFor h i.verbose).lines r.2.events
  match r.1 with
  | .ok said => ⟨0, said.stdout, said.stderr, reports⟩
  | .error f => ⟨1, [], failureText f, reports⟩

/-- The outcome of a command line that is not carried out. -/
def decline (r : Rejection) : Outcome :=
  if r.isAnswer then ⟨r.exitCode, r.render, [], []⟩ else ⟨r.exitCode, [], r.render, []⟩

/-- Carries out a command line, given without the name of the program. -/
def run (h : Host) (arguments : List Text) (w : World) : Outcome × World :=
  match Invocation.ofArguments arguments with
  | .error r => (decline r, w)
  | .ok i =>
    let r := perform h i w
    (conclude h i r, r.2)

end Session

end Excerpt
