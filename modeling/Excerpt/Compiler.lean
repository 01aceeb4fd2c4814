import Excerpt.Program
import Excerpt.Roots
import Excerpt.Settings
import Excerpt.Trace.Monitor

/-!
# The compiler as an oracle

The compiler decides which sources a unit needs: it compiles the unit with a verbose trace, and
the files beneath the source roots that it opened are the answer. Whether compiling succeeds does
not matter.

The source roots are handed over in one argument with colons between them, so a root with a colon
is refused. Classes go to a fresh directory, which is taken away afterwards.
-/

namespace Excerpt

/-- A compiler, and how it is called. -/
structure Compiler where
  program : Path
  extraArgs : List Text
  sourceExt : Text
  deriving DecidableEq, Repr

namespace Compiler

/-- The part of the program that reports on the compiler. -/
def target : String := "jck_extract::core::oracle"

/-- The compiler of the Java installation that the environment names. -/
def ofJavaHome? (s : Store) (h : Host) : Option Path :=
  (h.get? "JAVA_HOME").bind fun home =>
    let p := ((Path.ofText home).joinText "bin".toList).joinText "javac".toList
    if s.isFile p then some p else none

/-- The compiler's program: the one asked for, or that of the settings, or that of the Java
installation, or whatever has the usual name. -/
def choose (s : Store) (h : Host) (explicit configured : Option Path) : Path :=
  match explicit, configured, ofJavaHome? s h with
  | some p, _, _ => p
  | none, some p, _ => p
  | none, none, some p => p
  | none, none, none => Path.ofText "javac".toList

/-- Finds a compiler that tells its version. -/
def detect (h : Host) (explicit : Option Path) (settings : CompilerSettings) (sourceExt : Text) :
    Act Compiler := do
  let program ← Act.look fun s => .ok (choose s h explicit settings.javac)
  let result ← Program.run h (.noCompiler program) program [Utf8.encode "-version".toList]
  if result.exitCode ≠ 0 then throw (.badCompiler program)
  let printed := if result.stdout = [] then result.stderr else result.stdout
  Act.report .debug target "using compiler oracle"
    [("javac".toList, program.display), ("version".toList, Text.trim (Utf8.lossy printed))]
  return ⟨program, settings.extraArgs, sourceExt⟩

/-! ### Discovery -/

/-- The bytes of a list of paths with colons between them. -/
def joinRoots : List Path → Bytes
  | [] => []
  | [p] => p.bytes
  | p :: rest => p.bytes ++ Program.colon :: joinRoots rest

/-- The argument for the source roots; a root with a colon has none. -/
def sourcePath? (roots : List Path) : Option Bytes :=
  if roots.any (·.bytes.contains Program.colon) then none else some (joinRoots roots)

/-- The arguments of a call. -/
def arguments (c : Compiler) (classDir : Path) (sourcePath : Bytes) (entries : List Path) :
    List Bytes :=
  let word (s : String) := Utf8.encode s.toList
  [word "-verbose", word "-implicit:none", word "-proc:none", word "-nowarn",
   word "-d", classDir.bytes, word "-classpath", classDir.bytes, word "-sourcepath", sourcePath] ++
  c.extraArgs.map Utf8.encode ++ entries.map (·.bytes)

/-- What the compiler printed, as a monitor sees it. -/
def monitorOf (w : Watch) (result : ProgramResult) : Monitor :=
  (Monitor.start.observeTrace w (Utf8.lossy result.stderr)).observeTrace w
    (Utf8.lossy result.stdout)

/-- The reports on opened files: one for each file that is new in a set. -/
def openedReports (before : PathSet) : List Path → List Path
  | [] => []
  | p :: rest => if before.contains p then openedReports before rest
    else p :: openedReports (before.insert p) rest

/-- The files that a trace opens, in the order in which they are opened first. -/
def openedInOrder (w : Watch) (result : ProgramResult) : List Path :=
  let texts := [Utf8.lossy result.stderr, Utf8.lossy result.stdout]
  openedReports PathSet.empty
    ((texts.flatMap Text.lines).filterMap fun l => Monitor.addition? w (TraceEvent.parse l))

/-- Reports an event for each path. -/
def reportEach (level : Log.Level) (target message : String) (field : String) :
    List Path → Act Unit
  | [] => return ()
  | p :: rest => do
    Act.report level target message [(field.toList, p.display)]
    reportEach level target message field rest

/-- Compiles in a class directory and reads the trace. -/
def compile (c : Compiler) (h : Host) (entries roots : List Path) : Act PathSet := do
  match sourcePath? roots with
  | none => throw .separatorInRoot
  | some sourcePath =>
    let result ← Program.run h (.runCompiler c.program) c.program
      (c.arguments h.classDir sourcePath entries)
    Program.keepWritten h.classDir result
    Act.report .debug target "javac finished"
      [("status".toList, "Some(".toList ++ Text.ofNat result.exitCode ++ ")".toList)]
    let w : Watch := ⟨roots, entries, c.sourceExt⟩
    reportEach .trace (target ++ "::trace") "content opened" "file" (openedInOrder w result)
    let m := monitorOf w result
    if !(m.unclaimed w).isEmpty then
      Act.report .warn target "javac searched source path entries outside the registered roots"
        [("entries".toList, Log.quotedPaths (m.unclaimed w))]
    Act.report .debug target "dependencies discovered"
      [("found".toList, Text.ofNat m.used.size)]
    return m.used

/-- The span of one discovery. -/
def span (entries roots : List Path) : Log.Span where
  name := "discover".toList
  target := target.toList
  fields :=
    [("entry".toList, match entries with
        | [] => "None".toList
        | e :: _ => "Some(".toList ++ Log.quotedPath e ++ ")".toList),
     ("roots".toList, Text.ofNat roots.length)]

/-- The files of the source roots that the compiler opens for some entry units. -/
def discover (c : Compiler) (h : Host) : Oracle := fun entries roots =>
  Act.inSpan (span entries roots) (Act.within .makeClassDir h.classDir (c.compile h entries roots))

end Compiler

end Excerpt
