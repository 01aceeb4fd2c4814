import Excerpt.Act
import Excerpt.Scan
import Excerpt.Settings

/-!
# Launcher scripts

A test that is driven by a script names its classes only on the line that calls the runtime. Every
dotted word on that line is a candidate; the compiler decides which are classes, by compiling a
stub that needs the candidate.
-/

namespace Excerpt

namespace Script

/-- The scanners for launcher lines and for class names on them. -/
structure Scanners where
  launcher : Scanner
  className : Scanner
  deriving DecidableEq, Repr

/-- The scanner for a pattern, or the failure that it cannot be read. -/
def scannerOf (pattern : Text) : Except Failure Scanner :=
  match Scanner.ofText? pattern with
  | some s => .ok s
  | none => .error (.badPattern pattern)

/-- The scanners that the settings ask for. -/
def scanners (settings : ScriptSettings) : Except Failure Scanners := do
  let launcher ← scannerOf settings.launcherPattern
  let className ← scannerOf settings.classPattern
  return ⟨launcher, className⟩

/-- The candidates on the first launcher line of a script's content, in order of appearance. -/
def candidatesIn (sc : Scanners) (content : Bytes) : List Text :=
  match sc.launcher.firstLine? content with
  | some line => sc.className.capturesIn line
  | none => []

/-- The candidates of a script. -/
def candidates (s : Store) (sc : Scanners) (script : Path) : Except Failure (List Text) :=
  match s.read script with
  | .error fault => .error (.scan script fault)
  | .ok content => .ok (candidatesIn sc content)

/-- The texts of a list, each at its first appearance only. -/
def firstAppearances : (seen : List Text) → List Text → List Text
  | _, [] => []
  | seen, t :: rest =>
    if seen.contains t then firstAppearances seen rest
    else t :: firstAppearances (t :: seen) rest

end Script

/-! ### Stubs -/

namespace Stub

/-- The class of a stub. -/
def className : Text := "DummyExtractorClass".toList

/-- The text of a unit that needs a class. -/
def source (name : Text) : Text :=
  "import ".toList ++ name ++ ";\nclass ".toList ++ className ++ " \x7b\n".toList ++ name ++
    " field;\n\x7d\n".toList

/-- The file of a stub in a directory. -/
def file (dir : Path) : Path := dir.joinText (className ++ ".java".toList)

/-- Writes the stub for a class into a directory. -/
def write (dir : Path) (name : Text) : Act Path := do
  Act.change (.writeStub (file dir)) (·.write (file dir) (Utf8.encode (source name)))
  return file dir

/-- Removes a stub. -/
def remove (stub : Path) : Act Unit := Act.change (.deleteStub stub) (·.removeFile stub)

/-- The store without a stub, whether it was there or not. -/
def drop (stub : Path) (s : Store) : Store :=
  match s.removeFile stub with
  | .ok s' => s'
  | .error _ => s

end Stub

end Excerpt
