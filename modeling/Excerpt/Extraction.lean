import Excerpt.Assembly
import Excerpt.Closure
import Excerpt.Reproducer

/-!
# Extracting a test

An extraction computes the closure of a test and then, unless it is only a dry run, copies the
closure and the native tree to the output directory and writes the files beside the test.
-/

namespace Excerpt

/-- What an extraction did. -/
structure Summary where
  closure : Closure
  copied : Nat
  natives : Nat
  deriving DecidableEq, Repr

namespace Extraction

/-- The part of the program that reports on extractions. -/
def target : String := "jck_extract::core::extract"

/-- Warns that the page named in the request does not exist. -/
def warnMissing (r : Request) : Act Unit :=
  match r.missingDescriptor with
  | some page =>
    Act.report .warn target "named test descriptor does not exist"
      [("descriptor".toList, page.display)]
  | none => return ()

/-- Copies the native tree if the test has native sources. -/
def copyNatives (layout : Layout) (r : Request) (closure : Closure) : Act Nat :=
  if closure.hasNatives then
    Assembly.copyNativeTree r.output layout.ignore
      ((r.srcRoot layout).joinText layout.nativeDir) layout.srcDir
  else return 0

/-- Copies a closure to the output directory. -/
def assemble (h : Host) (layout : Layout) (r : Request) (closure : Closure) : Act Summary := do
  let copied ← Assembly.copyClosure r.corpus r.output closure.files
  let natives ← copyNatives layout r closure
  Reproducer.write r.output r.testArg (.ofHost h)
  return ⟨closure, copied, natives⟩

/-- Extracts a test. -/
def run (h : Host) (settings : Settings) (oracle : Oracle) (dryRun : Bool) (r : Request) :
    Act Summary := do
  warnMissing r
  let closure ← Closure.build h settings oracle r
  Act.report .info target "dependency closure resolved"
    [("files".toList, Text.ofNat closure.files.size),
     ("natives".toList, Log.flag closure.hasNatives)]
  if dryRun then return ⟨closure, 0, 0⟩
  assemble h settings.layout r closure

end Extraction

end Excerpt
