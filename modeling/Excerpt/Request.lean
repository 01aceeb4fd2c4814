import Excerpt.Failure
import Excerpt.Settings
import Excerpt.Store.Lookup

/-!
# Requests

A request names a corpus, an output directory and a test. The name of a test may carry an anchor, a
leading slash, the name of the directory of tests, and a page; `TestName.parse` takes them off.
`Request.validate` checks that the directories exist, and keeps their absolute paths without links.
-/

namespace Excerpt

/-- Which test is meant: its directory, and the page that was named, both relative to the directory
of tests. -/
structure TestName where
  dir : Text
  descriptor : Option Text
  deriving DecidableEq, Repr

namespace TestName

/-- Drops the last `#` and what follows it, unless nothing stands before it. -/
def dropAnchor (t : Text) : Text :=
  match Text.cutLast? (· == '#') t with
  | some (before, _) => if before.isEmpty then t else before
  | none => t

/-- Drops a piece at the front, if it is there. -/
def dropStart (piece t : Text) : Text := (Text.afterStart? piece t).getD t

/-- Drops the last segment, unless nothing stands before it. -/
def dropPage (t : Text) : Text :=
  match Text.cutLast? (· == '/') t with
  | some (before, _) => if before.isEmpty then t else before
  | none => t

/-- Reads the name of a test. -/
def parse (raw testsDir descriptorExt : Text) : TestName :=
  let name := dropStart (testsDir ++ ['/']) (dropStart ['/'] (dropAnchor raw))
  if ('.' :: descriptorExt).isSuffixOf name then ⟨dropPage name, some name⟩ else ⟨name, none⟩

/-- The path of a relative directory, segment by segment. -/
def resolveText (root : Path) (t : Text) : Path :=
  ((Text.splitOn (· == '/') t).filter (!·.isEmpty)).foldl Path.joinText root

/-- The directory of the test beneath the directory of tests. -/
def resolve (n : TestName) (root : Path) : Path := resolveText root n.dir

end TestName

/-- A request that has been checked. The paths are absolute. -/
structure Request where
  corpus : Path
  output : Path
  testDir : Path
  testArg : Text
  missingDescriptor : Option Path
  deriving DecidableEq, Repr

namespace Request

/-- Checks a request. -/
def validate (s : Store) (layout : Layout) (corpus output : Path) (test : Text) :
    Except RequestFault Request :=
  if !(s.isDir corpus && s.isDir (corpus.joinText layout.srcDir) &&
      s.isDir (corpus.joinText layout.testsDir)) then .error (.wrongCorpus corpus)
  else match s.canonical corpus with
  | .error _ => .error (.wrongCorpus corpus)
  | .ok corpusRoot =>
    if !s.isDir output then .error (.wrongOutput output)
    else match s.canonical output with
    | .error _ => .error (.wrongOutput output)
    | .ok outputRoot =>
      let testsRoot := corpusRoot.joinText layout.testsDir
      let name := TestName.parse test layout.testsDir layout.descriptorExt
      let page := (name.descriptor.map (TestName.resolveText testsRoot)).filter (!s.exists ·)
      let testDir := name.resolve testsRoot
      if s.isDir testDir then .ok ⟨corpusRoot, outputRoot, testDir, test, page⟩
      else .error (.wrongTest test)

/-- Checks a request whose parts may be missing. -/
def ofArguments (s : Store) (layout : Layout) (corpus output : Option Path) (test : Option Text) :
    Except RequestFault Request :=
  match corpus, output, test with
  | none, _, _ => .error (.missing "jck-dir".toList)
  | _, none, _ => .error (.missing "output-dir".toList)
  | _, _, none => .error (.missing "test".toList)
  | some corpus, some output, some test => validate s layout corpus output test

/-- The directory of library sources. -/
def srcRoot (r : Request) (layout : Layout) : Path := r.corpus.joinText layout.srcDir

/-- The directory of tests. -/
def testsRoot (r : Request) (layout : Layout) : Path := r.corpus.joinText layout.testsDir

end Request

end Excerpt
