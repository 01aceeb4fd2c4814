import Excerpt.Bridge
import Excerpt.Page
import Excerpt.Request
import Excerpt.Resolve
import Excerpt.Roots
import Excerpt.Script

/-!
# The closure of a test

The closure of a test is the set of files that it needs: its own files, the files that its pages
link to, and the sources that the oracle names for its own sources and for the classes of its
launcher scripts. The oracle is asked about one unit at a time, and always with the same source
roots: the library sources, their modules, and trees of bridges for the tests.

The trees of bridges and the stubs live in a scratch directory that is gone at the end, so bridges
are resolved to the files behind them before.
-/

namespace Excerpt

/-! ### The test's own files -/

/-- What a file in the directory of a test is, by its extension. -/
inductive ChildKind where
  | source
  | native
  | script
  | descriptor
  | other
  deriving DecidableEq, Repr

/-- The kind of a file; the first extension that fits decides. -/
def ChildKind.of (layout : Layout) (p : Path) : ChildKind :=
  if p.hasExtension layout.sourceExt then source
  else if p.hasExtension layout.nativeExt then native
  else if p.hasExtension layout.scriptExt then script
  else if p.hasExtension layout.descriptorExt then descriptor
  else other

/-- The files in the directory of a test. -/
structure TestContents where
  files : List Path
  deriving DecidableEq, Repr

namespace TestContents

/-- The files of one kind. -/
def ofKind (c : TestContents) (layout : Layout) (kind : ChildKind) : List Path :=
  c.files.filter fun p => ChildKind.of layout p = kind

/-- The source files. -/
def sources (c : TestContents) (layout : Layout) : List Path := c.ofKind layout .source

/-- The launcher scripts. -/
def scripts (c : TestContents) (layout : Layout) : List Path := c.ofKind layout .script

/-- The pages. -/
def descriptors (c : TestContents) (layout : Layout) : List Path := c.ofKind layout .descriptor

/-- Whether there are native sources. -/
def hasNatives (c : TestContents) (layout : Layout) : Bool := !(c.ofKind layout .native).isEmpty

/-- The files directly in a directory, in path order. -/
def ofDir (s : Store) (dir : Path) : Except Failure TestContents :=
  match s.listPaths dir with
  | .error fault => .error (.list dir fault)
  | .ok children => .ok ⟨(Path.sort children).filter (!s.isDir ·)⟩

end TestContents

/-! ### Source roots -/

/-- Whether a directory beneath the library sources is a module. -/
def isModuleName (layout : Layout) (name : Bytes) : Bool :=
  match Utf8.decode? name with
  | some t => layout.moduleStart.isPrefixOf t && !layout.moduleEnd.isSuffixOf t
  | none => false

/-- The library sources and their modules. -/
def libraryRoots (s : Store) (layout : Layout) (src : Path) : Except Failure SourceRoots :=
  match s.list src with
  | .error fault => .error (.list src fault)
  | .ok names =>
    let modules := (names.filter (isModuleName layout)).map src.child
    .ok ((SourceRoots.empty.add src).addAll (Path.sort (modules.filter s.isDir)))

namespace Closure

/-- The part of the program that reports on closures. -/
def target : String := "jck_extract::core::closure"

/-- The directories from a test's parent upwards that lie beneath the directory of tests; `fuel`
bounds their number. -/
def ancestors (tests : Path) : (fuel : Nat) → Option Path → List Path
  | 0, _ => []
  | _, none => []
  | fuel + 1, some dir =>
    if dir.same tests || !dir.startsWith tests then []
    else dir :: ancestors tests fuel dir.parent?

/-- Makes the bridges for the files directly in some directories. -/
def bridgeEach (layout : Layout) (dest : Path) : List Path → Act Unit
  | [] => return ()
  | dir :: rest => do
    let _ ← Bridge.normalize layout dir dest false
    bridgeEach layout dest rest

/-- Makes a directory in the scratch directory, and the bridges beneath it. -/
def bridgeTree (layout : Layout) (source dest : Path) : Act Unit := do
  Act.edit (.makeDir dest) (Store.makeDirs dest)
  let _ ← Bridge.normalize layout source dest true

/-- Makes the trees of bridges and registers them: one for the test and what lies beside its
ancestors, and one for the tests among the library sources, if there are any. -/
def addBridgeRoots (layout : Layout) (r : Request) (scratch : Path) (roots : SourceRoots) :
    Act SourceRoots := do
  let dest := scratch.joinText "tests".toList
  bridgeTree layout r.testDir dest
  bridgeEach layout dest
    (ancestors (r.testsRoot layout) (r.testDir.bytes.length + 1) r.testDir.parent?)
  let roots := roots.add dest
  let srcTests := (r.srcRoot layout).joinText layout.testsDir
  if ← Act.look fun s => .ok (s.isDir srcTests) then
    let dest := scratch.joinText "src-tests".toList
    bridgeTree layout srcTests dest
    return roots.add dest
  else return roots

/-! ### Asking -/

/-- Puts a question to the oracle. -/
def ask (oracle : Oracle) (entries : List Path) (roots : SourceRoots) : Act PathSet := do
  Act.noteQuestion entries roots.toList
  oracle entries roots.toList

/-- Asks about each source file and adds the answers. -/
def askSources (oracle : Oracle) (roots : SourceRoots) : List Path → PathSet → Act PathSet
  | [], files => return files
  | p :: rest, files => do
    let found ← ask oracle [p] roots
    askSources oracle roots rest (files.union found)

/-- Asks about a stub for each class and adds the answers. -/
def askClasses (oracle : Oracle) (roots : SourceRoots) (scratch : Path) :
    List Text → PathSet → Act PathSet
  | [], files => return files
  | name :: rest, files => do
    let stub ← Stub.write scratch name
    let found ← ask oracle [stub] roots
    if found.isEmpty then
      Act.report .debug target "script class did not resolve" [("class_name".toList, name)]
    Stub.remove stub
    askClasses oracle roots scratch rest (files.union found)

/-! ### Pages and scripts -/

/-- Adds the files that pages link to. -/
def addLinks (sc : Scanner) (corpus : Path) : List Path → PathSet → Act PathSet
  | [], files => return files
  | page :: rest, files => do
    let found ← Act.look (Page.links · sc page corpus)
    reportDangling page found.dangling
    addLinks sc corpus rest (files.insertAll found.files)
where
  /-- Reports the links of a page that lead to nothing. -/
  reportDangling (page : Path) : List Text → Act Unit
    | [] => return ()
    | link :: rest => do
      Act.report .debug "jck_extract::core::descriptor" "dangling link"
        [("page".toList, page.display), ("link".toList, link)]
      reportDangling page rest

/-- The class names on the launcher lines of scripts, in order. -/
def classNames (s : Store) (sc : Script.Scanners) : List Path → Except Failure (List Text)
  | [] => .ok []
  | script :: rest => do
    let names ← Script.candidates s sc script
    let more ← classNames s sc rest
    return names ++ more

/-- Reports each link that resolving replaces. -/
def reportResolved (s : Store) : List Path → Act Unit
  | [] => return ()
  | p :: rest => do
    let real := s.resolveLink p
    if !real.same p then
      Act.report .trace "jck_extract::core::resolve" "resolved bridge"
        [("bridge".toList, p.display), ("target".toList, real.display)]
    reportResolved s rest

/-- Resolves the links in a set. -/
def resolve (files : PathSet) : Act PathSet := do
  let s ← Act.look .ok
  reportResolved s files.toList
  return s.resolveLinks files

/-! ### All together -/

/-- What is found about a test before any question is asked. -/
structure Findings where
  contents : TestContents
  files : PathSet
  classes : List Text

/-- Looks at the test's own files, pages and scripts. -/
def findings (settings : Settings) (r : Request) : Act Findings := do
  let layout := settings.layout
  let contents ← Act.look (TestContents.ofDir · r.testDir)
  let pages ← Act.look fun _ => Page.scanner
  let files ← addLinks pages r.corpus (contents.descriptors layout)
    (PathSet.ofList contents.files)
  let scripts ← Act.look fun _ => Script.scanners settings.script
  let names ← Act.look (classNames · scripts (contents.scripts layout))
  let classes := Script.firstAppearances [] names
  Act.report .info target "classified test directory"
    [("test".toList, r.testDir.display),
     ("files".toList, Text.ofNat contents.files.length),
     ("sources".toList, Text.ofNat (contents.sources layout).length),
     ("script_classes".toList, Text.ofNat classes.length)]
  return ⟨contents, files, classes⟩

/-- Asks all questions about a test in a scratch directory. -/
def askAll (oracle : Oracle) (layout : Layout) (r : Request) (found : Findings)
    (library : SourceRoots) (scratch : Path) : Act PathSet := do
  let roots ← addBridgeRoots layout r scratch library
  Act.report .debug target "source roots registered"
    [("roots".toList, Log.quotedPaths roots.toList)]
  let files ← askSources oracle roots (found.contents.sources layout) found.files
  let files ← askClasses oracle roots scratch found.classes files
  resolve files

end Closure

/-- The files that a test needs, and whether it has native sources. -/
structure Closure where
  files : PathSet
  hasNatives : Bool
  deriving DecidableEq, Repr

/-- Computes the closure of a test with an oracle. -/
def Closure.build (h : Host) (settings : Settings) (oracle : Oracle) (r : Request) :
    Act Closure := do
  let layout := settings.layout
  let found ← Closure.findings settings r
  let library ← Act.look (libraryRoots · layout (r.srcRoot layout))
  let files ← Act.within .makeScratch h.scratchDir
    (Closure.askAll oracle layout r found library h.scratchDir)
  return ⟨files, found.contents.hasNatives layout⟩

end Excerpt
