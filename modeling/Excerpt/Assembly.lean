import Excerpt.Act
import Excerpt.Walk

/-!
# Assembling the output

Files of the corpus are copied to the same place beneath the output directory, with their mode and
modification time; the first copy that fails ends the run. The native tree is copied whole, apart
from what the globs leave out: directories stay directories even when they are empty, and a link
to a directory stays a link.
-/

namespace Excerpt

namespace Assembly

/-- The part of the program that reports on assembling. -/
def target : String := "jck_extract::core::assemble"

/-- Where a file of the corpus goes. -/
def destination (corpus output file : Path) : Except Failure Path :=
  match file.strip? corpus with
  | some rel => .ok (output.join rel)
  | none => .error (.outsideCorpus file corpus)

/-- Copies one file with its mode and modification time, making directories on the way. -/
def copyFile (src dst : Path) : Act Unit := do
  match dst.parent? with
  | some dir => Act.edit (.makeDir dir) (Store.makeDirs dir)
  | none => pure ()
  Act.change (.copy src dst) (·.copy src dst)
  let stamp ← Act.look fun s =>
    match s.modified src with
    | .ok stamp => .ok stamp
    | .error fault => .error (.readTimes src fault)
  Act.change (.setTimes dst) (·.setModified dst stamp)

/-- Copies files of the corpus, in order. -/
def copyFiles (corpus output : Path) : List Path → Act Unit
  | [] => return ()
  | file :: rest => do
    let dst ← Act.look fun _ => destination corpus output file
    copyFile file dst
    copyFiles corpus output rest

/-- Copies a set of files of the corpus, and says how many. -/
def copyClosure (corpus output : Path) (files : PathSet) : Act Nat := do
  copyFiles corpus output files.toList
  return files.size

/-- Copies a link. -/
def copyLink (link dst : Path) : Act Unit := do
  let target ← Act.look fun s =>
    match s.readLink link with
    | .ok target => .ok target
    | .error fault => .error (.readLink link fault)
  Act.change (.makeLink dst target) (·.makeLink target dst)

/-- Copies one entry of the native tree, and says how many files that were. -/
def copyEntry (base destRoot : Path) (e : WalkEntry) : Act Nat := do
  match e.path.strip? base with
  | none => throw (.escaped e.path base)
  | some rel =>
    let dst := destRoot.join rel
    if e.isDir then
      Act.edit (.makeDir dst) (Store.makeDirs dst)
      return 0
    else if ← Act.look fun s => .ok (s.isDir e.path) then
      copyLink e.path dst
      return 0
    else
      copyFile e.path dst
      return 1

/-- Copies entries of the native tree, in order, and counts the files. -/
def copyEntries (base destRoot : Path) : List WalkEntry → Act Nat
  | [] => return 0
  | e :: rest => do
    let n ← copyEntry base destRoot e
    let m ← copyEntries base destRoot rest
    return n + m

/-- Copies the native tree beneath the output's library sources, and counts the files. -/
def copyNativeTree (output : Path) (ignore : List Text) (nativeDir : Path) (srcDir : Text) :
    Act Nat := do
  if !(← Act.look fun s => .ok (s.isDir nativeDir)) then throw (.noNativeDir nativeDir)
  let base := nativeDir.parent?.getD nativeDir
  let destRoot := output.joinText srcDir
  let top := destRoot.join ((nativeDir.strip? base).getD nativeDir)
  Act.edit (.makeDir top) (Store.makeDirs top)
  let gs ← Act.look fun _ => Walk.globs ignore
  let entries ← Act.look (Walk.entries · (Walk.Limits.ofGlobs gs none) nativeDir)
  let copied ← copyEntries base destRoot entries
  Act.report .debug target "copied native tree"
    [("from".toList, nativeDir.display), ("files".toList, Text.ofNat copied)]
  return copied

end Assembly

end Excerpt
