import Excerpt.Act
import Excerpt.Package
import Excerpt.Settings
import Excerpt.Walk

/-!
# Bridges

A corpus does not keep its sources in directories that match their packages, which the compiler
asks for. A bridge is a link at the canonical place of a source file, in a tree apart from the
corpus; `normalize` makes bridges for the sources of a directory.

A directory that holds the module descriptor contributes none of its files. A canonical place that
is taken stays as it is: the first file that claims it keeps it.
-/

namespace Excerpt

namespace Bridge

/-- How many bridges were made, how many files found their place taken, and how many declare no
package. -/
structure Counts where
  bridges : Nat
  shadowed : Nat
  unpackaged : Nat
  deriving DecidableEq, Repr

/-- No file yet. -/
def Counts.zero : Counts := ⟨0, 0, 0⟩

/-- The part of the program that reports on bridges. -/
def target : String := "jck_extract::core::normalize"

/-- Makes the bridge for one file that declares a package. -/
def place (dest file : Path) (name : Bytes) (package : Text) (counts : Counts) : Act Counts := do
  let dir := dest.join (Package.relativeDir package)
  Act.edit (.makeDir dir) (Store.makeDirs dir)
  let link := dir.child name
  if ← Act.look fun s => .ok (s.ownNode? link).isSome then
    Act.report .debug target "canonical location already bridged, keeping first"
      [("file".toList, file.display), ("location".toList, link.display)]
    return { counts with shadowed := counts.shadowed + 1 }
  else
    Act.change (.makeLink link file) (·.makeLink file link)
    return { counts with bridges := counts.bridges + 1 }

/-- Makes the bridge for one file, if it is a source that declares a package. -/
def placeFile (layout : Layout) (sc : Scanner) (dest file : Path) (counts : Counts) :
    Act Counts := do
  if !file.hasExtension layout.sourceExt then return counts
  match ← Act.look (Package.ofFile · sc file), file.fileName? with
  | none, _ => return { counts with unpackaged := counts.unpackaged + 1 }
  | some _, none => return counts
  | some package, some name => place dest file name package counts

/-- Makes the bridges for the files of a list. -/
def placeFiles (layout : Layout) (sc : Scanner) (dest : Path) :
    List Path → Counts → Act Counts
  | [], counts => return counts
  | file :: rest, counts => do
    let counts ← placeFile layout sc dest file counts
    placeFiles layout sc dest rest counts

/-- Whether a directory's files hold the module descriptor. -/
def holdsDescriptor (layout : Layout) (files : List Path) : Bool :=
  files.any (·.fileName? == some (Utf8.encode layout.moduleDescriptor))

/-- Makes the bridges for the directories of a list. -/
def placeGroups (layout : Layout) (sc : Scanner) (dest : Path) :
    List (Path × List Path) → Counts → Act Counts
  | [], counts => return counts
  | (dir, files) :: rest, counts => do
    if holdsDescriptor layout files then
      Act.report .trace target "module descriptor present, skipping siblings"
        [("dir".toList, dir.display)]
      placeGroups layout sc dest rest counts
    else
      let counts ← placeFiles layout sc dest files counts
      placeGroups layout sc dest rest counts

/-- Makes bridges beneath `dest` for the sources beneath `source`, or only for those directly in
it. -/
def normalize (layout : Layout) (source dest : Path) (recursive : Bool) : Act Counts := do
  let sc ← Act.look fun _ => Package.scanner
  let gs ← Act.look fun _ => Walk.globs layout.ignore
  let limits := Walk.Limits.ofGlobs gs (if recursive then none else some 1)
  let groups ← Act.look (Walk.filesByDir · limits source)
  let counts ← placeGroups layout sc dest groups .zero
  Act.report .debug target "normalized source tree"
    [("source".toList, source.display), ("dest".toList, dest.display),
     ("recursive".toList, Log.flag recursive), ("bridges".toList, Text.ofNat counts.bridges),
     ("shadowed".toList, Text.ofNat counts.shadowed)]
  return counts

end Bridge

end Excerpt
