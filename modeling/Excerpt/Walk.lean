import Excerpt.Failure
import Excerpt.Glob
import Excerpt.Store.Lookup

/-!
# Walking directories

A walk lists everything beneath a root: in each directory by name, and a directory before what it
holds. Links are listed and not followed; only the root itself may be a link. What a glob matches,
by its path relative to the root, is left out, and a directory that is left out is not entered.

A directory is opened by its path. Here every directory that was listed can be opened; the system
also refuses one whose path has `Store.maxPath` bytes or more, and the walk of the program then fails
with the message for its root.
-/

namespace Excerpt

/-- Something met on a walk; the children of the root have depth 1. -/
structure WalkEntry where
  path : Path
  isDir : Bool
  depth : Nat
  deriving DecidableEq, Repr

namespace Walk

/-- What a walk leaves out, by relative path, and how deep it goes. -/
structure Limits where
  ignored : Path → Bool
  maxDepth : Option Nat

/-- The globs of a list, or the first that cannot be read. -/
def globs : List Text → Except Failure (List Glob)
  | [] => .ok []
  | t :: rest =>
    match Glob.ofText? t with
    | none => .error (.badGlob t)
    | some g => (globs rest).map (g :: ·)

/-- The limits that globs and a depth set. -/
def Limits.ofGlobs (gs : List Glob) (maxDepth : Option Nat) : Limits :=
  ⟨fun p => gs.any (·.matchesPath p), maxDepth⟩

/-- Whether a walk may list what is at a depth. -/
def Limits.reaches (l : Limits) (depth : Nat) : Bool := l.maxDepth.all (depth ≤ ·)

/-- What lies beneath a location; `path` and `rel` are its path and its path relative to the root,
and `fuel` bounds how much deeper the walk goes. -/
def below (s : Store) (l : Limits) : (fuel : Nat) → Location → (path rel : Path) →
    (depth : Nat) → List WalkEntry
  | 0, _, _, _, _ => []
  | fuel + 1, loc, path, rel, depth =>
    if l.reaches (depth + 1) then
      (sortBy Bytes.before (s.names loc)).flatMap fun name =>
        let path := path.child name
        let rel := if rel = Path.empty then ⟨name⟩ else rel.child name
        if l.ignored rel then []
        else if ((s.get? (loc ++ [name])).any Node.isDir) then
          ⟨path, true, depth + 1⟩ :: below s l fuel (loc ++ [name]) path rel (depth + 1)
        else [⟨path, false, depth + 1⟩]
    else []

/-- The path that stands for standard input and is never walked, however it is spelled. -/
def standardInput : Path := ⟨[45]⟩

/-- Everything beneath a root, in walk order. -/
def entries (s : Store) (l : Limits) (root : Path) : Except Failure (List WalkEntry) :=
  if root.same standardInput then .ok []
  else match s.find true root with
    | .error fault => .error (.walk root fault)
    | .ok (loc, .dir) => .ok (below s l (s.entries.length + 1) loc root Path.empty 0)
    | .ok _ => .ok []

/-- What beneath a root is not a directory, in path order. -/
def files (s : Store) (l : Limits) (root : Path) : Except Failure (List Path) :=
  (entries s l root).map fun es => Path.sort ((es.filter (!·.isDir)).map (·.path))

/-- Adds a file to the group of its directory, keeping the groups in path order. -/
def addToGroup (dir file : Path) : List (Path × List Path) → List (Path × List Path)
  | [] => [(dir, [file])]
  | g :: rest =>
    if g.1.same dir then (g.1, g.2 ++ [file]) :: rest
    else if g.1.before dir then g :: addToGroup dir file rest
    else (dir, [file]) :: g :: rest

/-- The files of a list by directory. -/
def groupByDir (ps : List Path) : List (Path × List Path) :=
  ps.foldl (fun groups p => addToGroup (p.parent?.getD Path.empty) p groups) []

/-- What beneath a root is not a directory, by directory and in path order. -/
def filesByDir (s : Store) (l : Limits) (root : Path) :
    Except Failure (List (Path × List Path)) :=
  (files s l root).map groupByDir

end Walk

end Excerpt
