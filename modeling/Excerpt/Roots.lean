import Excerpt.Path.Basic

/-!
# Source roots

The directories that a compiler resolves types from, in the order in which they were registered,
each once.
-/

namespace Excerpt

/-- A list of directories without repetition. -/
structure SourceRoots where
  toList : List Path
  deriving DecidableEq, Repr, Inhabited

namespace SourceRoots

/-- No root. -/
def empty : SourceRoots := ⟨[]⟩

/-- Registers a root, unless it is there. -/
def add (r : SourceRoots) (p : Path) : SourceRoots :=
  if r.toList.any (·.same p) then r else ⟨r.toList ++ [p]⟩

/-- Registers roots one after the other. -/
def addAll (r : SourceRoots) (ps : List Path) : SourceRoots := ps.foldl add r

/-- The number of roots. -/
def size (r : SourceRoots) : Nat := r.toList.length

/-- Whether there is no root. -/
def isEmpty (r : SourceRoots) : Bool := r.toList.isEmpty

end SourceRoots

end Excerpt
