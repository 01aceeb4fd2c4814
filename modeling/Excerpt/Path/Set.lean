import Excerpt.Path.Basic

/-!
# Sets of paths

A finite set of paths, kept in path order with one spelling for each path. A path that is
inserted again keeps the spelling it came in with first.
-/

namespace Excerpt

/-- A set of paths, as its elements in path order. -/
structure PathSet where
  toList : List Path
  deriving DecidableEq, Repr, Inhabited

namespace PathSet

/-- The set without elements. -/
def empty : PathSet := ⟨[]⟩

instance : EmptyCollection PathSet := ⟨empty⟩

/-- The number of elements. -/
def size (s : PathSet) : Nat := s.toList.length

/-- Whether there is no element. -/
def isEmpty (s : PathSet) : Bool := s.toList.isEmpty

/-- Whether some spelling of `p` is an element. -/
def contains (s : PathSet) (p : Path) : Bool := s.toList.any (·.same p)

/-- Adds a path to a list in path order, unless a spelling of it is there. -/
def insertInto (p : Path) : List Path → List Path
  | [] => [p]
  | q :: rest =>
    if q.same p then q :: rest
    else if q.before p then q :: insertInto p rest
    else p :: q :: rest

/-- The set with `p` added. -/
def insert (s : PathSet) (p : Path) : PathSet := ⟨insertInto p s.toList⟩

/-- The set with the paths of a list added, one after the other. -/
def insertAll (s : PathSet) (ps : List Path) : PathSet := ps.foldl insert s

/-- Both sets together; a path that is in both keeps its spelling in the first. -/
def union (s t : PathSet) : PathSet := s.insertAll t.toList

/-- The set of the paths of a list. Of several spellings of one path the last one is taken. -/
def ofList (ps : List Path) : PathSet := empty.insertAll ps.reverse

end PathSet

end Excerpt
