import Excerpt.Path.Set
import Excerpt.Store.Lookup

/-!
# Resolving links

A set of files may hold links, bridges above all. Resolving puts the target of each link in its
place, once; a relative target is taken from the directory of the link, with `.` and `..` folded.
-/

namespace Excerpt

namespace Store

/-- The target of a link, or the path itself if it is no link. -/
def resolveLink (s : Store) (p : Path) : Path :=
  match s.ownNode? p with
  | some (.link target) =>
    if target.isAbsolute then target
    else match p.parent? with
      | some dir => (dir.join target).fold
      | none => target.fold
  | _ => p

/-- The set with the target of each link in its place. -/
def resolveLinks (s : Store) (files : PathSet) : PathSet :=
  PathSet.empty.insertAll (files.toList.map s.resolveLink)

end Store

end Excerpt
