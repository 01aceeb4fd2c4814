import Excerpt.Path.Basic

/-!
# The file tree

A store is a finite tree of files, links and directories. It is kept as a list of entries, each
with the names that lead to it from the root; the root itself is always a directory and has no
entry. Listing a directory gives its names in the order of the entries.

The store also knows the directory that relative paths start from, and the time that a file
written now is stamped with.
-/

namespace Excerpt

/-- A moment, in seconds and nanoseconds. -/
structure Stamp where
  seconds : Int
  nanos : Nat
  deriving DecidableEq, Repr, Inhabited

/-- Where a node is: the names on the way from the root. -/
abbrev Location := List Bytes

/-- What stands at a location. -/
inductive Node where
  | file (content : Bytes) (mode : Nat) (modified : Stamp)
  | link (target : Path)
  | dir
  deriving DecidableEq, Repr, Inhabited

namespace Node

/-- Whether the node is a directory. -/
def isDir : Node → Bool
  | dir => true
  | _ => false

/-- Whether the node is a regular file. -/
def isFile : Node → Bool
  | file .. => true
  | _ => false

/-- Whether the node is a symbolic link. -/
def isLink : Node → Bool
  | link _ => true
  | _ => false

end Node

/-- Why an operation on the file tree is refused. -/
inductive Fault where
  | notFound
  | notADirectory
  | isADirectory
  | alreadyExists
  | permissionDenied
  | tooManyLinks
  | nameTooLong
  | nulInPath
  | notARegularFile
  deriving DecidableEq, Repr

namespace Fault

/-- The words for a fault. -/
def message : Fault → Text
  | notFound => "No such file or directory (os error 2)".toList
  | notADirectory => "Not a directory (os error 20)".toList
  | isADirectory => "Is a directory (os error 21)".toList
  | alreadyExists => "File exists (os error 17)".toList
  | permissionDenied => "Permission denied (os error 13)".toList
  | tooManyLinks => "Too many levels of symbolic links (os error 40)".toList
  | nameTooLong => "File name too long (os error 36)".toList
  | nulInPath => "file name contained an unexpected NUL byte".toList
  | notARegularFile =>
    "the source path is neither a regular file nor a symlink to a regular file".toList

end Fault

/-- A file tree, the directory that relative paths start from, and the present time. -/
structure Store where
  entries : List (Location × Node)
  cwd : Location
  clock : Stamp
  deriving DecidableEq, Repr, Inhabited

namespace Store

/-- What stands at a location. -/
def get? (s : Store) (loc : Location) : Option Node :=
  if loc = [] then some .dir else s.entries.lookup loc

/-- Replaces the node of an entry, or adds the entry at the end. -/
def putInto (loc : Location) (node : Node) : List (Location × Node) → List (Location × Node)
  | [] => [(loc, node)]
  | e :: rest => if e.1 = loc then (loc, node) :: rest else e :: putInto loc node rest

/-- The store with `node` at a location. -/
def put (s : Store) (loc : Location) (node : Node) : Store :=
  { s with entries := putInto loc node s.entries }

/-- The store without the entry of a location. -/
def erase (s : Store) (loc : Location) : Store :=
  { s with entries := s.entries.filter (·.1 ≠ loc) }

/-- The store without a location and everything beneath it. -/
def eraseTree (s : Store) (loc : Location) : Store :=
  { s with entries := s.entries.filter fun e => !loc.isPrefixOf e.1 }

/-- The names directly beneath a location, in the order of the entries. -/
def names (s : Store) (loc : Location) : List Bytes :=
  s.entries.filterMap fun e =>
    if e.1.dropLast = loc then e.1.getLast? else none

/-- The absolute path of a location. -/
def pathOf : Location → Path
  | [] => ⟨[Path.slash]⟩
  | names => ⟨names.flatMap (Path.slash :: ·)⟩

end Store

end Excerpt
