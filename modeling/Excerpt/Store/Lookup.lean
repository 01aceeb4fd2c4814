import Excerpt.Store.Basic

/-!
# Finding nodes

A path is walked segment by segment: `.` stays, `..` goes to the parent of the directory reached
so far, and a link on the way is replaced by its target. A link at the very end is followed only
where the operation asks for it, or where a slash behind it asks for a directory. At most forty
links are followed.

Everything here only reads the store.
-/

namespace Excerpt

/-- Where a walk ends: at a node, or at a free name in an existing directory. -/
inductive Place where
  | found (loc : Location) (node : Node)
  | vacant (dir : Location) (name : Bytes)
  deriving DecidableEq, Repr

/-- How far a walk comes without following a link. -/
inductive Leg where
  | arrived (place : Place)
  | refused (fault : Fault)
  | jump (dir : Location) (target : Path) (todo : List Bytes)
  deriving DecidableEq, Repr

namespace Store

/-- The longest name, in bytes. -/
def maxName : Nat := 255

/-- Paths of this many bytes or more are refused. -/
def maxPath : Nat := 4096

/-- How many links one walk may follow. -/
def maxLinks : Nat := 40

/-- The segments of a path that a walk visits. -/
def segments (p : Path) : List Bytes := (Text.splitOn (· == Path.slash) p.bytes).filter (· ≠ [])

/-- Whether a path ends in a slash and so can only name a directory. -/
def wantsDir (p : Path) : Bool := p.bytes.getLast? == some Path.slash

/-- Walks from a directory until the segments are used up or a link has to be followed. -/
def descend (s : Store) (follow : Bool) : List Bytes → Location → Leg
  | [], dir => .arrived (.found dir .dir)
  | seg :: rest, dir =>
    if seg = [Path.dot] then descend s follow rest dir
    else if seg = [Path.dot, Path.dot] then descend s follow rest dir.dropLast
    else if maxName < seg.length then .refused .nameTooLong
    else match s.get? (dir ++ [seg]) with
      | none => if rest = [] then .arrived (.vacant dir seg) else .refused .notFound
      | some .dir => descend s follow rest (dir ++ [seg])
      | some (.link target) =>
        if rest = [] ∧ ¬ follow then .arrived (.found (dir ++ [seg]) (.link target))
        else .jump dir target rest
      | some node =>
        if rest = [] then .arrived (.found (dir ++ [seg]) node) else .refused .notADirectory

/-- Walks with at most `links - 1` links followed; `asDir` says that a slash stood at the end. -/
def walk (s : Store) (follow : Bool) :
    (links : Nat) → Location → List Bytes → (asDir : Bool) → Except Fault (Place × Bool)
  | 0, _, _, _ => .error .tooManyLinks
  | links + 1, dir, todo, asDir =>
    match s.descend (follow || asDir) todo dir with
    | .refused fault => .error fault
    | .jump loc target rest =>
      s.walk follow links (if target.isAbsolute then [] else loc) (segments target ++ rest)
        (asDir || (rest.isEmpty && wantsDir target))
    | .arrived (.found loc node) =>
      if asDir && !node.isDir then .error .notADirectory else .ok (.found loc node, asDir)
    | .arrived place => .ok (place, asDir)

/-- Where a path leads, and whether it was written with a slash at the end. -/
def locate (s : Store) (follow : Bool) (p : Path) : Except Fault (Place × Bool) :=
  if p.bytes.contains 0 then .error .nulInPath
  else if p.bytes = [] then .error .notFound
  else if maxPath ≤ p.bytes.length then .error .nameTooLong
  else s.walk follow (maxLinks + 1) (if p.isAbsolute then [] else s.cwd) (segments p) (wantsDir p)

/-- The node that a path leads to. -/
def find (s : Store) (follow : Bool) (p : Path) : Except Fault (Location × Node) :=
  match s.locate follow p with
  | .error fault => .error fault
  | .ok (.vacant .., _) => .error .notFound
  | .ok (.found loc node, _) => .ok (loc, node)

/-- The node of a path, links followed. -/
def node? (s : Store) (p : Path) : Option Node :=
  match s.find true p with
  | .ok (_, node) => some node
  | .error _ => none

/-- The node of a path, a link at the end not followed. -/
def ownNode? (s : Store) (p : Path) : Option Node :=
  match s.find false p with
  | .ok (_, node) => some node
  | .error _ => none

/-- Whether something stands at a path, links followed. -/
def «exists» (s : Store) (p : Path) : Bool := (s.node? p).isSome

/-- Whether a path leads to a directory. -/
def isDir (s : Store) (p : Path) : Bool := (s.node? p).any Node.isDir

/-- Whether a path leads to a regular file. -/
def isFile (s : Store) (p : Path) : Bool := (s.node? p).any Node.isFile

/-- Whether a path is a symbolic link. -/
def isLink (s : Store) (p : Path) : Bool := (s.ownNode? p).any Node.isLink

/-! ### Permissions

The program has no privileges, but it owns every file and belongs to its group, so the owner's bits
decide. -/

/-- Whether the owner may read. -/
def readable (mode : Nat) : Bool := mode / 0o400 % 2 = 1

/-- Whether the owner may write. -/
def writable (mode : Nat) : Bool := mode / 0o200 % 2 = 1

/-- Whether the owner may execute. -/
def executable (mode : Nat) : Bool := mode / 0o100 % 2 = 1

/-! ### Reading -/

/-- The bytes of the file that a path leads to. -/
def read (s : Store) (p : Path) : Except Fault Bytes :=
  match s.find true p with
  | .error fault => .error fault
  | .ok (_, .file content mode _) => if readable mode then .ok content else .error .permissionDenied
  | .ok _ => .error .isADirectory

/-- The names in the directory that a path leads to, in listing order. -/
def list (s : Store) (p : Path) : Except Fault (List Bytes) :=
  match s.find true p with
  | .error fault => .error fault
  | .ok (loc, .dir) => .ok (s.names loc)
  | .ok _ => .error .notADirectory

/-- The paths of the nodes in a directory, in listing order. -/
def listPaths (s : Store) (p : Path) : Except Fault (List Path) :=
  (s.list p).map (·.map p.child)

/-- The absolute path without links of what a path leads to. The system refuses to give a path of
`maxPath` bytes or more. Here it is given, but nothing is found under it. -/
def canonical (s : Store) (p : Path) : Except Fault Path :=
  (s.find true p).map (pathOf ·.1)

/-- The target of the link at a path. -/
def readLink (s : Store) (p : Path) : Except Fault Path :=
  match s.find false p with
  | .error fault => .error fault
  | .ok (_, .link target) => .ok target
  | .ok _ => .error .notARegularFile

/-- When the file that a path leads to was last modified. A directory shows the present time. -/
def modified (s : Store) (p : Path) : Except Fault Stamp :=
  match s.find true p with
  | .error fault => .error fault
  | .ok (_, .file _ _ loc) => .ok loc
  | .ok _ => .ok s.clock

end Store

end Excerpt
