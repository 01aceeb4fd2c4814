import Excerpt.Store.Lookup

/-!
# Changing the file tree

Each operation gives the changed store or refuses and changes nothing; only `makeDirs`, which
makes several directories, keeps what it made before it was refused.

Writing follows links: a link to nothing makes its target come into being. Copying opens the
source, then empties the destination and gives it the mode of the source, and only then reads, so a
file that is copied onto itself ends up empty.

Whoever writes to a file without privileges clears the bits in its mode that would lend those of
the owner or of the group to a program. The permissions stay.
-/

namespace Excerpt

/-- A change of the store that may be refused; what was done before a refusal stays. -/
abbrev Edit := ExceptT Fault (StateM Store)

namespace Store

/-! ### Modes -/

/-- The mode of a file that is made without further wishes. -/
def plainMode : Nat := 0o644

/-- A mode without one of its bits. -/
def clearBit (bit mode : Nat) : Nat := mode - mode / bit % 2 * bit

/-- What writing leaves of a mode. The set-user-ID bit is cleared, and the set-group-ID bit where
the group may execute. -/
def writtenMode (mode : Nat) : Nat :=
  if mode / 0o10 % 2 = 1 then clearBit 0o2000 (clearBit 0o4000 mode) else clearBit 0o4000 mode

/-- The mode of a copy. It is set before the content is written, and where there is no content
nothing is written. -/
def copiedMode (content : Bytes) (mode : Nat) : Nat :=
  if content = [] then mode else writtenMode mode

/-! ### Directories -/

/-- Makes one directory. -/
def makeDir (s : Store) (p : Path) : Except Fault Store :=
  match s.locate false p with
  | .error fault => .error fault
  | .ok (.found .., _) => .error .alreadyExists
  | .ok (.vacant dir name, _) => .ok (s.put (dir ++ [name]) .dir)

/-- Runs a single-step change. -/
def step (f : Store → Except Fault Store) : Edit Unit := fun s =>
  match f s with
  | .ok s' => (.ok (), s')
  | .error fault => (.error fault, s)

/-- Makes a directory and those above it that are missing; `depth` bounds how many. -/
def makeDirsWithin : (depth : Nat) → Path → Edit Unit
  | 0, _ => throw .notFound
  | depth + 1, p => fun s =>
    if p.bytes = [] then (.ok (), s)
    else match s.makeDir p with
      | .ok s' => (.ok (), s')
      | .error .notFound =>
        match p.parent? with
        | none => (.error .notFound, s)
        | some above =>
          match makeDirsWithin depth above s with
          | (.error fault, s') => (.error fault, s')
          | (.ok (), s') =>
            match s'.makeDir p with
            | .ok s'' => (.ok (), s'')
            | .error fault => if s'.isDir p then (.ok (), s') else (.error fault, s')
      | .error fault => if s.isDir p then (.ok (), s) else (.error fault, s)

/-- Makes a directory and those above it that are missing. A directory that exists is no fault. -/
def makeDirs (p : Path) : Edit Unit := makeDirsWithin (p.bytes.length + 1) p

/-! ### Files and links -/

/-- Where a file opened for writing stands, with the mode it has or would get. -/
def writeTarget (s : Store) (p : Path) (newMode : Nat) : Except Fault (Location × Nat) :=
  match s.locate true p with
  | .error fault => .error fault
  | .ok (_, true) => .error .isADirectory
  | .ok (.found loc (.file _ mode _), false) =>
    if writable mode then .ok (loc, mode) else .error .permissionDenied
  | .ok (.found .., false) => .error .isADirectory
  | .ok (.vacant dir name, false) => .ok (dir ++ [name], newMode)

/-- Writes a file, new or in place of the old content. -/
def write (s : Store) (p : Path) (content : Bytes) : Except Fault Store :=
  match s.writeTarget p plainMode with
  | .error fault => .error fault
  | .ok (loc, mode) => .ok (s.put loc (.file content (writtenMode mode) s.clock))

/-- Copies a regular file with its permissions. -/
def copy (s : Store) (src dst : Path) : Except Fault Store :=
  match s.find true src with
  | .error fault => .error fault
  | .ok (origin, .file _ mode _) =>
    if readable mode then
      match s.writeTarget dst mode with
      | .error fault => .error fault
      | .ok (dest, _) =>
        let emptied := s.put dest (.file [] mode s.clock)
        match emptied.get? origin with
        | some (.file content _ _) =>
          .ok (emptied.put dest (.file content (copiedMode content mode) s.clock))
        | _ => .ok emptied
    else .error .permissionDenied
  | .ok _ => .error .notARegularFile

/-- Sets the modification time of a file, which has to be writable. -/
def setModified (s : Store) (p : Path) (stamp : Stamp) : Except Fault Store :=
  match s.find true p with
  | .error fault => .error fault
  | .ok (loc, .file content mode _) =>
    if writable mode then .ok (s.put loc (.file content mode stamp)) else .error .permissionDenied
  | .ok _ => .error .isADirectory

/-- Sets the mode of a file; the mode of a directory is not kept. -/
def setMode (s : Store) (p : Path) (mode : Nat) : Except Fault Store :=
  match s.find true p with
  | .error fault => .error fault
  | .ok (loc, .file content _ stamp) => .ok (s.put loc (.file content mode stamp))
  | .ok _ => .ok s

/-- Makes a symbolic link at `p`. -/
def makeLink (s : Store) (target p : Path) : Except Fault Store :=
  if target.bytes.contains 0 then .error .nulInPath
  else if target.bytes = [] then .error .notFound
  else if maxPath ≤ target.bytes.length then .error .nameTooLong
  else match s.locate false p with
    | .error fault => .error fault
    | .ok (.found .., _) => .error .alreadyExists
    | .ok (.vacant .., true) => .error .notFound
    | .ok (.vacant dir name, false) => .ok (s.put (dir ++ [name]) (.link target))

/-- Whether the file system gives out a name. -/
def grants (name : Bytes) : Bool :=
  Path.segmentComponent? name = some (.name name) && !name.contains Path.slash &&
    !name.contains 0 && name.length ≤ maxName

/-- Puts a file beneath a directory, and the directories that are missing on the way to it. What is
in the way stays. -/
def deposit (content : Bytes) : Store → (dir : Location) → (names : Location) → Store
  | s, _, [] => s
  | s, dir, name :: rest =>
    if grants name then
      match s.get? (dir ++ [name]) with
      | none =>
        if rest = [] then s.put (dir ++ [name]) (.file content plainMode s.clock)
        else deposit content (s.put (dir ++ [name]) .dir) (dir ++ [name]) rest
      | some .dir => deposit content s (dir ++ [name]) rest
      | some _ => s
    else s

/-- Removes a file or a link. -/
def removeFile (s : Store) (p : Path) : Except Fault Store :=
  match s.find false p with
  | .error fault => .error fault
  | .ok (_, .dir) => .error .isADirectory
  | .ok (loc, _) => .ok (s.erase loc)

end Store

end Excerpt
