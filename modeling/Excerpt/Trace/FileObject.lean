import Excerpt.Path.Basic

/-!
# File objects in a compiler trace

A compiler names the files that it touches by what kind of object stands for them, with the path
inside brackets; a file found on a search path is named by the directory of that search path and
the rest. Identity of files goes by the path behind the words.
-/

namespace Excerpt

/-- A file as a compiler names it. -/
inductive FileObject where
  /-- a file, in the manner of older compilers -/
  | regular (p : Path)
  /-- a file that was named explicitly -/
  | simple (p : Path)
  /-- a file found in a directory of a search path -/
  | directory (base relative : Path)
  /-- a member of an archive -/
  | archive (p : Path) (entry : Text)
  /-- a member of the runtime itself -/
  | runtime (p : Path)
  /-- a path without further words -/
  | plain (p : Path)
  deriving DecidableEq, Repr

namespace FileObject

/-- Splits `Kind[inner]`, where the kind is ASCII letters and digits. -/
def splitKind? (t : Text) : Option (Text × Text) :=
  match Text.cutFirst? (· == '[') t with
  | none => none
  | some (kind, rest) =>
    if kind.isEmpty || !kind.all Char.isAlphanum then none
    else (Text.beforeEnd? [']'] rest).map (kind, ·)

/-- The object that an archive's words stand for: the archive and its member, in parentheses or
after the last colon. -/
def ofArchiveWords (inner : Text) : FileObject :=
  match Text.cutFirst? (· == '(') inner with
  | some (p, rest) => archive (Path.ofText p) (Text.dropEndWhile (· == ')') rest)
  | none =>
    match Text.cutLast? (· == ':') inner with
    | some (p, entry) => archive (Path.ofText p) entry
    | none => plain (Path.ofText inner)

/-- The object of words without a kind. -/
def ofPlainWords (t : Text) : FileObject :=
  if "/modules/".toList.isPrefixOf t then runtime (Path.ofText t) else plain (Path.ofText t)

/-- Reads what a compiler prints for a file. -/
def parse? (text : Text) : Option FileObject :=
  let t := Text.trim text
  if t.isEmpty then none
  else match splitKind? t with
  | none => some (ofPlainWords t)
  | some (kind, inner) =>
    if kind = "RegularFileObject".toList then some (regular (Path.ofText inner))
    else if kind = "SimpleFileObject".toList then some (simple (Path.ofText inner))
    else if kind = "DirectoryFileObject".toList then
      (Text.cutLast? (· == ':') inner).map fun parts =>
        directory (Path.ofText parts.1) (Path.ofText parts.2)
    else if kind = "JRTFileObject".toList then some (runtime (Path.ofText inner))
    else some (ofArchiveWords inner)

/-- The path behind the words. -/
def path : FileObject → Path
  | regular p | simple p | runtime p | plain p => p
  | directory base relative => base.join relative
  | archive p _ => p

/-- Whether two objects are one file. Members of archives are only ever members of archives. -/
def sameFile : FileObject → FileObject → Bool
  | archive p x, archive q y => p.same q && x == y
  | archive .., _ => false
  | _, archive .. => false
  | a, b => a.path.same b.path

/-- Whether the object is a source file with this extension. -/
def isSource (ext : Text) : FileObject → Bool
  | archive _ entry => ('.' :: ext).isSuffixOf entry
  | o => o.path.hasExtension ext

/-- Whether a path lies beneath one of some roots. -/
def isUnder (roots : List Path) (p : Path) : Bool := roots.any p.startsWith

/-- Whether the object was found beneath one of the source roots. -/
def claimedBy (roots : List Path) : FileObject → Bool
  | directory base _ => isUnder roots base
  | regular p | simple p | plain p => isUnder roots p
  | archive .. | runtime _ => false

end FileObject

end Excerpt
