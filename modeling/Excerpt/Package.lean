import Excerpt.Failure
import Excerpt.Scan

/-!
# Packages

A source file says on one line which package it belongs to, and the segments of the package name
are the directory that it belongs into. `Package.ofFile` takes the name from the first such line,
and `Package.relativeDir` is the directory; empty segments are skipped.
-/

namespace Excerpt

namespace Package

/-- The line that declares a package. -/
def declaration : Text := "^\\s*package\\s+([A-Za-z0-9$_.-]+)\\s*;".toList

/-- The scanner for package declarations. -/
def scanner : Except Failure Scanner :=
  match Scanner.ofText? declaration with
  | some s => .ok s
  | none => .error (.badPattern declaration)

/-- The package that a file declares, if it declares one. -/
def ofFile (s : Store) (sc : Scanner) (file : Path) : Except Failure (Option Text) :=
  match s.read file with
  | .error fault => .error (.scan file fault)
  | .ok content => .ok (sc.firstCapture? content)

/-- The non-empty segments of a package name. -/
def segments (name : Text) : List Text := (Text.splitOn (· == '.') name).filter (!·.isEmpty)

/-- The directory of a package. -/
def relativeDir (name : Text) : Path := (segments name).foldl Path.joinText Path.empty

end Package

end Excerpt
