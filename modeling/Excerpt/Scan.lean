import Excerpt.Pattern.Parser
import Excerpt.Pattern.Search
import Excerpt.Store.Lookup
import Excerpt.Text.Utf16

/-!
# Scanning files by lines

A scanner selects the lines of a file in which its pattern occurs, and takes captures from them: of
each match the first group, or the whole match if the pattern has no group.

Selection looks at the bytes of the file, where ill-formed bytes match nothing and newlines are
never part of a match; `^` and `$` are about lines. A selected line is then read as text without
its line end, and captures are taken from it with the pattern as it stands.

A byte order mark is dropped, and one for UTF-16 makes the file be decoded. A NUL ends the search
before the piece in which it was read; a file is read in pieces that fill a buffer.
-/

namespace Excerpt

/-! ### What of a file is searched -/

namespace Scan

/-- The size of the buffer at first. -/
def bufferSize : Nat := 65536

/-- The number of bytes read first, to look for a byte order mark. -/
def markSize : Nat := 3

/-- The newline byte. -/
def newline : UInt8 := 10

/-- How many bytes stand behind the last newline, if there is one. -/
def behindNewline? (piece : Bytes) : Option Nat :=
  let tail := piece.reverse.takeWhile (· != newline)
  if tail.length = piece.length then none else some tail.length

/-- How much of a file with a NUL is searched. `held` bytes wait in the buffer for their newline,
`done` bytes have been searched, and the next read takes `size` bytes, by default what the buffer
has free; `fuel` bounds the number of reads. -/
def searchedLength : (fuel : Nat) → (capacity held done : Nat) → (size : Option Nat) → Bytes → Nat
  | 0, _, _, done, _, _ => done
  | fuel + 1, capacity, held, done, size, rest =>
    let capacity := if held = capacity then 3 * capacity else capacity
    let piece := rest.take (size.getD (capacity - held))
    if piece.isEmpty || piece.contains 0 then done
    else
      let rest := rest.drop piece.length
      match behindNewline? piece with
      | none => searchedLength fuel capacity (held + piece.length) done none rest
      | some left =>
        searchedLength fuel capacity left (done + held + piece.length - left) none rest

/-- The number of UTF-16 units that are decoded at a time. -/
def unitsAtATime : Nat := 4096

/-- How much of a decoded text with a NUL is searched, in characters. `pending` are the characters
of the present piece in reverse and `units` their number of units; `held` and `done` count
characters that wait for their newline and that have been searched. -/
def searchedChars : (pending : Text) → (units held done : Nat) → Text → Nat
  | _, _, _, done, [] => done
  | pending, units, held, done, c :: rest =>
    let width := if c.toNat < 0x10000 then 1 else 2
    if c = '\x00' then done
    else if units + width < unitsAtATime then
      searchedChars (c :: pending) (units + width) held done rest
    else
      let piece := c :: pending
      let left := (piece.takeWhile (· ≠ '\n')).length
      if left = piece.length then searchedChars [] 0 (held + left) done rest
      else searchedChars [] 0 left (done + held + piece.length - left) rest

/-- What is searched of a file without a mark for UTF-16. -/
def searchedPlain (firstRead : Option Nat) (content : Bytes) : Bytes :=
  if content.contains 0 then
    content.take (searchedLength (content.length + 1) bufferSize 0 0 firstRead content)
  else content

/-- What is searched of a decoded text, as UTF-8. -/
def searchedDecoded (t : Text) : Bytes :=
  Utf8.encode (if t.contains '\x00' then t.take (searchedChars [] 0 0 0 t) else t)

/-- What of a file's content is searched, as UTF-8. -/
def searched : Bytes → Bytes
  | 0xEF :: 0xBB :: 0xBF :: rest => searchedPlain none rest
  | 0xFF :: 0xFE :: rest => searchedDecoded (Utf16.lossy .littleEndian rest)
  | 0xFE :: 0xFF :: rest => searchedDecoded (Utf16.lossy .bigEndian rest)
  | content => searchedPlain (some markSize) content

end Scan

/-! ### Scanners -/

/-- A pattern in the two forms that scanning needs: `select` finds lines and never consumes a
newline, `capture` takes groups from a line. With `alone` a line is matched without its
neighbours in sight. -/
structure Scanner where
  select : Pattern
  alone : Bool
  capture : Pattern
  deriving DecidableEq, Repr

namespace Scanner

/-- The scanner for a pattern; a pattern that cannot be read in both forms has none. -/
def ofText? (pattern : Text) : Option Scanner := do
  let select ← Pattern.parseForLines? pattern
  let capture ← Pattern.parse? false pattern
  return ⟨select, select.hasTextEdge, capture⟩

/-- Whether a line is selected; `terminated` says whether a newline follows it. -/
def selects (s : Scanner) (line : Bytes) (terminated : Bool) : Bool :=
  let newline := some (Symbol.char '\n')
  s.select.occursIn (if s.alone then none else newline)
    (if !s.alone && terminated then newline else none) (Utf8.symbols line)

/-- The text of a line without carriage returns and newlines at its end. -/
def lineText (line : Bytes) : Text :=
  Text.dropEndWhile (fun c => c == '\r' || c == '\n') (Utf8.lossy line)

/-- The selected lines of a file's content, as text. -/
def selectedLines (s : Scanner) (content : Bytes) : List Text :=
  ((Text.cutLines Scan.newline (Scan.searched content)).filter fun l => s.selects l.1 l.2).map
    fun l => lineText l.1

/-- Which group is captured. -/
def groupIndex (s : Scanner) : Nat := if 2 ≤ s.capture.maxMark then 1 else 0

/-- All captures in one line. -/
def capturesIn (s : Scanner) (line : Text) : List Text :=
  (s.capture.matchesIn (line.map .char)).filterMap (·.group? s.groupIndex)

/-- The first selected line of a file's content. -/
def firstLine? (s : Scanner) (content : Bytes) : Option Text := (s.selectedLines content).head?

/-- All captures in the selected lines of a file's content, in order. -/
def captures (s : Scanner) (content : Bytes) : List Text :=
  (s.selectedLines content).flatMap s.capturesIn

/-- The first capture in a file's content. -/
def firstCapture? (s : Scanner) (content : Bytes) : Option Text := (s.captures content).head?

end Scanner

/-- Adds a text to increasing texts, unless it is there. -/
def insertText (t : Text) : List Text → List Text
  | [] => [t]
  | u :: rest =>
    if u = t then u :: rest
    else if Text.before u t then u :: insertText t rest
    else t :: u :: rest

/-- The distinct texts of a list in increasing order. -/
def distinctTexts (ts : List Text) : List Text := ts.foldl (fun done t => insertText t done) []

end Excerpt
