import Excerpt.Path.Basic
import Excerpt.Pattern.Search

/-!
# Globs

A glob is matched against the bytes of a whole relative path. `*` and `?` match slashes too; `**`
as a whole segment stands for any number of segments; brackets hold a class, braces hold
alternatives, which may nest, and a backslash takes the meaning from the next character.

A glob is a list of pieces and means a pattern over bytes. A path that ends in a dot has no file
name here, so globs that are decided by the file name alone, or by its extension, leave it alone.
-/

namespace Excerpt

namespace Glob

/-- One piece of a glob. `deepStart`, `deepMiddle` and `deepEnd` are `**` at the start, between
slashes and at the end. A group whose alternatives are all empty stands for nothing. -/
inductive Piece where
  | literal (c : Char)
  | any
  | many
  | deepStart
  | deepMiddle
  | deepEnd
  | oneOf (negated : Bool) (ranges : List (Char × Char))
  | group (p : Option Pattern)
  deriving DecidableEq, Repr

/-! ### Meaning -/

/-- All bytes. -/
def allBytes : CharSet := CharSet.range 0 0xFF

/-- The pattern of one byte. -/
def ofByte (b : UInt8) : Pattern := .set (.singleton (Char.ofNat b.toNat))

/-- The pattern of the bytes of a character. -/
def ofChar (c : Char) : Pattern := Pattern.inOrder ((Utf8.encodeChar c).map ofByte)

/-- Any number of any bytes. -/
def anyBytes : Pattern := .loop true (.set allBytes)

/-- The ranges of bytes for a range of characters. Only its two inner bytes make a range, and the
other bytes stand alone. -/
def byteRanges (lo hi : Char) : List (Nat × Nat) :=
  let before := (Utf8.encodeChar lo).map UInt8.toNat
  let after := (Utf8.encodeChar hi).map UInt8.toNat
  if lo = hi then before.map fun b => (b, b)
  else before.dropLast.map (fun b => (b, b)) ++
    [(before.getLastD 0, after.headD 0)] ++ after.tail.map fun b => (b, b)

/-- The pattern of a piece. -/
def Piece.toPattern : Piece → Pattern
  | literal c => ofChar c
  | any => .set allBytes
  | many => anyBytes
  | deepStart => .alt (.opt true (ofChar '/')) (.andThen anyBytes (ofChar '/'))
  | deepMiddle => .alt (ofChar '/') (Pattern.inOrder [ofChar '/', anyBytes, ofChar '/'])
  | deepEnd => .andThen (ofChar '/') anyBytes
  | oneOf negated ranges =>
    let s := CharSet.ofRanges (ranges.flatMap fun r => byteRanges r.1 r.2)
    .set (if negated then allBytes.diff s else s)
  | group p => p.getD .empty

/-- The pattern of pieces in a row. -/
def rowPattern (pieces : List Piece) : Pattern := Pattern.inOrder (pieces.map Piece.toPattern)

/-- The pattern of a whole glob. -/
def toPattern (pieces : List Piece) : Pattern :=
  if pieces = [.deepStart] then anyBytes else rowPattern pieces

/-- Whether a row of pieces stands for nothing. -/
def isVoid (pieces : List Piece) : Bool := pieces.all (· == .group none)

/-- The group of some alternatives; empty ones do not count. -/
def groupOf (alternatives : List (List Piece)) : Piece :=
  match (alternatives.filter (!isVoid ·)).reverse with
  | [] => .group none
  | last :: before =>
    .group (some (before.foldl (fun rest row => .alt (rowPattern row) rest) (rowPattern last)))

/-! ### File names -/

/-- The characters of pieces that are all literal. -/
def literals? (pieces : List Piece) : Option Text :=
  pieces.mapM fun
    | .literal c => some c
    | _ => none

/-- Whether the glob is `**/` and a plain name. -/
def isPlainName : List Piece → Bool
  | .deepStart :: rest => !rest.isEmpty && (literals? rest).any (!·.contains '/')
  | _ => false

/-- The glob without `**/` at its start. -/
def withoutDeepStart : List Piece → List Piece
  | .deepStart :: rest => rest
  | pieces => pieces

/-- Whether the glob is `*` and an extension, after `**/` or not. -/
def isPlainExtension (pieces : List Piece) : Bool :=
  match withoutDeepStart pieces with
  | .many :: .literal '.' :: rest =>
    (literals? rest).any fun name => !name.contains '.' && !name.contains '/'
  | _ => false

/-- Whether the glob only asks how the path ends: literals after `*`, `**/` or both. -/
def isPlainEnd (pieces : List Piece) : Bool :=
  let rest := match withoutDeepStart pieces with
    | .many :: rest => rest
    | rest => rest
  !rest.isEmpty && (literals? rest).isSome

/-- Whether the glob ends in an extension: literals from a dot on, without a slash. -/
def endsInExtension (pieces : List Piece) : Bool :=
  let tail := pieces.reverse.takeWhile fun
    | .literal c => c ≠ '.'
    | _ => false
  !tail.contains (.literal '/') && (pieces.reverse.drop tail.length).head? == some (.literal '.')

/-- Whether the glob looks at the file name of a path, which a path that ends in a dot lacks. -/
def looksAtFileName (pieces : List Piece) : Bool :=
  isPlainName pieces || isPlainExtension pieces ||
    (endsInExtension pieces && !isPlainEnd pieces)

/-! ### Reading -/

/-- Reads a class after its opening bracket. `first` says that nothing was read yet, `inRange` that
a hyphen waits for the end of a range; `ranges` has the last range first. -/
def readClass : (first inRange : Bool) → (ranges : List (Char × Char)) → Text →
    Option (List (Char × Char) × Text)
  | _, _, _, [] => none
  | first, inRange, ranges, c :: rest =>
    if c = ']' ∧ ¬ first then
      some ((if inRange then ('-', '-') :: ranges else ranges).reverse, rest)
    else if c = '-' ∧ ¬ first ∧ ¬ inRange then readClass false true ranges rest
    else if inRange then
      match ranges with
      | (lo, _) :: more =>
        if lo ≤ c then readClass false false ((lo, c) :: more) rest else none
      | [] => none
    else readClass false false ((c, c) :: ranges) rest

/-- How far reading has come: the row of pieces at work, last piece first, and for each open brace
the finished alternatives and the row in front of it. -/
structure Reading where
  row : List Piece
  braces : List (List (List Piece) × List Piece)

/-- Adds a piece. -/
def Reading.push (r : Reading) (p : Piece) : Reading := { r with row := p :: r.row }

/-- Reads `**`; `prev` is the character in front of it and `rest` what follows it. -/
def Reading.deep (r : Reading) (prev : Option Char) (rest : Text) : Reading × Text :=
  let plain := ((r.push .many).push .many, rest)
  match r.row with
  | [] =>
    match rest with
    | [] => (r.push .deepStart, [])
    | '/' :: more => (r.push .deepStart, more)
    | _ => plain
  | top :: row =>
    if prev ≠ some '/' ∧ (r.braces.isEmpty ∨ (prev ≠ some ',' ∧ prev ≠ some '\x7b')) then plain
    else
      let put (p : Piece) : Reading :=
        { r with row := (if top = .deepStart ∨ top = .deepEnd then top else p) :: row }
      match rest with
      | [] => (put .deepEnd, [])
      | '/' :: more => (put .deepMiddle, more)
      | c :: more =>
        if !r.braces.isEmpty && (c == ',' || c == '\x7d') then (put .deepEnd, c :: more)
        else plain

/-- Reads pieces to the end; `fuel` bounds their number. -/
def readAll : (fuel : Nat) → Reading → (prev : Option Char) → Text → Option (List Piece)
  | 0, _, _, _ => none
  | fuel + 1, r, prev, t =>
    match t with
    | [] => if r.braces.isEmpty then some r.row.reverse else none
    | '?' :: rest => readAll fuel (r.push .any) (some '?') rest
    | '*' :: '*' :: rest =>
      let (r', rest') := r.deep prev rest
      readAll fuel r' (some (if rest'.length < rest.length then '/' else '*')) rest'
    | '*' :: rest => readAll fuel (r.push .many) (some '*') rest
    | '[' :: rest =>
      let (negated, rest) := match rest with
        | '!' :: more => (true, more)
        | '^' :: more => (true, more)
        | rest => (false, rest)
      match readClass true false [] rest with
      | none => none
      | some (ranges, rest) => readAll fuel (r.push (.oneOf negated ranges)) (some ']') rest
    | '\x7b' :: rest =>
      readAll fuel { row := [], braces := ([], r.row) :: r.braces } (some '\x7b') rest
    | '\x7d' :: rest =>
      match r.braces with
      | [] => none
      | (done, before) :: braces =>
        let p := groupOf (done ++ [r.row.reverse])
        readAll fuel { row := p :: before, braces := braces } (some '\x7d') rest
    | ',' :: rest =>
      match r.braces with
      | [] => readAll fuel (r.push (.literal ',')) (some ',') rest
      | (done, before) :: braces =>
        readAll fuel { row := [], braces := (done ++ [r.row.reverse], before) :: braces }
          (some ',') rest
    | '\\' :: rest =>
      match rest with
      | [] => none
      | c :: more => readAll fuel (r.push (.literal c)) (some c) more
    | c :: rest => readAll fuel (r.push (.literal c)) (some c) rest

end Glob

/-- A glob, ready for matching. -/
structure Glob where
  pattern : Pattern
  byName : Bool
  deriving DecidableEq, Repr

namespace Glob

/-- The glob that a text spells. -/
def ofText? (t : Text) : Option Glob :=
  (readAll (t.length + 1) ⟨[], []⟩ none t).map fun pieces =>
    ⟨Pattern.inOrder [.look .textStart, toPattern pieces, .look .textEnd], looksAtFileName pieces⟩

/-- Whether a relative path matches. -/
def matchesPath (g : Glob) (p : Path) : Bool :=
  if g.byName && p.bytes.getLast? == some Path.dot then false
  else g.pattern.occursIn none none (p.bytes.map fun b => .char (Char.ofNat b.toNat))

end Glob

end Excerpt
