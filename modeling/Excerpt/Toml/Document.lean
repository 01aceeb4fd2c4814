import Excerpt.Toml.Word

/-!
# TOML documents

A document is read line by line: a header opens a table, and a pair enters a value into the table
that was opened last. A name is given only once. Lists and inline tables may stand inside one
another up to a fixed depth.
-/

namespace Excerpt

namespace Toml

/-! ### Blanks, comments and line ends -/

/-- Drops the blank space within a line. -/
def skipSpace (t : Text) : Text := t.dropWhile isSpace

/-- Drops blanks, newlines and comments; `comment` says that the text starts inside a comment. -/
def skipGap : (comment : Bool) → Text → Option Text
  | _, [] => some []
  | comment, c :: rest =>
    if c = '\n' then skipGap false rest
    else if c = '\r' ∧ rest.head? = some '\n' then skipGap comment rest
    else if comment then (if isPlain c then skipGap true rest else none)
    else if isSpace c then skipGap false rest
    else if c = '#' then skipGap true rest
    else some (c :: rest)

/-- Reads the rest of a line on which only a comment may follow. -/
def endLine? : (comment : Bool) → Text → Option Text
  | _, [] => some []
  | comment, c :: rest =>
    if c = '\n' then some rest
    else if c = '\r' ∧ rest.head? = some '\n' then endLine? comment rest
    else if comment then (if isPlain c then endLine? true rest else none)
    else if isSpace c then endLine? false rest
    else if c = '#' then endLine? true rest
    else none

/-! ### Keys -/

/-- Whether a character can be part of a key without quotes. -/
def isKeyPart (c : Char) : Bool := c.isAlphanum || c == '_' || c == '-'

/-- Reads one part of a key. -/
def keyPart? (t : Text) : Option (Text × Text) :=
  match shortQuoted? t with
  | some found => some found
  | none =>
    let word := t.takeWhile isKeyPart
    if word.isEmpty then none else some (word, t.dropWhile isKeyPart)

/-- Reads the parts of a key with dots between them; `fuel` bounds their number. -/
def keyParts? : (fuel : Nat) → Text → Option (List Text × Text)
  | 0, _ => none
  | fuel + 1, t =>
    (keyPart? t).bind fun (part, t) =>
      match skipSpace t with
      | '.' :: rest => (keyParts? fuel (skipSpace rest)).map fun (parts, t) => (part :: parts, t)
      | t => some ([part], t)

/-- Reads a key, and the blank space behind it. -/
def key? (t : Text) : Option (List Text × Text) := keyParts? (t.length + 1) t

/-! ### Values -/

/-- Something that reads a value at the start of a text. -/
abbrev Reader := Text → Option (Value × Text)

/-- Reads a key, an equals sign and a value. -/
def pair? (value : Reader) (t : Text) : Option ((List Text × Value) × Text) :=
  (key? t).bind fun (key, t) =>
    match t with
    | '=' :: rest => (value (skipSpace rest)).map fun (v, t) => ((key, v), t)
    | _ => none

/-- Reads the values of a list up to its closing bracket; `fuel` bounds their number. A comma may
follow the last of them. -/
def items? (value : Reader) : (fuel : Nat) → Text → Option (List Value × Text)
  | 0, _ => none
  | fuel + 1, t =>
    match skipGap false t with
    | none => none
    | some (']' :: rest) => some ([], rest)
    | some t => (value t).bind fun (v, t) =>
      match skipGap false t with
      | some (',' :: rest) => (items? value fuel rest).map fun (vs, t) => (v :: vs, t)
      | some (']' :: rest) => some ([v], rest)
      | _ => none

/-- Reads the pairs of an inline table up to its closing brace, at least one; `fuel` bounds their
number. -/
def pairs? (value : Reader) : (fuel : Nat) → Entries → Text → Option (Entries × Text)
  | 0, _, _ => none
  | fuel + 1, es, t =>
    (pair? value (skipSpace t)).bind fun ((key, v), t) =>
      (es.insert v key).bind fun es =>
        match skipSpace t with
        | ',' :: rest => pairs? value fuel es rest
        | '\x7d' :: rest => some (es, rest)
        | _ => none

/-- Reads an inline table behind its opening brace. -/
def inlineTable? (value : Reader) (t : Text) : Option (Value × Text) :=
  match skipSpace t with
  | '\x7d' :: rest => some (.table [], rest)
  | t => (pairs? value (t.length + 1) [] t).map fun (es, t) => (.table (entryValues es), t)

/-- Reads a value in which lists and inline tables are at most `depth` deep. -/
def value? : (depth : Nat) → Reader
  | 0, t => scalar? t
  | depth + 1, t =>
    match t with
    | '[' :: rest =>
      (items? (value? depth) (rest.length + 1) rest).map fun (vs, t) => (.array vs, t)
    | '\x7b' :: rest => inlineTable? (value? depth) rest
    | t => scalar? t

/-- How deep lists and inline tables may be. -/
def maxDepth : Nat := 80

/-! ### Lines -/

/-- Reads a header behind its opening bracket and the rest of its line. -/
def header? (t : Text) : Option (List Text × Text) :=
  (key? (skipSpace t)).bind fun (key, t) =>
    match t with
    | ']' :: rest => (endLine? false rest).map (key, ·)
    | _ => none

/-- Reads a double header behind its two opening brackets and the rest of its line. -/
def doubleHeader? (t : Text) : Option (List Text × Text) :=
  (key? (skipSpace t)).bind fun (key, t) =>
    match t with
    | ']' :: ']' :: rest => (endLine? false rest).map (key, ·)
    | _ => none

/-- Reads lines into the entries of a document; `opened` is the table that was opened last, and
`fuel` bounds the number of lines. -/
def lines? : (fuel : Nat) → (opened : List Text) → Entries → Text → Option Entries
  | 0, _, _, _ => none
  | fuel + 1, opened, es, t =>
    match skipGap false t with
    | none => none
    | some [] => some es
    | some ('[' :: '[' :: rest) =>
      (doubleHeader? rest).bind fun (key, t) =>
        (es.openElement key).bind fun es => lines? fuel key es t
    | some ('[' :: rest) =>
      (header? rest).bind fun (key, t) =>
        (es.openTable key).bind fun es => lines? fuel key es t
    | some t =>
      (pair? (value? maxDepth) t).bind fun ((key, v), t) =>
        (es.insertUnder key v opened).bind fun es =>
          (endLine? false t).bind fun t => lines? fuel opened es t

/-- Drops a byte order mark. -/
def dropMark : Text → Text
  | [] => []
  | c :: rest => if c = '\uFEFF' then rest else c :: rest

/-- Reads a document. -/
def parse? (t : Text) : Option (List (Text × Value)) :=
  (lines? (t.length + 1) [] [] (dropMark t)).map entryValues

end Toml

end Excerpt
