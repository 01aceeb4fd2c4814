import Excerpt.Pattern.Class

/-!
# Reading patterns

The pattern language: literal characters, classes, alternatives, repetitions with their lazy
forms, groups that capture with or without a name, groups that only set switches, conditions on
positions. Back references and general look-around are not part of it.

Reading goes from left to right with the enclosing groups on a stack. A switch that is set inside a
group holds to the end of that group, through alternatives as well.

`withoutNewline` is the form of a pattern that never consumes a newline: classes lose it, and a
pattern that asks for it literally has no such form.
-/

namespace Excerpt

namespace Pattern

/-! ### Building blocks -/

/-- The pattern of one character. -/
def ofChar? (flags : Flags) (c : Char) : Option Pattern :=
  if !flags.ignoreCase then some (set (.singleton c))
  else if flags.unicode then some (set (CharSet.singleton c).closeUnderCase)
  else if c.toNat < 0x80 then some (set (CharSet.singleton c).closeUnderAsciiCase)
  else none

/-- The pattern of an atom outside brackets. -/
def ofAtom? (flags : Flags) : Atom → Option Pattern
  | .char c => ofChar? flags c
  | .byte n => if flags.unicode || n < 0x80 then ofChar? flags (Char.ofNat n) else none
  | .set s negated => (finishSet? flags negated s).map set
  | .look l => some (look l)

/-- The pattern of a dot. -/
def anyChar? (flags : Flags) : Option Pattern :=
  if !flags.unicode then none
  else if flags.dotAll then some (set CharSet.full)
  else if flags.crlf then some (set ((CharSet.full.without '\n').without '\r'))
  else some (set (CharSet.full.without '\n'))

/-- The condition of `^`. -/
def caret (flags : Flags) : Look :=
  if !flags.multiLine then .textStart else if flags.crlf then .crlfLineStart else .lineStart

/-- The condition of `$`. -/
def dollar (flags : Flags) : Look :=
  if !flags.multiLine then .textEnd else if flags.crlf then .crlfLineEnd else .lineEnd

/-- `n` copies of a pattern in a row. -/
def copies (n : Nat) (r : Pattern) : List Pattern := List.replicate n r

/-- Up to `n` copies, each inside the one before it. -/
def upTo (greedy : Bool) (r : Pattern) : Nat → Pattern
  | 0 => empty
  | n + 1 => opt greedy (andThen r (upTo greedy r n))

/-- The repetition of a pattern between `lo` and `hi` times. What consumes nothing is repeated at
most once. -/
def «repeat» (greedy : Bool) (lo : Nat) (hi : Option Nat) (r : Pattern) : Pattern :=
  let (lo, hi) := if r.zeroWidth then (min lo 1, some ((hi.map (min · 1)).getD 1)) else (lo, hi)
  match hi with
  | some n =>
    if lo = 1 ∧ n = 1 then r else inOrder (copies lo r ++ [upTo greedy r (n - lo)])
  | none =>
    match lo with
    | 0 => star greedy r
    | k + 1 => inOrder (copies k r ++ [plus greedy r])

/-- The branches of nested alternatives, from left to right. -/
def branches : Pattern → List Pattern
  | alt a b => branches a ++ branches b
  | p => [p]

/-- The set of a pattern that is one. -/
def set? : Pattern → Option CharSet
  | set s => some s
  | _ => none

/-- The pattern of some alternatives; alternatives of single characters are one set. -/
def oneOf (ps : List Pattern) : Pattern :=
  let all := ps.flatMap branches
  match all.mapM set? with
  | some (s :: more) => set (more.foldl CharSet.union s)
  | _ =>
    match all.reverse with
    | [] => empty
    | p :: before => before.foldl (fun rest q => alt q rest) p

/-! ### Reading -/

/-- A group that is still open: the pieces and branches before it, the switches to return to, and
its number if it captures. -/
structure OpenGroup where
  pieces : List (Option Pattern)
  done : List Pattern
  flags : Flags
  index : Option Nat

/-- How far reading has come. `pieces` are those of the present branch, the last one first; a piece
that only sets switches is `none`, and cannot be repeated. -/
structure Reading where
  pieces : List (Option Pattern)
  done : List Pattern
  flags : Flags
  groups : List OpenGroup
  nextGroup : Nat
  names : List Text

/-- The present branch. -/
def Reading.branch (r : Reading) : Pattern := inOrder (r.pieces.reverse.filterMap id)

/-- All branches of the present group together. -/
def Reading.body (r : Reading) : Pattern := oneOf (r.done ++ [r.branch])

/-- Adds a piece to the present branch. -/
def Reading.push (r : Reading) (p : Pattern) : Reading := { r with pieces := some p :: r.pieces }

/-- Repeats the last piece. -/
def Reading.repeatLast? (r : Reading) (lazy : Bool) (lo : Nat) (hi : Option Nat) :
    Option Reading :=
  match r.pieces with
  | some p :: rest =>
    some { r with pieces := some («repeat» (lazy == r.flags.swapGreed) lo hi p) :: rest }
  | _ => none

/-- A repetition that is followed by a question mark prefers fewer turns. -/
def lazyMark : Text → Bool × Text
  | '?' :: rest => (true, rest)
  | t => (false, t)

/-- The largest count in a repetition. -/
def maxCount : Nat := 4294967295

/-- Reads a count with blanks around it. -/
def count? (flags : Flags) (t : Text) : Option (Option Nat × Text) :=
  let t := skip flags (Text.trimStart t)
  let isCountChar (c : Char) := c.isDigit || (flags.spaced && Text.isBlank c)
  let digits := (t.takeWhile isCountChar).filter Char.isDigit
  let rest := skip flags (Text.trimStart (t.dropWhile isCountChar))
  if digits.isEmpty then some (none, rest)
  else
    let n := digits.foldl (fun n c => n * 10 + (c.toNat - 48)) 0
    if n ≤ maxCount then some (some n, rest) else none

/-- Reads the inside of counted braces: the bounds, and what follows the closing brace. -/
def counts? (flags : Flags) (t : Text) : Option (Nat × Option Nat × Text) := do
  let (lo, t) ← count? flags (skip flags t)
  match t with
  | '\x7d' :: rest => return (← lo, lo, rest)
  | ',' :: rest =>
    match skip flags rest with
    | '\x7d' :: rest => return (← lo, none, rest)
    | t =>
      let (hi, t) ← count? flags t
      let lo ← lo
      let hi ← hi
      match t with
      | '\x7d' :: rest => if lo ≤ hi then return (lo, some hi, rest) else none
      | _ => none
  | _ => none

/-- The switches with one of them set or unset. -/
def Flags.assign? (flags : Flags) (on : Bool) : Char → Option Flags
  | 'i' => some { flags with ignoreCase := on }
  | 'm' => some { flags with multiLine := on }
  | 's' => some { flags with dotAll := on }
  | 'U' => some { flags with swapGreed := on }
  | 'u' => some { flags with unicode := on }
  | 'R' => some { flags with crlf := on }
  | 'x' => some { flags with spaced := on }
  | _ => none

/-- Reads switches up to `:` or `)`; no letter and no hyphen comes twice, and a hyphen is followed
by a letter. `seen` are the characters so far, the last one first. -/
def readFlags : (flags : Flags) → (seen : Text) → Text → Option (Flags × Text × Text)
  | _, _, [] => none
  | flags, seen, c :: rest =>
    if c = ':' ∨ c = ')' then
      if seen.head? = some '-' then none else some (flags, seen, c :: rest)
    else if seen.contains c then none
    else if c = '-' then readFlags flags (c :: seen) rest
    else match flags.assign? (!seen.contains '-') c with
      | none => none
      | some flags => readFlags flags (c :: seen) rest

/-- Whether a character may stand in the name of a group. -/
def isNameChar (first : Bool) (c : Char) : Bool :=
  c == '_' || CharSet.alphanumeric.contains c && !(first && c.isDigit) ||
    (!first && (c == '.' || c == '[' || c == ']'))

/-- Reads the name of a group up to `>`. -/
def groupName? (t : Text) : Option (Text × Text) :=
  let name := t.takeWhile (· ≠ '>')
  match name, t.dropWhile (· ≠ '>') with
  | c :: more, _ :: rest =>
    if isNameChar true c && more.all (isNameChar false) then some (name, rest) else none
  | _, _ => none

/-- Opens a group. -/
def Reading.open (r : Reading) (index : Option Nat) (inner : Flags) : Reading :=
  { r with
    pieces := []
    done := []
    flags := inner
    groups := ⟨r.pieces, r.done, r.flags, index⟩ :: r.groups
    nextGroup := if index.isSome then r.nextGroup + 1 else r.nextGroup }

/-- Reads what follows an opening parenthesis. -/
def Reading.enter? (r : Reading) (t : Text) : Option (Reading × Text) :=
  match skip r.flags t with
  | '?' :: '=' :: _ | '?' :: '!' :: _ | '?' :: '<' :: '=' :: _ | '?' :: '<' :: '!' :: _ => none
  | '?' :: 'P' :: '<' :: rest | '?' :: '<' :: rest =>
    match groupName? rest with
    | none => none
    | some (name, rest) =>
      if r.names.contains name then none
      else some ({ r.open (some r.nextGroup) r.flags with names := name :: r.names }, rest)
  | '?' :: rest =>
    match readFlags r.flags [] rest with
    | some (flags, _, ':' :: rest) => some (r.open none flags, rest)
    | some (flags, seen, ')' :: rest) =>
      if seen.isEmpty then none
      else some ({ r with flags := flags, pieces := none :: r.pieces }, rest)
    | _ => none
  | t => some (r.open (some r.nextGroup) r.flags, t)

/-- Closes the innermost group. -/
def Reading.leave? (r : Reading) : Option Reading :=
  match r.groups with
  | [] => none
  | g :: groups =>
    let p := match g.index with
      | some index => group index r.body
      | none => r.body
    some { r with pieces := some p :: g.pieces, done := g.done, flags := g.flags, groups := groups }

/-- Reads one token. -/
def Reading.token? (r : Reading) (c : Char) (rest : Text) : Option (Reading × Text) :=
  if c = '(' then r.enter? rest
  else if c = ')' then r.leave?.map (·, rest)
  else if c = '|' then some ({ r with pieces := [], done := r.done ++ [r.branch] }, rest)
  else if c = '[' then (bracketClass r.flags rest).map fun (s, rest) => (r.push (set s), rest)
  else if c = '?' then
    let (lazy, rest) := lazyMark rest
    (r.repeatLast? lazy 0 (some 1)).map (·, rest)
  else if c = '*' then
    let (lazy, rest) := lazyMark rest
    (r.repeatLast? lazy 0 none).map (·, rest)
  else if c = '+' then
    let (lazy, rest) := lazyMark rest
    (r.repeatLast? lazy 1 none).map (·, rest)
  else if c = '\x7b' then
    match counts? r.flags rest with
    | none => none
    | some (lo, hi, rest) =>
      let (lazy, rest) := lazyMark (skip r.flags rest)
      (r.repeatLast? lazy lo hi).map (·, rest)
  else if c = '\\' then
    match escape r.flags rest with
    | none => none
    | some (a, rest) => (ofAtom? r.flags a).map fun p => (r.push p, rest)
  else if c = '.' then (anyChar? r.flags).map fun p => (r.push p, rest)
  else if c = '^' then some (r.push (look (caret r.flags)), rest)
  else if c = '$' then some (r.push (look (dollar r.flags)), rest)
  else (ofChar? r.flags c).map fun p => (r.push p, rest)

/-- Reads tokens to the end; `fuel` bounds their number. -/
def readAll : (fuel : Nat) → Reading → Text → Option Pattern
  | 0, _, _ => none
  | fuel + 1, r, t =>
    match skip r.flags t with
    | [] => if r.groups.isEmpty then some r.body else none
    | c :: rest =>
      match r.token? c rest with
      | none => none
      | some (r, rest) => readAll fuel r rest

/-- The pattern that a text spells; `multiLine` says whether `^` and `$` are about lines. -/
def parse? (multiLine : Bool) (t : Text) : Option Pattern :=
  readAll (t.length + 1) ⟨[], [], Flags.initial multiLine, [], 1, []⟩ t

/-! ### Patterns for single lines -/

/-- The form of a pattern that never consumes a newline. -/
def withoutNewline? : Pattern → Option Pattern
  | set s =>
    if s.isEmpty then some (set s)
    else if (s.without '\n').isEmpty then none
    else some (set (s.without '\n'))
  | seq a b => do return seq (← a.withoutNewline?) (← b.withoutNewline?)
  | alt a b => do return alt (← a.withoutNewline?) (← b.withoutNewline?)
  | opt greedy r => do return opt greedy (← r.withoutNewline?)
  | plus greedy r => do return plus greedy (← r.withoutNewline?)
  | loop greedy r => do return loop greedy (← r.withoutNewline?)
  | p => some p

/-- The pattern that selects lines: read as one group with `^` and `$` about lines, in the form
that never consumes a newline. Plain words are not put into a group. -/
def parseForLines? (t : Text) : Option Pattern := do
  let isWord := t.all fun c => !metaChars.contains c && c ≠ '\n'
  let p ← parse? true (if isWord then t else "(?:".toList ++ t ++ ")".toList)
  p.withoutNewline?

end Pattern

end Excerpt
