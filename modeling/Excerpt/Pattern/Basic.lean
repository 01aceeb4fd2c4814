import Excerpt.Pattern.Category

/-!
# Patterns

A pattern is a regular expression with marks, which record where groups begin and end, and with
conditions on the neighbours of a position. Of the ways in which a pattern can match, the first
one in order of preference counts: alternatives from left to right, and for a repetition once
more before stopping, or the other way around when it is lazy.

`front` lists what a pattern can do first at a position, in that order: either it is done there
without consuming anything, or it consumes one character of a set and goes on with a remaining
pattern. Only the first way of being done matters, so there is at most one.
-/

namespace Excerpt

namespace Pattern

/-! ### Conditions on a position -/

/-- A condition on word characters at the two sides of a position. -/
inductive WordEdge where
  | boundary
  | inside
  | start
  | stop
  | startHalf
  | stopHalf
  deriving DecidableEq, Repr

/-- A condition on a position. -/
inductive Look where
  | textStart
  | textEnd
  | lineStart
  | lineEnd
  | crlfLineStart
  | crlfLineEnd
  | word (edge : WordEdge) (ascii : Bool)
  deriving DecidableEq, Repr

/-- A position, by the symbols before and after it. -/
structure Spot where
  before : Option Symbol
  after : Option Symbol
  deriving DecidableEq, Repr

/-- The ASCII characters of words. -/
def asciiWordChars : CharSet := ⟨[(0x30, 0x39), (0x41, 0x5A), (0x5F, 0x5F), (0x61, 0x7A)]⟩

/-- Whether a neighbour is a character of words. -/
def isWord (ascii : Bool) : Option Symbol → Bool
  | some (.char c) => if ascii then asciiWordChars.contains c else CharSet.wordChars.contains c
  | _ => false

/-- Whether a neighbour is an ill-formed byte. -/
def isBad : Option Symbol → Bool
  | some .bad => true
  | _ => false

/-- Whether a condition on words holds. Next to ill-formed bytes a condition that a word character
is absent does not hold, unless only ASCII counts. -/
def WordEdge.holds (edge : WordEdge) (ascii : Bool) (spot : Spot) : Bool :=
  let left := isWord ascii spot.before
  let right := isWord ascii spot.after
  let knownLeft := ascii || !isBad spot.before
  let knownRight := ascii || !isBad spot.after
  match edge with
  | .boundary => left != right
  | .inside => knownLeft && knownRight && left == right
  | .start => !left && right
  | .stop => left && !right
  | .startHalf => knownLeft && !left
  | .stopHalf => knownRight && !right

/-- Whether a condition holds at a position. -/
def Look.holds (look : Look) (spot : Spot) : Bool :=
  let newline := some (Symbol.char '\n')
  let carriageReturn := some (Symbol.char '\r')
  match look with
  | .textStart => spot.before.isNone
  | .textEnd => spot.after.isNone
  | .lineStart => spot.before.isNone || spot.before == newline
  | .lineEnd => spot.after.isNone || spot.after == newline
  | .crlfLineStart =>
    spot.before.isNone || spot.before == newline ||
      (spot.before == carriageReturn && spot.after != newline)
  | .crlfLineEnd =>
    spot.after.isNone || spot.after == carriageReturn ||
      (spot.after == newline && spot.before != carriageReturn)
  | .word edge ascii => edge.holds ascii spot

/-- Whether a condition asks for an end of the whole text. -/
def Look.isTextEdge : Look → Bool
  | .textStart | .textEnd => true
  | _ => false

end Pattern

/-! ### Expressions -/

/-- A pattern. `plus` matches its body once or more, `loop` any number of times with no empty
turn; `mark` records a position. -/
inductive Pattern where
  | empty
  | set (s : CharSet)
  | look (l : Pattern.Look)
  | mark (slot : Nat)
  | seq (a b : Pattern)
  | alt (a b : Pattern)
  | opt (greedy : Bool) (r : Pattern)
  | plus (greedy : Bool) (r : Pattern)
  | loop (greedy : Bool) (r : Pattern)
  deriving DecidableEq, Repr, Inhabited

namespace Pattern

/-- One pattern after another; the empty pattern leaves no trace. -/
def andThen : Pattern → Pattern → Pattern
  | empty, b => b
  | a, empty => a
  | a, b => seq a b

/-- Patterns one after another. -/
def inOrder (ps : List Pattern) : Pattern := ps.foldr andThen empty

/-- Whether the pattern can match the empty text somewhere. -/
def nullable : Pattern → Bool
  | empty | look _ | mark _ | opt .. | loop .. => true
  | set _ => false
  | seq a b => a.nullable && b.nullable
  | alt a b => a.nullable || b.nullable
  | plus _ r => r.nullable

/-- Whether the pattern never consumes anything. -/
def zeroWidth : Pattern → Bool
  | empty | look _ | mark _ => true
  | set _ => false
  | seq a b | alt a b => a.zeroWidth && b.zeroWidth
  | opt _ r | plus _ r | loop _ r => r.zeroWidth

/-- The largest mark. -/
def maxMark : Pattern → Nat
  | empty | set _ | look _ => 0
  | mark slot => slot
  | seq a b | alt a b => max a.maxMark b.maxMark
  | opt _ r | plus _ r | loop _ r => r.maxMark

/-- Whether some condition asks for an end of the whole text. -/
def hasTextEdge : Pattern → Bool
  | empty | set _ | mark _ => false
  | look l => l.isTextEdge
  | seq a b | alt a b => a.hasTextEdge || b.hasTextEdge
  | opt _ r | plus _ r | loop _ r => r.hasTextEdge

/-- Any number of turns. -/
def star (greedy : Bool) (r : Pattern) : Pattern :=
  if r.nullable then opt greedy (plus greedy r) else loop greedy r

/-- The pattern of a group: its body between the two marks of its number. -/
def group (index : Nat) (r : Pattern) : Pattern :=
  seq (mark (2 * index)) (seq r (mark (2 * index + 1)))

/-! ### First moves -/

/-- What a pattern can do first: be done, or consume a character of `s` and go on with `rest`.
Before that it records the marks `marks` at the present position. -/
inductive Move where
  | done (marks : List Nat)
  | step (marks : List Nat) (s : CharSet) (rest : Pattern)
  deriving DecidableEq, Repr

namespace Move

/-- Whether the move consumes a character. -/
def isStep : Move → Bool
  | done _ => false
  | step .. => true

/-- The move with marks recorded before its own. -/
def after (marks : List Nat) : Move → Move
  | done more => done (marks ++ more)
  | step more s rest => step (marks ++ more) s rest

/-- The move with its remaining pattern changed. -/
def mapRest (f : Pattern → Pattern) : Move → Move
  | done marks => done marks
  | step marks s rest => step marks s (f rest)

end Move

/-- Moves in order of preference, with the second list's way of being done left out when the first
list has one. -/
def orElse (first second : List Move) : List Move :=
  if first.all Move.isStep then first ++ second else first ++ second.filter Move.isStep

/-- What the pattern can do first at a position, in order of preference. -/
def front (spot : Spot) : Pattern → List Move
  | empty => [.done []]
  | set s => [.step [] s empty]
  | look l => if l.holds spot then [.done []] else []
  | mark slot => [.done [slot]]
  | seq a b =>
    (a.front spot).flatMap fun
      | .done marks => (b.front spot).map (Move.after marks)
      | .step marks s rest => [.step marks s (andThen rest b)]
  | alt a b => orElse (a.front spot) (b.front spot)
  | opt greedy r =>
    if greedy then orElse (r.front spot) [.done []] else orElse [.done []] (r.front spot)
  | plus greedy r => (r.front spot).map (Move.mapRest (andThen · (loop greedy r)))
  | loop greedy r =>
    let turns := ((r.front spot).filter Move.isStep).map (Move.mapRest (andThen · (loop greedy r)))
    if greedy then turns ++ [.done []] else .done [] :: turns

end Pattern

end Excerpt
