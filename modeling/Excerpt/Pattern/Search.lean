import Excerpt.Pattern.Basic

/-!
# Searching

A search walks once over its subject and keeps a list of threads in order of preference; each is a
remaining pattern together with the marks recorded on the way to it. As long as no match has been
found, a new thread starts at every position, behind all others. A thread that is done is the best
match so far and ends all threads behind it. Two threads with one remaining pattern have the same
future, so only the first is kept, and the walk is linear in the length of the subject.
-/

namespace Excerpt

namespace Pattern

/-- A position in the subject: its index, and what follows it. -/
structure Cursor where
  index : Nat
  rest : List Symbol
  deriving DecidableEq, Repr

/-- The recorded marks with their positions. -/
abbrev Marks := List (Nat × Cursor)

/-- A way on which a match may still be found. -/
structure Thread where
  todo : Pattern
  marks : Marks
  deriving Repr

/-- Records marks at a position, each in place of its older record. -/
def record (here : Cursor) (slots : List Nat) (marks : Marks) : Marks :=
  slots.foldl (fun done slot => (slot, here) :: done.filter (·.1 ≠ slot)) marks

/-- The moves of threads up to the first that is done: the steps before it, and its marks. -/
def firstMoves (here : Cursor) (marks : Marks) :
    List Move → List (CharSet × Thread) × Option Marks
  | [] => ([], none)
  | .done slots :: _ => ([], some (record here slots marks))
  | .step slots s rest :: moves =>
    let (steps, done) := firstMoves here marks moves
    ((s, ⟨rest, record here slots marks⟩) :: steps, done)

/-- The steps of all threads up to the first that is done, and the marks of that one. -/
def advance (spot : Spot) (here : Cursor) : List Thread → List (CharSet × Thread) × Option Marks
  | [] => ([], none)
  | t :: threads =>
    match firstMoves here t.marks (t.todo.front spot) with
    | (steps, some done) => (steps, some done)
    | (steps, none) =>
      let (more, done) := advance spot here threads
      (steps ++ more, done)

/-- Adds a thread at the end unless an earlier one has the same remaining pattern. -/
def addThread (threads : List Thread) (t : Thread) : List Thread :=
  if threads.any (·.todo == t.todo) then threads else threads ++ [t]

/-- The threads after a symbol: those whose step accepts it. -/
def accept (symbol : Symbol) (steps : List (CharSet × Thread)) : List Thread :=
  steps.foldl (fun threads step =>
    match symbol with
    | .char c => if step.1.contains c then addThread threads step.2 else threads
    | .bad => threads) []

/-- The best match: where it ends, and the marks on the way. -/
structure Match where
  start : Cursor
  stop : Cursor
  marks : Marks
  deriving Repr

/-- The slot that records where a match starts. -/
def startSlot : Nat := 0

/-- A match that ends at a position. -/
def finish (stop : Cursor) (marks : Marks) : Match :=
  ⟨(marks.lookup startSlot).getD stop, stop, marks⟩

/-- Walks over the rest of the subject with the given threads and the best match so far. `fresh` is
the pattern that starts anew, `behind` the symbol before the position, `next` the one that follows
the subject. -/
def searchFrom (fresh : Pattern) (next : Option Symbol) :
    (behind : Option Symbol) → (index : Nat) → List Thread → Option Match → List Symbol →
    Option Match
  | behind, index, threads, best, [] =>
    let here : Cursor := ⟨index, []⟩
    let threads := if best.isNone then threads ++ [⟨fresh, []⟩] else threads
    match advance ⟨behind, next⟩ here threads with
    | (_, some marks) => some (finish here marks)
    | (_, none) => best
  | behind, index, threads, best, symbol :: rest =>
    let here : Cursor := ⟨index, symbol :: rest⟩
    let threads := if best.isNone then threads ++ [⟨fresh, []⟩] else threads
    match advance ⟨behind, some symbol⟩ here threads with
    | (steps, done) =>
      let best := match done with
        | some marks => some (finish here marks)
        | none => best
      let threads := accept symbol steps
      if threads.isEmpty && best.isSome then best
      else searchFrom fresh next (some symbol) (index + 1) threads best rest

/-- The preferred one of the leftmost matches in a subject that stands between `behind` and
`next`. -/
def search (p : Pattern) (behind next : Option Symbol) (index : Nat) (subject : List Symbol) :
    Option Match :=
  searchFrom (andThen (mark startSlot) p) next behind index [] none subject

/-- The text between two positions. -/
def textBetween (start stop : Cursor) : Text :=
  (start.rest.take (stop.index - start.index)).filterMap Symbol.char?

/-- The text of a group of a match; group 0 is the whole match. -/
def Match.group? (m : Match) (index : Nat) : Option Text :=
  if index = 0 then some (textBetween m.start m.stop)
  else do
    let start ← m.marks.lookup (2 * index)
    let stop ← m.marks.lookup (2 * index + 1)
    return textBetween start stop

/-- The successive matches in a subject. A match that is empty and would end where the last one
did is passed over: the search goes on one symbol later. `fuel` bounds their number. -/
def matchesFrom (p : Pattern) : (fuel : Nat) → (last : Option Nat) → (behind : Option Symbol) →
    Cursor → List Match
  | 0, _, _, _ => []
  | fuel + 1, last, behind, here =>
    match p.search behind none here.index here.rest with
    | none => []
    | some m =>
      let behindStop :=
        if m.stop.index = here.index then behind
        else here.rest[m.stop.index - here.index - 1]?
      if m.start.index = m.stop.index ∧ last = some m.stop.index then
        match here.rest with
        | [] => []
        | s :: rest => matchesFrom p fuel none (some s) ⟨here.index + 1, rest⟩
      else m :: matchesFrom p fuel (some m.stop.index) behindStop m.stop

/-- All successive matches in a subject. -/
def matchesIn (p : Pattern) (subject : List Symbol) : List Match :=
  matchesFrom p (2 * subject.length + 2) none none ⟨0, subject⟩

/-- Whether the pattern matches somewhere in a subject that stands between `behind` and `next`. -/
def occursIn (p : Pattern) (behind next : Option Symbol) (subject : List Symbol) : Bool :=
  (p.search behind next 0 subject).isSome

end Pattern

end Excerpt
