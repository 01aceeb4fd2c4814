import Excerpt.Text.Utf8

/-!
# Paths

A path is a byte string as it was written; its meaning is the list of its components. Repeated
and trailing slashes and inner `.` segments are not components, a `.` at the front of a relative
path is one, and `..` is never folded. Two spellings are *the same* path when their components
agree, and paths are ordered by their components.

Operations that take a piece of a path away keep the spelling of what is left, trimmed at the
place of the cut.
-/

namespace Excerpt

/-- A path, in one particular spelling. -/
structure Path where
  bytes : Bytes
  deriving DecidableEq, Repr, Inhabited

/-- One step of a path. -/
inductive Component where
  | root
  | current
  | parent
  | name (bytes : Bytes)
  deriving DecidableEq, Repr

/-! ### Order -/

/-- Order of byte lists by their first difference. -/
def Bytes.before : Bytes → Bytes → Bool
  | [], [] => false
  | [], _ :: _ => true
  | _ :: _, [] => false
  | a :: s, b :: t => a < b || (a == b && Bytes.before s t)

namespace Component

/-- The place of a component's kind in the order. -/
def rank : Component → Nat
  | root => 0
  | current => 1
  | parent => 2
  | name _ => 3

/-- The root comes before `.`, then come `..` and the names, by their bytes. -/
def before : Component → Component → Bool
  | name a, name b => Bytes.before a b
  | a, b => a.rank < b.rank

/-- Order of component lists by their first difference. -/
def listBefore : List Component → List Component → Bool
  | [], [] => false
  | [], _ :: _ => true
  | _ :: _, [] => false
  | a :: s, b :: t => a.before b || (a == b && listBefore s t)

end Component

namespace Path

/-! ### Spelling -/

/-- The byte that separates segments. -/
def slash : UInt8 := 47

/-- The byte `.`. -/
def dot : UInt8 := 46

/-- The path that a text spells. -/
def ofText (t : Text) : Path := ⟨Utf8.encode t⟩

/-- The empty path. -/
def empty : Path := ⟨[]⟩

/-- The path as readable text, with U+FFFD for each ill-formed piece. -/
def display (p : Path) : Text := Utf8.lossy p.bytes

/-- Whether the path starts at the root. -/
def isAbsolute (p : Path) : Bool := p.bytes.head? == some slash

/-- Splits off the part of a spelling that no trimming may touch: the first slash, or a `.` that
is a component of its own. -/
def splitLead : Bytes → Bytes × Bytes
  | [] => ([], [])
  | [b] => if b = slash ∨ b = dot then ([b], []) else ([], [b])
  | b :: c :: rest =>
    if b = slash ∨ (b = dot ∧ c = slash) then ([b], c :: rest) else ([], b :: c :: rest)

/-- Drops slashes and `.` segments at the front. -/
def trimFront : Bytes → Bytes
  | [] => []
  | [b] => if b = slash ∨ b = dot then [] else [b]
  | b :: c :: rest =>
    if b = slash then trimFront (c :: rest)
    else if b = dot ∧ c = slash then trimFront rest
    else b :: c :: rest

/-- Drops slashes and `.` segments at the end. -/
def trimBack (bs : Bytes) : Bytes := (trimFront bs.reverse).reverse

/-! ### Components -/

/-- The component of a segment; an empty segment and `.` have none. -/
def segmentComponent? (segment : Bytes) : Option Component :=
  if segment = [] ∨ segment = [dot] then none
  else if segment = [dot, dot] then some .parent
  else some (.name segment)

/-- The components that a spelling has after its lead. -/
def bodyComponents (body : Bytes) : List Component :=
  (Text.splitOn (· == slash) body).filterMap segmentComponent?

/-- The component of a lead. -/
def leadComponents : Bytes → List Component
  | [] => []
  | b :: _ => if b = slash then [.root] else [.current]

/-- The components of a path. -/
def components (p : Path) : List Component :=
  leadComponents (splitLead p.bytes).1 ++ bodyComponents (splitLead p.bytes).2

/-- Whether two spellings are of one path. -/
def same (p q : Path) : Bool := p.components == q.components

/-- The order of paths. -/
def before (p q : Path) : Bool := Component.listBefore p.components q.components

/-- Whether `p` is `base` or lies beneath it. -/
def startsWith (p base : Path) : Bool := base.components.isPrefixOf p.components

/-! ### Building -/

/-- `q` read relative to `p`: an absolute `q` replaces `p`. -/
def join (p q : Path) : Path :=
  if q.isAbsolute then q
  else match p.bytes.getLast? with
    | none => q
    | some b => if b = slash then ⟨p.bytes ++ q.bytes⟩ else ⟨p.bytes ++ slash :: q.bytes⟩

/-- `p` joined with a name. -/
def child (p : Path) (name : Bytes) : Path := p.join ⟨name⟩

/-- `p` joined with a path given as text. -/
def joinText (p : Path) (t : Text) : Path := p.join (ofText t)

/-! ### Taking apart -/

/-- Drops the last segment of a trimmed body. -/
def dropLastSegment (body : Bytes) : Bytes := (body.reverse.dropWhile (· != slash)).reverse

/-- The path without its last component; the root and the empty path have none. -/
def parent? (p : Path) : Option Path :=
  let lead := (splitLead p.bytes).1
  let body := trimBack (splitLead p.bytes).2
  if body = [] then if lead = [dot] then some empty else none
  else some ⟨lead ++ trimBack (dropLastSegment body)⟩

/-- The last component, if it is a name. -/
def fileName? (p : Path) : Option Bytes :=
  match p.components.getLast? with
  | some (.name n) => some n
  | _ => none

/-- What stands after the last dot of a name that has something before that dot. -/
def nameExtension? (name : Bytes) : Option Bytes :=
  match name.reverse.dropWhile (· != dot) with
  | [] => none
  | [_] => none
  | _ => some (name.reverse.takeWhile (· != dot)).reverse

/-- The extension of the file name. -/
def extension? (p : Path) : Option Bytes := p.fileName?.bind nameExtension?

/-- Whether the file name has exactly this extension. -/
def hasExtension (p : Path) (ext : Text) : Bool := p.extension? == some (Utf8.encode ext)

/-- Drops the first `n` segments that are components. -/
def dropSegments : Nat → Bytes → Bytes
  | 0, body => body
  | n + 1, body => dropSegments n ((trimFront body).dropWhile (· != slash))

/-- What is left of `p` beneath `base`. -/
def strip? (p base : Path) : Option Path :=
  if p.startsWith base then
    let lead := (splitLead p.bytes).1
    let body := (splitLead p.bytes).2
    match base.components.length with
    | 0 => some ⟨lead ++ trimBack body⟩
    | n + 1 =>
      some ⟨trimBack (trimFront (dropSegments (if lead = [] then n + 1 else n) body))⟩
  else none

/-- The path without its last component, with a note whether there was one. -/
def pop (p : Path) : Path × Bool :=
  match p.parent? with
  | some q => (q, true)
  | none => (p, false)

/-! ### Folding -/

/-- The spelling of a component. -/
def ofComponent : Component → Path
  | .root => ⟨[slash]⟩
  | .current => ⟨[dot]⟩
  | .parent => ⟨[dot, dot]⟩
  | .name n => ⟨n⟩

/-- One step of `fold`: `.` is dropped, and `..` takes away the last component if there is one. -/
def foldStep (done : Path) : Component → Path
  | .current => done
  | .parent =>
    match done.pop with
    | (shorter, true) => shorter
    | (_, false) => done.join (ofComponent .parent)
  | c => done.join (ofComponent c)

/-- The path with its `.` and `..` components folded, without looking at any file tree. -/
def fold (p : Path) : Path := p.components.foldl foldStep empty

end Path

/-! ### Sorting -/

/-- Puts `a` in front of the first element that does not come before it. -/
def insertSorted {α : Type} (before : α → α → Bool) (a : α) : List α → List α
  | [] => [a]
  | b :: rest => if before b a then b :: insertSorted before a rest else a :: b :: rest

/-- Stable sorting. -/
def sortBy {α : Type} (before : α → α → Bool) (as : List α) : List α :=
  as.foldr (insertSorted before) []

/-- Paths in path order; spellings of one path keep their order. -/
def Path.sort (ps : List Path) : List Path := sortBy Path.before ps

end Excerpt
