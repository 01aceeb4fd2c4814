import Excerpt.Toml.Document

/-!
# Trees of settings

Settings come in layers. A layer names values, and a later layer adds to an earlier one: a table
goes into a table name by name, and anything else takes the place of what was there. The result is
a tree, with a text at every leaf.

On the outermost level a name may be a route into the tree, such as `layout.ignore[0]`. A name that
is no route is taken as it is.
-/

namespace Excerpt

namespace Settings

/-- A tree of settings. Numbers, truth values and dates are kept as their texts. -/
inductive Tree where
  | nothing
  | text (t : Text)
  | list (items : List Tree)
  | table (entries : List (Text × Tree))

/-- A list of named values. -/
abbrev Layer := List (Text × Tree)

namespace Tree

/-- The named values of a table; anything else has none. -/
def entries : Tree → Layer
  | table es => es
  | _ => []

/-- The elements of a list; anything else has none. -/
def items : Tree → List Tree
  | list ts => ts
  | _ => []

/-- The value with a name, or nothing. -/
def child (es : Layer) (name : Text) : Tree := (es.lookup name).getD nothing

/-- Gives a value to a name: in the place of the old one, or at the end. -/
def put (name : Text) (t : Tree) : Layer → Layer
  | [] => [(name, t)]
  | e :: rest => if e.1 = name then (name, t) :: rest else e :: put name t rest

/-! ### Adding a value -/

mutual

/-- Adds a value to an old one. -/
def merge (old : Tree) : Tree → Tree
  | table es => table (mergeAll old.entries es)
  | nothing => nothing
  | text t => text t
  | list ts => list ts

/-- Adds named values to others. -/
def mergeAll (old : Layer) : Layer → Layer
  | [] => old
  | (name, t) :: rest => mergeAll (put name (merge (child old name) t) old) rest

end

/-! ### Values of documents -/

mutual

/-- The tree of a value in a document. -/
def ofToml : Toml.Value → Tree
  | .string t => text t
  | .integer n => text (if n < 0 then '-' :: Text.ofNat n.natAbs else Text.ofNat n.natAbs)
  | .float t => text t
  | .boolean b => text (if b then "true".toList else "false".toList)
  | .datetime t => text t
  | .array vs => list (ofValues vs)
  | .table es => table (ofEntries es)

/-- The trees of a list of values. -/
def ofValues : List Toml.Value → List Tree
  | [] => []
  | v :: rest => ofToml v :: ofValues rest

/-- The trees of named values. -/
def ofEntries : List (Text × Toml.Value) → Layer
  | [] => []
  | (name, v) :: rest => (name, ofToml v) :: ofEntries rest

end

/-! ### Routes -/

/-- One step down a tree: to a name, or to a place in a list, counted from its end if negative. -/
inductive Step where
  | name (n : Text)
  | place (i : Int)
  deriving DecidableEq, Repr

/-- A list in which a place exists, with the index of that place. Room is made at the end, or at
the front for a place counted from the end. -/
def reach (i : Int) (ts : List Tree) : List Tree × Nat :=
  if 0 ≤ i then (ts ++ List.replicate (i.toNat + 1 - ts.length) nothing, i.toNat)
  else if i.natAbs ≤ ts.length then (ts, ts.length - i.natAbs)
  else (List.replicate (i.natAbs - ts.length) nothing ++ ts, 0)

/-- Changes the value at the end of a route. What stands in its way makes room. -/
def update (f : Tree → Tree) : List Step → Tree → Tree
  | [], t => f t
  | .name n :: rest, t => table (put n (update f rest (child t.entries n)) t.entries)
  | .place i :: rest, t =>
    let (ts, at_) := reach i t.items
    list (ts.set at_ (update f rest (ts.getD at_ nothing)))

/-- Reads the number of a place, which has to fit into 64 bits with a sign. -/
def place? (t : Text) : Option Int :=
  let t := Text.dropEndWhile Toml.isSpace (t.dropWhile Toml.isSpace)
  let (negative, ds) := match t with
    | '-' :: rest => (true, rest)
    | t => (false, t)
  if ds.isEmpty || !ds.all Char.isDigit then none
  else (Toml.numberOf? 10 ds).bind fun n => Toml.Word.inRange? (if negative then -(n : Int) else n)

/-- Reads the steps behind the first name of a route; `fuel` bounds their number. -/
def steps? : (fuel : Nat) → Text → Option (List Step)
  | _, [] => some []
  | 0, _ :: _ => none
  | fuel + 1, c :: rest =>
    if c = '.' then
      let name := rest.takeWhile Toml.isKeyPart
      if name.isEmpty then none
      else (steps? fuel (rest.dropWhile Toml.isKeyPart)).map (.name name :: ·)
    else if c = '[' then
      match Text.cutFirst? (· == ']') rest with
      | none => none
      | some (inside, rest) => (place? inside).bind fun i => (steps? fuel rest).map (.place i :: ·)
    else none

/-- The steps of a name: those of a route, or the name itself. -/
def route (name : Text) : List Step :=
  let first := name.takeWhile Toml.isKeyPart
  let rest := name.dropWhile Toml.isKeyPart
  if first.isEmpty then [.name name]
  else match steps? rest.length rest with
  | some steps => .name first :: steps
  | none => [.name name]

/-! ### Layers -/

/-- Adds a named value of a layer. -/
def assign (t : Tree) (e : Text × Tree) : Tree := update (merge · e.2) (route e.1) t

/-- Adds a layer. -/
def add (t : Tree) (layer : Layer) : Tree := layer.foldl assign t

/-- The tree of some layers, the first one lowest. -/
def ofLayers (layers : List Layer) : Tree := layers.foldl add (table [])

end Tree

end Settings

end Excerpt
