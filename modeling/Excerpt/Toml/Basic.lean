import Excerpt.Text.Basic

/-!
# TOML values

The values that a TOML document holds. Numbers and dates are kept as the text that they are
written with, in the one plain form that each of them has.
-/

namespace Excerpt

namespace Toml

/-- A value of a TOML document. -/
inductive Value where
  | string (t : Text)
  | integer (n : Int)
  | float (t : Text)
  | boolean (b : Bool)
  | datetime (t : Text)
  | array (items : List Value)
  | table (entries : List (Text × Value))

/-- How a table came to be: on the way to another one, by a header of its own, or by a dotted
key. -/
inductive Origin where
  | implicit
  | header
  | dotted
  deriving DecidableEq, Repr

/-- A place in a document that is being read. `tables` is a list of tables, one for each double
header. -/
inductive Node where
  | value (v : Value)
  | table (origin : Origin) (entries : List (Text × Node))
  | tables (elements : List (List (Text × Node)))

/-- The named places of a table. -/
abbrev Entries := List (Text × Node)

namespace Entries

/-- The place with a name. -/
def get? (es : Entries) (key : Text) : Option Node := es.lookup key

/-- The entries with another place under a name that is there. -/
def replace (es : Entries) (key : Text) (n : Node) : Entries :=
  es.map fun e => if e.1 = key then (key, n) else e

/-- Enters a value under a dotted key. A name that is taken is refused, and so is a table that has
a header, and for the value itself a table that no dotted key made. -/
def insert (v : Value) : List Text → Entries → Option Entries
  | [], _ => none
  | [k], es =>
    match es.get? k with
    | none => some (es ++ [(k, .value v)])
    | some _ => none
  | k :: ks, es =>
    match es.get? k with
    | none => (insert v ks []).map fun inner => es ++ [(k, .table .dotted inner)]
    | some (.table origin inner) =>
      if origin = .header ∨ (origin = .implicit ∧ ks.length = 1) then none
      else (insert v ks inner).map fun inner => es.replace k (.table origin inner)
    | some _ => none

/-- Opens the table of a header. A table can be opened only once, and only if no dotted key made
it. -/
def openTable : List Text → Entries → Option Entries
  | [], _ => none
  | [k], es =>
    match es.get? k with
    | none => some (es ++ [(k, .table .header [])])
    | some (.table .implicit inner) => some (es.replace k (.table .header inner))
    | some _ => none
  | k :: ks, es =>
    match es.get? k with
    | none => (openTable ks []).map fun inner => es ++ [(k, .table .implicit inner)]
    | some (.table origin inner) =>
      (openTable ks inner).map fun inner => es.replace k (.table origin inner)
    | some (.tables elements) =>
      match elements.reverse with
      | [] => none
      | last :: before =>
        (openTable ks last).map fun last => es.replace k (.tables (before.reverse ++ [last]))
    | some (.value _) => none

/-- Adds a table to the list of a double header. -/
def openElement : List Text → Entries → Option Entries
  | [], _ => none
  | [k], es =>
    match es.get? k with
    | none => some (es ++ [(k, .tables [[]])])
    | some (.tables elements) => some (es.replace k (.tables (elements ++ [[]])))
    | some _ => none
  | k :: ks, es =>
    match es.get? k with
    | none => (openElement ks []).map fun inner => es ++ [(k, .table .implicit inner)]
    | some (.table origin inner) =>
      (openElement ks inner).map fun inner => es.replace k (.table origin inner)
    | some (.tables elements) =>
      match elements.reverse with
      | [] => none
      | last :: before =>
        (openElement ks last).map fun last => es.replace k (.tables (before.reverse ++ [last]))
    | some (.value _) => none

/-- Enters a value under a dotted key into the table that a header opened last. -/
def insertUnder (key : List Text) (v : Value) : List Text → Entries → Option Entries
  | [], es => insert v key es
  | k :: ks, es =>
    match es.get? k with
    | some (.table origin inner) =>
      (insertUnder key v ks inner).map fun inner => es.replace k (.table origin inner)
    | some (.tables elements) =>
      match elements.reverse with
      | [] => none
      | last :: before =>
        (insertUnder key v ks last).map fun last =>
          es.replace k (.tables (before.reverse ++ [last]))
    | _ => none

end Entries

mutual

/-- The value of a place that is read to the end. -/
def Node.toValue : Node → Value
  | .value v => v
  | .table _ es => .table (entryValues es)
  | .tables elements => .array (tableValues elements)

/-- The values of named places. -/
def entryValues : List (Text × Node) → List (Text × Value)
  | [] => []
  | (k, n) :: rest => (k, n.toValue) :: entryValues rest

/-- The values of a list of tables. -/
def tableValues : List (List (Text × Node)) → List Value
  | [] => []
  | es :: rest => .table (entryValues es) :: tableValues rest

end

end Toml

end Excerpt
