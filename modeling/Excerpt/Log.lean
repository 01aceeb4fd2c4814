import Excerpt.Path.Basic

/-!
# Log events

What a run reports about itself: events with a level, the part of the program that they come from,
a message and named values. Which of them are shown is decided by a filter, a list of directives
that each set a level for the parts whose name starts in some way; the longest name decides.
-/

namespace Excerpt

namespace Log

/-- The levels, from the finest to the most urgent. -/
inductive Level where
  | trace
  | debug
  | info
  | warn
  | error
  deriving DecidableEq, Repr

/-- The place of a level in their order. -/
def Level.rank : Level → Nat
  | trace => 0
  | debug => 1
  | info => 2
  | warn => 3
  | error => 4

/-- The word for a level. -/
def Level.name : Level → Text
  | trace => "TRACE".toList
  | debug => "DEBUG".toList
  | info => "INFO".toList
  | warn => "WARN".toList
  | error => "ERROR".toList

/-- A named value, as it is printed. -/
abbrev Field := Text × Text

/-- An activity that events happen within, itself of level `info`. -/
structure Span where
  name : Text
  target : Text
  fields : List Field
  deriving DecidableEq, Repr

/-- One report. -/
structure Event where
  level : Level
  span : Option Span
  target : Text
  message : Text
  fields : List Field
  deriving DecidableEq, Repr

/-! ### Printing values -/

/-- The escape of a character inside a quoted text. -/
def quoteChar (c : Char) : Text :=
  if c = '\x22' then "\\\"".toList
  else if c = '\\' then "\\\\".toList
  else if c = '\n' then "\\n".toList
  else if c = '\r' then "\\r".toList
  else if c = '\t' then "\\t".toList
  else if c = '\x00' then "\\0".toList
  else if c.toNat < 0x20 ∨ c = '\x7F' then
    "\\u\x7b".toList ++ Nat.toDigits 16 c.toNat ++ ['\x7d']
  else [c]

/-- A path in quotes. -/
def quotedPath (p : Path) : Text := ['\x22'] ++ p.display.flatMap quoteChar ++ ['\x22']

/-- A list of paths in brackets. -/
def quotedPaths (ps : List Path) : Text :=
  ['['] ++ Text.join ", ".toList (ps.map quotedPath) ++ [']']

/-- The word for a truth value. -/
def flag (b : Bool) : Text := if b then "true".toList else "false".toList

/-- Named values with blanks between them. -/
def renderFields (fields : List Field) : Text :=
  Text.join [' '] (fields.map fun f => f.1 ++ '=' :: f.2)

/-! ### Filters -/

/-- A directive: the parts whose name starts with `target` are shown from a level on, or not at
all. -/
structure Directive where
  target : Text
  level : Option Level
  deriving DecidableEq, Repr

/-- A list of directives. -/
abbrev Filter := List Directive

/-- The filter for a number of requests for more reports: warnings everywhere, and more from the
program's own parts. -/
def Filter.ofVerbosity (verbose : Nat) : Filter :=
  let own := match verbose with
    | 0 => Level.warn
    | 1 => .info
    | 2 => .debug
    | _ => .trace
  [⟨[], some .warn⟩, ⟨"jck_extract".toList, some own⟩]

/-- The directive that decides for a target: the one with the longest name that fits, and of equal
ones the last. -/
def Filter.directive? (filter : Filter) (target : Text) : Option Directive :=
  (filter.filter (·.target.isPrefixOf target)).foldl (fun best d =>
    match best with
    | none => some d
    | some b => if b.target.length ≤ d.target.length then some d else some b) none

/-- Whether reports of a level from a target are shown. -/
def Filter.shows (filter : Filter) (level : Level) (target : Text) : Bool :=
  match filter.directive? target with
  | some ⟨_, some least⟩ => least.rank ≤ level.rank
  | _ => false

/-- The level that a word in a filter stands for; `none` inside is silence. -/
def levelWord? (t : Text) : Option (Option Level) :=
  let w := Text.toLower t
  if w == "trace".toList || w == "5".toList then some (some .trace)
  else if w == "debug".toList || w == "4".toList then some (some .debug)
  else if w == "info".toList || w == "3".toList then some (some .info)
  else if w == "warn".toList || w == "2".toList then some (some .warn)
  else if w == "error".toList || w == "1".toList then some (some .error)
  else if w == "off".toList || w == "0".toList then some none
  else none

/-- Reads one directive: a level, a target, or both with `=` between them. -/
def Directive.ofText? (t : Text) : Option Directive :=
  match Text.cutFirst? (· == '=') t with
  | some (target, level) => (levelWord? level).map fun l => ⟨target, l⟩
  | none =>
    match levelWord? t with
    | some l => some ⟨[], l⟩
    | none =>
      if t.all fun c => c.isAlphanum || c == '_' || c == ':' || c == '-' then
        some ⟨t, some .trace⟩
      else none

/-- Reads a filter: directives with commas between them. An empty one shows only errors. -/
def Filter.ofText? (t : Text) : Option Filter :=
  let parts := (Text.splitOn (· == ',') t).filter (!·.isEmpty)
  if parts.isEmpty then some [⟨[], some .error⟩] else parts.mapM Directive.ofText?

/-! ### Lines -/

/-- The line of an event without its time. -/
def Event.render (filter : Filter) (e : Event) : Text :=
  let span := match e.span with
    | some s =>
      if filter.shows .info s.target then
        s.name ++ ['\x7b'] ++ renderFields s.fields ++ "\x7d: ".toList
      else []
    | none => []
  e.level.name ++ [' '] ++ span ++ e.target ++ ": ".toList ++ e.message ++
    (if e.fields.isEmpty then [] else ' ' :: renderFields e.fields)

/-- The lines of the events that a filter shows. -/
def Filter.lines (filter : Filter) (events : List Event) : List Text :=
  (events.filter fun e => filter.shows e.level e.target).map (Event.render filter)

end Log

end Excerpt
