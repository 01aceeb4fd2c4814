import Excerpt.Path.Set
import Excerpt.Trace.Event

/-!
# Watching a compiler

A monitor goes over a trace and notes the files beneath the source roots whose content was opened,
apart from the units that were compiled. It also keeps the search path for sources that the
compiler reported last.
-/

namespace Excerpt

/-- What a monitor watches for: files beneath `roots` that are none of `entries`. -/
structure Watch where
  roots : List Path
  entries : List Path
  sourceExt : Text
  deriving DecidableEq, Repr

/-- What a monitor has noted. -/
structure Monitor where
  used : PathSet
  reported : List Path
  deriving DecidableEq, Repr

namespace Monitor

/-- A monitor that has seen nothing. -/
def start : Monitor := ⟨PathSet.empty, []⟩

/-- The object of an event that opens a source file. -/
def opened? (w : Watch) : TraceEvent → Option FileObject
  | .parsingStarted o => some o
  | .loading o => if o.isSource w.sourceExt then some o else none
  | _ => none

/-- Whether an opened object counts. -/
def counts (w : Watch) (o : FileObject) : Bool :=
  o.claimedBy w.roots && !w.entries.any fun e => (FileObject.plain e).sameFile o

/-- The file that an event adds. -/
def addition? (w : Watch) (e : TraceEvent) : Option Path :=
  (opened? w e).bind fun o => if counts w o then some o.path else none

/-- Takes in one event. -/
def observe (w : Watch) (m : Monitor) (e : TraceEvent) : Monitor :=
  match e with
  | .sourcePath entries => { m with reported := entries }
  | e =>
    match addition? w e with
    | some p => { m with used := m.used.insert p }
    | none => m

/-- Takes in the lines of a trace. -/
def observeTrace (w : Watch) (m : Monitor) (trace : Text) : Monitor :=
  ((Text.lines trace).map TraceEvent.parse).foldl (observe w) m

/-- The reported directories that lie beneath none of the roots. -/
def unclaimed (w : Watch) (m : Monitor) : List Path :=
  m.reported.filter (!FileObject.isUnder w.roots ·)

end Monitor

end Excerpt
