import Excerpt.Failure
import Excerpt.Log
import Excerpt.Path.Set
import Excerpt.Store.Edit

/-!
# Actions

An action works on a world: the file tree, the questions put to a dependency oracle, the programs
that were started, and the reported events. It may fail; what it did before it failed stays done.

`Act.within` gives an action a fresh directory and takes the directory away afterwards, however
the action ended. Taking it away is a walk over what is in it, which the system could refuse; here it
is taken to succeed, so the failure that the program has for this is never met.
-/

namespace Excerpt

/-- One question to a dependency oracle, with the file tree at that time. -/
structure Question where
  entries : List Path
  roots : List Path
  store : Store

/-- One attempt to start a program, and whether it was there to be started. -/
structure Launch where
  program : Path
  arguments : List Bytes
  started : Bool
  deriving DecidableEq, Repr

/-- What an action works on. -/
structure World where
  store : Store
  questions : List Question
  launches : List Launch
  events : List Log.Event

/-- The world that only has a file tree. -/
def World.ofStore (s : Store) : World := ⟨s, [], [], []⟩

/-- An action on the world that may fail; its effects before a failure stay. -/
abbrev Act := ExceptT Failure (StateM World)

namespace Act

variable {α : Type}

/-- Reads the file tree. -/
def look (f : Store → Except Failure α) : Act α := fun w => (f w.store, w)

/-- Changes the file tree; `why` turns the fault of a refused change into a failure. -/
def edit (why : Fault → Failure) (e : Edit α) : Act α := fun w =>
  match e w.store with
  | (.ok a, s) => (.ok a, { w with store := s })
  | (.error fault, s) => (.error (why fault), { w with store := s })

/-- Changes the file tree in one step. -/
def change (why : Fault → Failure) (f : Store → Except Fault Store) : Act Unit :=
  edit why (Store.step f)

/-- Reports an event. -/
def report (level : Log.Level) (target message : String) (fields : List Log.Field) : Act Unit :=
  fun w =>
    let e : Log.Event := ⟨level, none, target.toList, message.toList, fields⟩
    (.ok (), { w with events := w.events ++ [e] })

/-- Puts the events of an action inside a span. -/
def inSpan (span : Log.Span) (a : Act α) : Act α := fun w =>
  match a { w with events := [] } with
  | (r, w') =>
    (r, { w' with events := w.events ++ w'.events.map fun e => { e with span := some span } })

/-- Notes a question to an oracle. -/
def noteQuestion (entries roots : List Path) : Act Unit := fun w =>
  (.ok (), { w with questions := w.questions ++ [⟨entries, roots, w.store⟩] })

/-- Notes an attempt to start a program. -/
def noteLaunch (l : Launch) : Act Unit := fun w =>
  (.ok (), { w with launches := w.launches ++ [l] })

/-- The store without a directory and what it holds. -/
def discard (dir : Path) (s : Store) : Store :=
  match s.find false dir with
  | .ok (loc, _) => s.eraseTree loc
  | .error _ => s

/-- Makes a directory for an action and takes it away afterwards. -/
def within (why : Fault → Failure) (dir : Path) (a : Act α) : Act α := fun w =>
  match w.store.makeDir dir with
  | .error fault => (.error (why fault), w)
  | .ok s =>
    match a { w with store := s } with
    | (r, w') => (r, { w' with store := discard dir w'.store })

end Act

/-- Something that knows which files of some source roots the entry units need. -/
abbrev Oracle := (entries roots : List Path) → Act PathSet

/-- What a program did: what it printed, whether it says that it succeeded, and the files that it
wrote into the directory for its output, by the names that lead to them. -/
structure ProgramResult where
  stdout : Bytes
  stderr : Bytes
  exitCode : Nat
  written : List (Location × Bytes)
  deriving DecidableEq, Repr

/-- What surrounds a run: where scratch directories go and what they are called, the environment
variables, the date, and what an executable file does when it is started. -/
structure Host where
  scratchDir : Path
  classDir : Path
  environment : List (Text × Text)
  date : Text
  execute : Store → Path → List Bytes → ProgramResult

/-- The value of an environment variable. -/
def Host.get? (h : Host) (name : String) : Option Text := h.environment.lookup name.toList

end Excerpt
