import Excerpt.Act

/-!
# Starting programs

A program is named by a path or, without any slash, by a name that is looked for in the
directories of the variable `PATH`. A directory and a file that may not be executed are refused.

A program that is given a directory for its output may leave files in it, and only there.
-/

namespace Excerpt

namespace Program

/-- The byte between the directories of `PATH`. -/
def colon : UInt8 := 58

/-- The file that would be executed at a path. -/
def executableAt (s : Store) (p : Path) : Except Fault Path :=
  match s.find true p with
  | .error fault => .error fault
  | .ok (loc, .file _ mode _) =>
    if Store.executable mode then .ok (Store.pathOf loc) else .error .permissionDenied
  | .ok _ => .error .permissionDenied

/-- The first directory that has the program. A program that may not be executed is remembered
only to say so if no other is found. -/
def searchDirs (s : Store) (name : Path) : List Bytes → (denied : Bool) → Except Fault Path
  | [], denied => .error (if denied then .permissionDenied else .notFound)
  | dir :: rest, denied =>
    match executableAt s (if dir = [] then name else ⟨dir ++ Path.slash :: name.bytes⟩) with
    | .ok p => .ok p
    | .error .permissionDenied => searchDirs s name rest true
    | .error _ => searchDirs s name rest denied

/-- The file that is executed for a program. -/
def locate (s : Store) (path : Option Text) (program : Path) : Except Fault Path :=
  if program.bytes.contains Path.slash then executableAt s program
  else if program.bytes = [] then .error .notFound
  else match path with
  | none => .error .notFound
  | some dirs => searchDirs s program (Text.splitOn (· == colon) (Utf8.encode dirs)) false

/-- Starts a program and waits for its end. -/
def run (h : Host) (why : Fault → Failure) (program : Path) (arguments : List Bytes) :
    Act ProgramResult := do
  let file ← Act.look fun s => .ok (locate s (h.get? "PATH") program)
  match file with
  | .error fault =>
    Act.noteLaunch ⟨program, arguments, false⟩
    throw (why fault)
  | .ok file =>
    Act.noteLaunch ⟨program, arguments, true⟩
    Act.look fun s => .ok (h.execute s file arguments)

/-- Puts the files that a program wrote into the directory for its output. -/
def keepWritten (dir : Path) (result : ProgramResult) : Act Unit := fun w =>
  match w.store.find true dir with
  | .ok (loc, .dir) =>
    let s := result.written.foldl (fun s file => s.deposit file.2 loc file.1) w.store
    (.ok (), { w with store := s })
  | _ => (.ok (), w)

end Program

end Excerpt
