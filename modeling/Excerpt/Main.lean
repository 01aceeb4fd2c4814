import Std.Time.DateTime
import Excerpt.Session

/-!
# The program

The outer layer takes a picture of the directories that a command line names, lets a session work
on the picture, and then makes the same changes outside. It decides nothing.

Programs are not started from here: every compiler counts as missing.
-/

namespace Excerpt

namespace Live

open CommandLine

/-! ### The environment -/

/-- The names of the variables for the settings of one section. -/
def variableNamesOf (sectionName : Text) (names : List Text) : List Text :=
  names.map fun name =>
    (Settings.variableStart ++ sectionName ++ "__".toList ++ name).map Char.toUpper

/-- The names of the variables that a session looks at. -/
def variableNames : List Text :=
  variableNamesOf "layout".toList Settings.layoutNames ++
  variableNamesOf "oracle".toList Settings.compilerNames ++
  variableNamesOf "script".toList Settings.scriptNames ++
  ["JENKINS_URL".toList, "JOB_NAME".toList, "BUILD_ID".toList, "JAVA_TOOL_OPTIONS".toList,
   "RUST_LOG".toList]

/-- The variables that are set. -/
def lookUp : List Text → IO (List (Text × Text))
  | [] => return []
  | name :: rest => do
    let others ← lookUp rest
    match ← IO.getEnv (String.ofList name) with
    | some value => return (name, value.toList) :: others
    | none => return others

/-- The short names of the days of the week, from Monday on. -/
def dayNames : List Text :=
  ["Mon".toList, "Tue".toList, "Wed".toList, "Thu".toList, "Fri".toList, "Sat".toList,
   "Sun".toList]

/-- The short names of the months. -/
def monthNames : List Text :=
  ["Jan".toList, "Feb".toList, "Mar".toList, "Apr".toList, "May".toList, "Jun".toList,
   "Jul".toList, "Aug".toList, "Sep".toList, "Oct".toList, "Nov".toList, "Dec".toList]

/-- A number of at most two digits, with something in front of a single one. -/
def twoPlaces (fill : Char) (n : Nat) : Text :=
  if n < 10 then fill :: Text.ofNat n else Text.ofNat n

/-- The present time in words. -/
def date : IO Text := do
  let d := Std.Time.DateTime.ofTimestampWithZone (← Std.Time.Timestamp.now) Std.Time.TimeZone.UTC
  let time := [d.hour.toNat, d.minute.toNat, d.second.toNat].map (twoPlaces '0')
  return Text.join [' ']
    [dayNames.getD (d.weekday.toOrdinal.toNat - 1) [], monthNames.getD (d.month.toNat - 1) [],
     twoPlaces ' ' d.day.toNat, Text.join [':'] time, "UTC".toList,
     Text.ofNat d.year.toInt.toNat]

/-! ### Taking a picture -/

/-- The name of a path outside. -/
def outside (p : Path) : String := String.ofList p.display

/-- The location of an absolute path. -/
def locationOf (absolute : String) : Location := Store.segments (Path.ofText absolute.toList)

/-- Adds the directories on the way to a location. -/
def addAncestors (s : Store) (loc : Location) : Store :=
  (List.range loc.length).foldl (fun s n => s.put (loc.take (n + 1)) .dir) s

/-- Adds what stands at a path, and down to some depth what is beneath it. -/
def addTree : (depth : Nat) → String → Store → IO Store
  | 0, _, s => return s
  | depth + 1, p, s => do
    let dir ← IO.FS.realPath p
    let mut s := s
    for entry in ← dir.readDir do
      let loc := locationOf entry.path.toString
      match (← entry.path.symlinkMetadata).type with
      | .dir =>
        s ← addTree depth entry.path.toString (s.put loc .dir)
      | .file =>
        let content ← IO.FS.readBinFile entry.path
        s := s.put loc (.file content.toList Store.plainMode s.clock)
      | .symlink =>
        let target ← IO.FS.realPath entry.path
        s := s.put loc (.link (Path.ofText target.toString.toList))
      | .other => s := s
    return s

/-- Adds a directory with everything beneath it, if it is there. -/
def addDirectory (depth : Nat) (p : Path) (s : Store) : IO Store := do
  try
    let dir ← IO.FS.realPath (outside p)
    addTree depth dir.toString (addAncestors s (locationOf dir.toString))
  catch _ => return s

/-- The directories that a task works in. -/
def directories : Task → List Path
  | .extract corpus output _ _ => corpus.toList ++ output.toList
  | .init dir _ => [dir]
  | .completions _ outDir _ => outDir.toList

/-- Adds several directories. -/
def addDirectories : List Path → Store → IO Store
  | [], s => return s
  | p :: rest, s => do addDirectories rest (← addDirectory Store.maxPath p s)

/-- The present directory, its own files, and the directories of a task. -/
def picture (dirs : List Path) : IO Store := do
  let cwd := locationOf (← IO.currentDir).toString
  let s := addAncestors (addAncestors ⟨[], cwd, ⟨0, 0⟩⟩ cwd) (locationOf "/tmp")
  addDirectories dirs (← addDirectory 1 (Path.ofText ['.']) s)

/-! ### Making the changes -/

/-- Makes one changed entry outside. -/
def makeEntry (e : Location × Node) : IO Unit :=
  let p := outside (Store.pathOf e.1)
  match e.2 with
  | .dir => IO.FS.createDirAll p
  | .file content mode _ => do
    IO.FS.writeBinFile p ⟨content.toArray⟩
    let others : IO.AccessRight := ⟨true, false, true⟩
    if Store.executable mode then IO.setAccessRights p ⟨⟨true, true, true⟩, others, others⟩
  | .link _ => return ()

/-- Makes the entries of a store that are new or changed. -/
def makeChanges (before after : Store) : IO Unit :=
  (after.entries.filter fun e => before.get? e.1 ≠ some e.2).forM makeEntry

/-! ### The session -/

/-- The host: no program is started, and scratch directories exist in the picture only. -/
def host (environment : List (Text × Text)) (date : Text) : Host where
  scratchDir := Path.ofText "/tmp/jck-extrscratch".toList
  classDir := Path.ofText "/tmp/clsesclasses".toList
  environment := environment
  date := date
  execute := fun _ _ _ => ⟨[], [], 127, []⟩

/-- Carries out a command line. -/
def run (arguments : List String) : IO UInt32 := do
  let words := arguments.map String.toList
  let dirs := match Invocation.ofArguments words with
    | .ok i => directories i.task
    | .error _ => []
  let store ← picture dirs
  let vars ← lookUp variableNames
  let (outcome, world) := Session.run (host vars (← date)) words (World.ofStore store)
  makeChanges store world.store
  outcome.reports.forM fun l => IO.eprintln (String.ofList l)
  IO.eprint (String.ofList outcome.stderr)
  IO.print (String.ofList outcome.stdout)
  return outcome.exitCode.toUInt32

end Live

end Excerpt

/-- Carries out the command line that the program is started with. -/
def main (arguments : List String) : IO UInt32 := Excerpt.Live.run arguments
