import Excerpt.Store.Basic

/-!
# Failures

Why a run cannot go on, as a cause with what it is about. `message` says it in one line; `report`
adds the reasons underneath, each after a colon.
-/

namespace Excerpt

/-- What is wrong with a request. -/
inductive RequestFault where
  | missing (argument : Text)
  | wrongCorpus (p : Path)
  | wrongOutput (p : Path)
  | wrongTest (name : Text)
  deriving DecidableEq, Repr

namespace RequestFault

/-- The words for a fault of a request. -/
def message : RequestFault → Text
  | missing argument => "Missing: --".toList ++ argument ++ " arg".toList
  | wrongCorpus p => "Wrong jck-dir: ".toList ++ p.display
  | wrongOutput p => "Wrong output-dir: ".toList ++ p.display
  | wrongTest name => "Wrong test name: ".toList ++ name

/-- The code that all faults of requests share. -/
def code : Text := "jck_extract::request".toList

/-- The advice that all faults of requests share. -/
def help : Text := "see `jck-extract extract --help`".toList

end RequestFault

/-- Why a run cannot go on. -/
inductive Failure where
  | request (fault : RequestFault)
  | badGlob (glob : Text)
  | badPattern (pattern : Text)
  | walk (root : Path) (fault : Fault)
  | scan (file : Path) (fault : Fault)
  | list (dir : Path) (fault : Fault)
  | makeDir (dir : Path) (fault : Fault)
  | makeLink (link target : Path) (fault : Fault)
  | readLink (link : Path) (fault : Fault)
  | outsideCorpus (file corpus : Path)
  | copy (source destination : Path) (fault : Fault)
  | readTimes (file : Path) (fault : Fault)
  | setTimes (file : Path) (fault : Fault)
  | noNativeDir (dir : Path)
  | escaped (file base : Path)
  | write (file : Path) (fault : Fault)
  | makeExecutable (file : Path) (fault : Fault)
  | writeStub (file : Path) (fault : Fault)
  | deleteStub (file : Path) (fault : Fault)
  | makeScratch (fault : Fault)
  | makeClassDir (fault : Fault)
  | noCompiler (program : Path) (fault : Fault)
  | badCompiler (program : Path)
  | runCompiler (program : Path) (fault : Fault)
  | separatorInRoot
  | oracle (message : Text)
  | loadSettings
  | parseSettings
  | settingsExist (file : Path)
  | writeSettings (fault : Fault)
  | noOutDir
  | writeCompletions (shell : Text) (dir : Path) (fault : Fault)
  deriving DecidableEq, Repr

namespace Failure

/-- The words for a failure. -/
def message : Failure → Text
  | request fault => fault.message
  | badGlob glob => "invalid glob: ".toList ++ glob
  | badPattern pattern => "invalid pattern: ".toList ++ pattern
  | walk root _ => "Failed to walk ".toList ++ root.display
  | scan file _ => "Failed to scan ".toList ++ file.display
  | list dir _ => "Failed to list ".toList ++ dir.display
  | makeDir dir _ => "Failed to create ".toList ++ dir.display
  | makeLink link target _ =>
    "Failed to link ".toList ++ link.display ++ " -> ".toList ++ target.display
  | readLink link _ => "Failed to read link ".toList ++ link.display
  | outsideCorpus file corpus =>
    file.display ++ " is outside corpus ".toList ++ corpus.display
  | copy source destination _ =>
    "Failed to copy ".toList ++ source.display ++ " to ".toList ++ destination.display
  | readTimes file _ => "Failed to read timestamps of ".toList ++ file.display
  | setTimes file _ => "Failed to set timestamps on ".toList ++ file.display
  | noNativeDir dir => "Native source directory not found: ".toList ++ dir.display
  | escaped file base => file.display ++ " escaped ".toList ++ base.display
  | write file _ => "Failed to write ".toList ++ file.display
  | makeExecutable file _ =>
    "Failed to make ".toList ++ file.display ++ " executable".toList
  | writeStub file _ => "Failed to write stub ".toList ++ file.display
  | deleteStub file _ => "Failed to delete stub ".toList ++ file.display
  | makeScratch _ => "Failed to create scratch directory".toList
  | makeClassDir _ => "Failed to create class output directory".toList
  | noCompiler program _ => "javac executable not found: ".toList ++ program.display
  | badCompiler program => program.display ++ " -version failed".toList
  | runCompiler program _ => "Failed to run ".toList ++ program.display
  | separatorInRoot => "source root contains the path separator".toList
  | oracle message => message
  | loadSettings => "Failed to load configuration".toList
  | parseSettings => "Failed to parse configuration".toList
  | settingsExist file =>
    "Config file already exists at ".toList ++ file.display ++
      ". Use --force to overwrite.".toList
  | writeSettings _ => "Failed to write config file".toList
  | noOutDir => "--out-dir is required unless --stdout is set".toList
  | writeCompletions shell dir _ =>
    "Failed to write ".toList ++ shell ++ " completions into ".toList ++ dir.display

/-- The fault of the file tree behind a failure. The walk reports its own and hides it. -/
def fault? : Failure → Option Fault
  | scan _ f | list _ f | makeDir _ f | makeLink _ _ f | readLink _ f | copy _ _ f
  | readTimes _ f | setTimes _ f | write _ f | makeExecutable _ f | writeStub _ f
  | deleteStub _ f | makeScratch f | makeClassDir f | noCompiler _ f | runCompiler _ f
  | writeSettings f | writeCompletions _ _ f => some f
  | _ => none

/-- The reasons underneath a failure, the nearest first. -/
def reasons : Failure → List Text
  | walk root f =>
    [root.display,
     "IO error for operation on ".toList ++ root.display ++ ": ".toList ++ f.message]
  | outsideCorpus .. | escaped .. => ["prefix not found".toList]
  | separatorInRoot => ["path segment contains separator `:`".toList]
  | failure => (failure.fault?.map Fault.message).toList

/-- The whole line for a failure. -/
def report (f : Failure) : Text := Text.join ": ".toList (f.message :: f.reasons)

end Failure

end Excerpt
