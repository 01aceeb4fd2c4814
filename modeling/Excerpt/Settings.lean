import Excerpt.Path.Basic

/-!
# Settings

How a corpus is laid out and named, how the compiler is called, and how launcher scripts are read.
Every field has a default, and a run never changes them.
-/

namespace Excerpt

/-- The names that a corpus uses for its directories and kinds of files. -/
structure Layout where
  /-- library sources, relative to the corpus -/
  srcDir : Text
  /-- grouped test directories, relative to the corpus -/
  testsDir : Text
  /-- shared native sources, relative to the library sources -/
  nativeDir : Text
  /-- how the names of modules start that are source roots of their own -/
  moduleStart : Text
  /-- how the names end that are no source roots after all -/
  moduleEnd : Text
  /-- the file that keeps its siblings out of the canonical trees -/
  moduleDescriptor : Text
  sourceExt : Text
  nativeExt : Text
  scriptExt : Text
  descriptorExt : Text
  /-- globs, relative to the walked directory, for what is left out -/
  ignore : List Text
  deriving DecidableEq, Repr, Inhabited

/-- How the compiler is found and called. -/
structure CompilerSettings where
  javac : Option Path
  extraArgs : List Text
  deriving DecidableEq, Repr, Inhabited

/-- How class names are found in launcher scripts. -/
structure ScriptSettings where
  launcherPattern : Text
  classPattern : Text
  deriving DecidableEq, Repr, Inhabited

/-- All settings. -/
structure Settings where
  layout : Layout
  oracle : CompilerSettings
  script : ScriptSettings
  deriving DecidableEq, Repr, Inhabited

/-- The usual layout. -/
def Layout.default : Layout where
  srcDir := "src".toList
  testsDir := "tests".toList
  nativeDir := "share".toList
  moduleStart := "jck.".toList
  moduleEnd := ".module".toList
  moduleDescriptor := "module-info.java".toList
  sourceExt := "java".toList
  nativeExt := "c".toList
  scriptExt := "ksh".toList
  descriptorExt := "html".toList
  ignore := []

/-- The compiler goes on after errors, so that method bodies still resolve. -/
def CompilerSettings.default : CompilerSettings where
  javac := none
  extraArgs :=
    ["-XDshould-stop.ifError=FLOW".toList, "-XDshouldStopPolicyIfError=FLOW".toList]

/-- A launcher line calls the runtime; class names are words with dots inside. -/
def ScriptSettings.default : ScriptSettings where
  launcherPattern := "^.*bin/java.*$".toList
  classPattern := "[A-Za-z_$][A-Za-z0-9_$-]*[.][.A-Za-z0-9_$-]+".toList

/-- The settings of a run that nobody configured. -/
def Settings.default : Settings := ⟨.default, .default, .default⟩

end Excerpt
