import Excerpt.Settings.Load
import Excerpt.Toml.Printer

/-!
# Writing settings

Settings are written as a document with a header for each section and a line for each setting. A
compiler that is not set has no line. `init` writes the default settings to a directory.
-/

namespace Excerpt

open Toml (headerLine pairLine quote quoteList)

/-- The lines of a layout. -/
def Layout.render (l : Layout) : Text :=
  pairLine "src_dir" (quote l.srcDir) ++
  pairLine "tests_dir" (quote l.testsDir) ++
  pairLine "native_dir" (quote l.nativeDir) ++
  pairLine "module_prefix" (quote l.moduleStart) ++
  pairLine "module_suffix" (quote l.moduleEnd) ++
  pairLine "module_descriptor" (quote l.moduleDescriptor) ++
  pairLine "source_ext" (quote l.sourceExt) ++
  pairLine "native_ext" (quote l.nativeExt) ++
  pairLine "script_ext" (quote l.scriptExt) ++
  pairLine "descriptor_ext" (quote l.descriptorExt) ++
  pairLine "ignore" (quoteList l.ignore)

/-- The lines of the settings of the compiler. -/
def CompilerSettings.render (c : CompilerSettings) : Text :=
  (match c.javac with
    | some p => pairLine "javac" (quote p.display)
    | none => []) ++
  pairLine "extra_args" (quoteList c.extraArgs)

/-- The lines of the settings for launcher scripts. -/
def ScriptSettings.render (s : ScriptSettings) : Text :=
  pairLine "launcher_pattern" (quote s.launcherPattern) ++
  pairLine "class_pattern" (quote s.classPattern)

namespace Settings

/-- The document of some settings. -/
def render (s : Settings) : Text :=
  headerLine "layout" ++ s.layout.render ++
  '\n' :: headerLine "oracle" ++ s.oracle.render ++
  '\n' :: headerLine "script" ++ s.script.render

/-- Writes the default settings to a directory, and answers with the file. A file that exists is
kept unless it may be replaced by `force`; a dry run only checks. -/
def init (dir : Path) (force dryRun : Bool) : Act Path := do
  let file := dir.joinText fileName
  let found ← Act.look fun s => .ok (s.exists file)
  if found && !force then throw (.settingsExist file)
  if !dryRun then
    Act.change .writeSettings fun s => s.write file (Utf8.encode (render .default))
  return file

end Settings

end Excerpt
