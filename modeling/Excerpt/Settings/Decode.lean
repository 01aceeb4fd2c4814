import Excerpt.Settings
import Excerpt.Settings.Tree

/-!
# Settings of a tree

A setting that the tree does not name keeps its default, and a name that is no setting is ignored.
A section may be written as a list, which gives its settings in their order. A text is wanted for
most settings, so every leaf is accepted there; for the others a list of leaves is wanted.
-/

namespace Excerpt

namespace Settings

namespace Tree

/-- The text of a leaf. -/
def text? : Tree → Option Text
  | text t => some t
  | _ => none

/-- The texts of a list of leaves. -/
def texts? : Tree → Option (List Text)
  | list ts => ts.mapM text?
  | _ => none

/-- The path of a leaf, or no path where there is nothing. -/
def path? : Tree → Option (Option Path)
  | nothing => some none
  | text t => some (some (Path.ofText t))
  | _ => none

/-- A section, by what it gives for a name. -/
abbrev Group := Text → Option Tree

/-- A tree as a section whose settings have some names, in order. -/
def group? (names : List Text) : Tree → Option Group
  | table es => some fun name => es.lookup name
  | list ts => some fun name => ts[names.idxOf name]?
  | _ => none

/-- The value of a setting, by a way of reading it; the default if the section does not give it. -/
def Group.get? {α : Type} (s : Group) (read : Tree → Option α) (name : String) (default : α) :
    Option α :=
  match s name.toList with
  | none => some default
  | some t => read t

end Tree

open Excerpt.Settings.Tree

/-! ### Sections -/

/-- The names of the settings of a layout. -/
def layoutNames : List Text :=
  ["src_dir".toList, "tests_dir".toList, "native_dir".toList, "module_prefix".toList,
   "module_suffix".toList, "module_descriptor".toList, "source_ext".toList, "native_ext".toList,
   "script_ext".toList, "descriptor_ext".toList, "ignore".toList]

/-- The names of the settings of the compiler. -/
def compilerNames : List Text := ["javac".toList, "extra_args".toList]

/-- The names of the settings for launcher scripts. -/
def scriptNames : List Text := ["launcher_pattern".toList, "class_pattern".toList]

/-- The names of the sections. -/
def sectionNames : List Text := ["layout".toList, "oracle".toList, "script".toList]

/-- Reads the layout. -/
def layout? (t : Tree) : Option Layout := do
  let s ← group? layoutNames t
  let d := Layout.default
  let srcDir ← s.get? text? "src_dir" d.srcDir
  let testsDir ← s.get? text? "tests_dir" d.testsDir
  let nativeDir ← s.get? text? "native_dir" d.nativeDir
  let moduleStart ← s.get? text? "module_prefix" d.moduleStart
  let moduleEnd ← s.get? text? "module_suffix" d.moduleEnd
  let moduleDescriptor ← s.get? text? "module_descriptor" d.moduleDescriptor
  let sourceExt ← s.get? text? "source_ext" d.sourceExt
  let nativeExt ← s.get? text? "native_ext" d.nativeExt
  let scriptExt ← s.get? text? "script_ext" d.scriptExt
  let descriptorExt ← s.get? text? "descriptor_ext" d.descriptorExt
  let ignore ← s.get? texts? "ignore" d.ignore
  return { srcDir, testsDir, nativeDir, moduleStart, moduleEnd, moduleDescriptor, sourceExt,
           nativeExt, scriptExt, descriptorExt, ignore }

/-- Reads the settings of the compiler. -/
def compiler? (t : Tree) : Option CompilerSettings := do
  let s ← group? compilerNames t
  let d := CompilerSettings.default
  let javac ← s.get? path? "javac" d.javac
  let extraArgs ← s.get? texts? "extra_args" d.extraArgs
  return { javac, extraArgs }

/-- Reads the settings for launcher scripts. -/
def script? (t : Tree) : Option ScriptSettings := do
  let s ← group? scriptNames t
  let d := ScriptSettings.default
  let launcherPattern ← s.get? text? "launcher_pattern" d.launcherPattern
  let classPattern ← s.get? text? "class_pattern" d.classPattern
  return { launcherPattern, classPattern }

/-- Reads all settings. -/
def ofTree? (t : Tree) : Option Settings := do
  let s ← group? sectionNames t
  let layout ← s.get? layout? "layout" .default
  let oracle ← s.get? compiler? "oracle" .default
  let script ← s.get? script? "script" .default
  return { layout, oracle, script }

end Settings

end Excerpt
