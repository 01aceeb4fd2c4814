import Excerpt.Act
import Excerpt.Settings.Decode
import Excerpt.Store.Lookup

/-!
# Loading settings

Settings are looked for in a directory, in the first of two files that exists, and in the
environment. A variable whose name starts with `JCK_EXTRACT__`, in capitals or not, is a setting
that overrides the file; two underscores stand between the section and the name.
-/

namespace Excerpt

namespace Settings

/-! ### Files -/

/-- The name of the settings file. -/
def fileName : Text := "jck-extract.toml".toList

/-- The names of settings files, the preferred one first. -/
def fileNames : List Text := [fileName, '.' :: fileName]

/-- The settings file of a directory: the first name under which something exists. -/
def fileIn? (s : Store) (dir : Path) : Option Path :=
  (fileNames.map dir.joinText).find? s.exists

/-- The file that is read for a path. Where no file stands at the path itself, a file stands in
whose name has the extension once more. -/
def readable? (s : Store) (p : Path) : Option Path :=
  let doubled : Path := ⟨p.bytes ++ Utf8.encode ".toml".toList⟩
  if s.isFile p then some p else if s.isFile doubled then some doubled else none

/-- The bytes without a byte order mark. -/
def dropMark (bs : Bytes) : Bytes :=
  if [0xEF, 0xBB, 0xBF].isPrefixOf bs then bs.drop 3 else bs

/-- The layer of a document. -/
def documentLayer? (content : Bytes) : Option Layer :=
  (Toml.parse? (Utf8.lossy (dropMark content))).map Tree.ofEntries

/-- The layer of a settings file. -/
def fileLayer? (s : Store) (p : Path) : Option Layer :=
  (readable? s p).bind fun p =>
    match s.read p with
    | .ok content => documentLayer? content
    | .error _ => none

/-! ### The environment -/

/-- A character as in the name of a variable made small. The Kelvin sign is the only capital
outside ASCII whose small letter is in ASCII; the others are in the name of no setting. -/
def smallLetter (c : Char) : Char := if c = '\u212A' then 'k' else c.toLower

/-- How the names of variables start that are settings. -/
def variableStart : Text := "jck_extract__".toList

/-- The name of the setting that a variable gives. -/
def variableName? (name : Text) : Option Text :=
  (Text.afterStart? variableStart (name.map smallLetter)).map
    (Text.replace "__".toList ['.'])

/-- The layer of the environment. -/
def variableLayer (environment : List (Text × Text)) : Layer :=
  environment.filterMap fun (name, value) => (variableName? name).map (·, .text value)

/-! ### Together -/

/-- The settings of some layers. -/
def ofLayers (layers : List Layer) : Except Failure Settings :=
  match ofTree? (Tree.ofLayers layers) with
  | some settings => .ok settings
  | none => .error .parseSettings

/-- Loads the settings for a directory. -/
def load (s : Store) (environment : List (Text × Text)) (dir : Path) : Except Failure Settings :=
  let upper := variableLayer environment
  match fileIn? s dir with
  | none => ofLayers [upper]
  | some p =>
    match fileLayer? s p with
    | none => .error .loadSettings
    | some layer => ofLayers [layer, upper]

end Settings

end Excerpt
